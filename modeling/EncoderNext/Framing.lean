import EncoderNext.Program
import EncoderNext.Protocol

/-!
# Headers and payloads over a stream

A stream takes and hands out bytes in pieces of its own choice. The loops that
write a header and its payload put every byte on the stream; the loops that read
take the header byte by byte and the payload to its last byte, and nothing more.
-/

namespace EncoderNext

open Program

inductive StreamCall where
  | write (b : Bytes)
  | read (size : Nat)

namespace StreamCall

/-- How many bytes were taken, or the bytes that were there; none is a failure. -/
@[reducible] def Reply : StreamCall → Type
  | write _ => Nat
  | read _ => Bytes

end StreamCall

abbrev StreamProgram := Program StreamCall StreamCall.Reply

namespace Framing

/-- Each turn takes a byte at least, so the length bounds the number of turns. -/
def writeLoop : Nat → Bytes → StreamProgram Bool
  | 0, data => pure (data == [])
  | fuel + 1, data =>
    if data = [] then pure true
    else do
      let n : Nat ← ask (StreamCall.write data)
      if n = 0 then return false else writeLoop fuel (data.drop n)

def writeAll (data : Bytes) : StreamProgram Bool := writeLoop data.length data

def writeHeader (it : Iteration) (h : Header) : StreamProgram Bool := writeAll (h.serialize it)

def readLoop : Nat → Nat → StreamProgram (Option Bytes)
  | 0, size => pure (if size = 0 then some [] else none)
  | fuel + 1, size =>
    if size = 0 then pure (some [])
    else do
      let got : Bytes ← ask (StreamCall.read size)
      if got = [] then return none
      else return (← readLoop fuel (size - got.length)).map (got ++ ·)

def readExact (size : Nat) : StreamProgram (Option Bytes) := readLoop size size

/-- `read_header` up to the end of the text, from the bytes that may still come. -/
def readText : Nat → Bool → StreamProgram (Option Bytes)
  | 0, _ => pure none
  | n + 1, last => do
    let got : Bytes ← ask (StreamCall.read 1)
    match got with
    | [] => return none
    | c :: _ =>
      if c = lf ∧ last then return if n = 0 then none else some [c]
      else return (← readText n (if c = lf then true else if c = cr then last else false)).map (c :: ·)

def readHeader (max : Nat) : StreamProgram (Option Header) :=
  Option.map Header.parse <$> readText max false

def send (it : Iteration) (h : Header) (payload : Bytes) : StreamProgram Bool := do
  if ← writeHeader it h then writeAll payload else return false

def receive (max size : Nat) : StreamProgram (Option (Header × Bytes)) := do
  match ← readHeader max with
  | none => return none
  | some h => return (← readExact size).map fun payload => (h, payload)

/-! ## The stream -/

structure Wire where
  written : Bytes := []
  unread : Bytes := []

/-- Any piece that is not empty may be taken or handed out; a stream at its end
hands out nothing. -/
def wireEnv : Env Wire StreamCall StreamCall.Reply
  | w, .write b, (n : Nat), w' =>
    (b ≠ [] → 0 < n) ∧ n ≤ b.length ∧ w' = { w with written := w.written ++ b.take n }
  | w, .read size, (got : Bytes), w' =>
    w.unread = got ++ w'.unread ∧ w' = { w with unread := w'.unread } ∧ got.length ≤ size ∧
      (got = [] → w.unread = [] ∨ size = 0)

/-! ## Writing -/

theorem writeLoop_spec : ∀ (fuel : Nat) (data : Bytes) (w : Wire), data.length ≤ fuel →
    wp wireEnv (fun r w' => r = true ∧ w' = { w with written := w.written ++ data }) (fun _ => True)
      (writeLoop fuel data) w
  | 0, data, w, h => by
    have hnil : data = [] := List.eq_nil_of_length_eq_zero (by omega)
    subst hnil
    exact ⟨trivial, rfl, by simp⟩
  | fuel + 1, data, w, h => by
    rw [writeLoop]
    by_cases hd : data = []
    · subst hd
      rw [if_pos rfl]
      exact ⟨trivial, rfl, by simp⟩
    · rw [if_neg hd, wp_ask_bind]
      refine ⟨trivial, fun (n : Nat) w₁ hn => ?_⟩
      obtain ⟨hpos, hle, rfl⟩ : (data ≠ [] → 0 < n) ∧ n ≤ data.length ∧
        w₁ = { w with written := w.written ++ data.take n } := hn
      have hpos := hpos hd
      rw [if_neg (by omega)]
      have hrest : (data.drop n).length ≤ fuel := by
        rw [List.length_drop]
        omega
      refine wp_post (writeLoop_spec fuel (data.drop n) _ hrest) fun r w' _ hr => ?_
      obtain ⟨hr, rfl⟩ := hr
      simp [hr, List.append_assoc]

theorem send_spec (it : Iteration) (h : Header) (payload : Bytes) (w : Wire) :
    wp wireEnv (fun r w' => r = true ∧
        w' = { w with written := w.written ++ (h.serialize it ++ payload) }) (fun _ => True)
      (send it h payload) w := by
  unfold send
  rw [wp_bind]
  refine wp_post (writeLoop_spec _ (h.serialize it) w le_rfl) fun r w₁ _ hr => ?_
  obtain ⟨rfl, rfl⟩ := hr
  rw [if_pos rfl]
  refine wp_post (writeLoop_spec _ payload _ le_rfl) fun r w₂ _ hr => ?_
  obtain ⟨hr, rfl⟩ := hr
  simp [hr, List.append_assoc]

/-! ## Reading -/

theorem readLoop_spec (rest : Bytes) : ∀ (fuel : Nat) (payload : Bytes) (w : Wire),
    payload.length ≤ fuel → w.unread = payload ++ rest →
    wp wireEnv (fun r w' => r = some payload ∧ w' = { w with unread := rest }) (fun _ => True)
      (readLoop fuel payload.length) w
  | 0, payload, w, h, hw => by
    have hnil : payload = [] := List.eq_nil_of_length_eq_zero (by omega)
    subst hnil
    exact ⟨trivial, rfl, by rw [← List.nil_append rest, ← hw]⟩
  | fuel + 1, payload, w, h, hw => by
    rw [readLoop]
    by_cases hp : payload.length = 0
    · rw [if_pos hp]
      have hnil : payload = [] := List.eq_nil_of_length_eq_zero hp
      subst hnil
      exact ⟨trivial, rfl, by rw [← List.nil_append rest, ← hw]⟩
    · rw [if_neg hp, wp_ask_bind]
      refine ⟨trivial, fun (got : Bytes) w₁ hgot => ?_⟩
      obtain ⟨hunread, hsame, hle, hend⟩ : w.unread = got ++ w₁.unread ∧
        w₁ = { w with unread := w₁.unread } ∧ got.length ≤ payload.length ∧
        (got = [] → w.unread = [] ∨ payload.length = 0) := hgot
      have hsome : got ≠ [] := by
        intro hn
        have hnil := ((hend hn).resolve_right hp).symm.trans hw
        rw [List.nil_eq, List.append_eq_nil_iff] at hnil
        exact hp (by simp [hnil.1])
      rw [if_neg hsome]
      -- the piece is the front of the payload
      obtain ⟨tail, htail, hrest⟩ : ∃ tail, payload = got ++ tail ∧ w₁.unread = tail ++ rest := by
        have happ := hunread.symm.trans hw
        obtain ⟨tail, h1, h2⟩ | ⟨tail, h1, h2⟩ := List.append_eq_append_iff.mp happ
        · exact ⟨tail, h1, h2⟩
        · have hempty : tail = [] := by
            have hlen := congrArg List.length h1
            simp only [List.length_append] at hlen
            exact List.eq_nil_of_length_eq_zero (by omega)
          subst hempty
          exact ⟨[], by simpa using h1.symm, by simpa using h2.symm⟩
      have hleft : payload.length - got.length = tail.length := by
        rw [htail, List.length_append]
        omega
      have hgot : 0 < got.length := List.length_pos_of_ne_nil hsome
      have hshort : tail.length ≤ fuel := by omega
      rw [hleft, wp_bind]
      refine wp_post (readLoop_spec rest fuel tail w₁ hshort hrest) fun r w₂ _ hr => ?_
      obtain ⟨rfl, rfl⟩ := hr
      refine ⟨trivial, by rw [htail]; rfl, ?_⟩
      rw [hsame]

theorem readText_spec : ∀ (n : Nat) (last : Bool) (w : Wire),
    wp wireEnv (fun r w' => r = (Header.readText n last w.unread).map Prod.fst ∧
        ∀ text rest, Header.readText n last w.unread = some (text, rest) →
          w' = { w with unread := rest }) (fun _ => True) (readText n last) w
  | 0, last, w => ⟨trivial, rfl, fun _ _ h => by simp [Header.readText] at h⟩
  | n + 1, last, w => by
    rw [readText, wp_ask_bind]
    refine ⟨trivial, fun (got : Bytes) w₁ hgot => ?_⟩
    obtain ⟨hunread, hsame, hle, hend⟩ : w.unread = got ++ w₁.unread ∧
      w₁ = { w with unread := w₁.unread } ∧ got.length ≤ 1 ∧
      (got = [] → w.unread = [] ∨ 1 = 0) := hgot
    cases got with
    | nil =>
      rw [(hend rfl).resolve_right Nat.one_ne_zero]
      exact ⟨trivial, rfl, fun _ _ h => by simp [Header.readText] at h⟩
    | cons c more =>
      have hmore : more = [] := List.eq_nil_of_length_eq_zero (by rw [List.length_cons] at hle; omega)
      subst hmore
      rw [hunread, List.singleton_append, Header.readText]
      dsimp only
      by_cases hlast : c = lf ∧ last = true
      · rw [if_pos hlast, if_pos hlast]
        by_cases hn : n = 0
        · rw [if_pos hn, if_pos hn]
          exact ⟨trivial, rfl, fun _ _ h => by cases h⟩
        · rw [if_neg hn, if_neg hn]
          refine ⟨trivial, rfl, fun text rest h => ?_⟩
          cases h
          exact hsame
      · rw [if_neg hlast, if_neg hlast, wp_bind]
        refine wp_post (readText_spec n _ w₁) fun r w₂ _ hr => ?_
        obtain ⟨rfl, hrest⟩ := hr
        refine ⟨trivial, by rw [Option.map_map, Option.map_map]; rfl, fun text rest h => ?_⟩
        obtain ⟨r, hr, he⟩ := Option.map_eq_some_iff.mp h
        cases he
        rw [hrest _ _ hr, hsame]

/-- Reading a header is what `Header.read` says, whatever the pieces are. -/
theorem readHeader_spec (max : Nat) (w : Wire) :
    wp wireEnv (fun r w' => r = (Header.read max w.unread).map Prod.fst ∧
        ∀ h rest, Header.read max w.unread = some (h, rest) → w' = { w with unread := rest })
      (fun _ => True) (readHeader max) w := by
  unfold readHeader
  rw [wp_map]
  refine wp_post (readText_spec max false w) fun r w' _ hr => ?_
  obtain ⟨rfl, hrest⟩ := hr
  refine ⟨by rw [Header.read, Option.map_map, Option.map_map]; rfl, fun h rest hread => ?_⟩
  obtain ⟨p, hp, he⟩ := Option.map_eq_some_iff.mp hread
  cases he
  exact hrest _ _ hp

/-! ## Both sides -/

def Clean (h : Header) : Prop :=
  ∀ key value, h.fields.lookup key = some value →
    Header.keyOk key = true ∧ lf ∉ value ∧ trim value = value

theorem writable_of_clean {h : Header} (hc : Clean h) : h.Writable := by
  intro key value hv
  exact ⟨(hc key value hv).1, (hc key value hv).2.1⟩

theorem lookup_parse_clean {h : Header} (hc : Clean h) (it : Iteration) (key : Bytes) :
    (Header.parse (h.serialize it)).fields.lookup key = h.fields.lookup key := by
  rw [Header.lookup_parse_serialize (writable_of_clean hc)]
  cases hv : h.fields.lookup key with
  | none => rfl
  | some value => rw [Option.map_some, (hc key value hv).2.2]

/-- **Framing is lossless.** Every byte that is sent arrives on the stream; the reader
returns the header and the payload and leaves what follows untouched exactly when the
written header is shorter than its limit. -/
theorem framing_lossless {h : Header} (hne : h.fields.entries ≠ []) (hc : Clean h) (it : Iteration)
    (payload following : Bytes) (max : Nat) {sent : Bool} {w u w'' : Wire}
    (hs : Runs wireEnv (send it h payload) {} sent w) {received : Option (Header × Bytes)}
    (hr : Runs wireEnv (receive max payload.length) { u with unread := w.written ++ following }
      received w'') {parsed : Option Header} {w₁ : Wire}
    (hh : Runs wireEnv (readHeader max) { u with unread := w.written ++ following } parsed w₁) :
    sent = true ∧
    ((∃ h', received = some (h', payload) ∧ (∀ key, h'.fields.lookup key = h.fields.lookup key) ∧
        w''.unread = following) ↔ (h.serialize it).length < max) ∧
    ((h.serialize it).length < max → w₁.unread = payload ++ following) ∧
    (max ≤ (h.serialize it).length → parsed = none ∧ received = none) := by
  obtain ⟨rfl, rfl⟩ := runs_of_wp (send_spec it h payload {}) hs
  have hread : Header.read max (h.serialize it ++ payload ++ following) =
      if (h.serialize it).length < max then
        some (Header.parse (h.serialize it), payload ++ following) else none := by
    rw [List.append_assoc]
    exact Header.read_serialize (writable_of_clean hc) it hne max (payload ++ following)
  obtain ⟨hparsed, hrest⟩ := runs_of_wp (readHeader_spec max _) hh
  simp only [List.nil_append] at hparsed hrest
  have hboth : wp wireEnv (fun r w'' =>
      if (h.serialize it).length < max then
        r = some (Header.parse (h.serialize it), payload) ∧ w''.unread = following
      else r = none) (fun _ => True) (receive max payload.length)
      { u with unread := [] ++ (h.serialize it ++ payload) ++ following } := by
    unfold receive
    rw [wp_bind]
    refine wp_post (readHeader_spec max _) fun r w₂ _ hr₂ => ?_
    obtain ⟨hr₂, hw₂⟩ := hr₂
    simp only [List.nil_append] at hr₂ hw₂
    rw [hread] at hr₂ hw₂
    by_cases hlt : (h.serialize it).length < max
    · rw [if_pos hlt] at hr₂ hw₂
      obtain rfl := hr₂
      obtain rfl := hw₂ _ _ rfl
      simp only [Option.map_some, if_pos hlt, wp_bind]
      refine wp_post (readLoop_spec following _ payload _ le_rfl rfl) fun r w₃ _ hr₃ => ?_
      obtain ⟨rfl, rfl⟩ := hr₃
      exact ⟨trivial, rfl, rfl⟩
    · rw [if_neg hlt] at hr₂
      obtain rfl := hr₂
      simp only [Option.map_none, if_neg hlt]
      exact ⟨trivial, rfl⟩
  have hreceived := runs_of_wp hboth hr
  refine ⟨rfl, ?_, ?_, ?_⟩
  · by_cases hlt : (h.serialize it).length < max
    · rw [if_pos hlt] at hreceived
      exact ⟨fun _ => hlt, fun _ => ⟨_, hreceived.1, lookup_parse_clean hc it, hreceived.2⟩⟩
    · rw [if_neg hlt] at hreceived
      refine ⟨fun hsome => ?_, fun h => absurd h hlt⟩
      obtain ⟨h', hsome, _⟩ := hsome
      rw [hreceived] at hsome
      cases hsome
  · intro hlt
    rw [hread, if_pos hlt] at hrest
    rw [hrest _ _ rfl]
  · intro hge
    rw [if_neg (by omega)] at hreceived
    rw [hread, if_neg (by omega)] at hparsed
    exact ⟨hparsed, hreceived⟩

def bytewise (w : Wire) : (c : StreamCall) → c.Reply × Wire
  | .write b => (b.length, { w with written := w.written ++ b })
  | .read size =>
    (w.unread.take (min 1 size), { w with unread := w.unread.drop (min 1 size) })

theorem bytewise_pieces (w : Wire) (c : StreamCall) :
    wireEnv w c (bytewise w c).1 (bytewise w c).2 := by
  cases c with
  | write b =>
    refine ⟨List.length_pos_of_ne_nil, le_refl b.length, ?_⟩
    show _ = { w with written := w.written ++ b.take b.length }
    rw [List.take_length]
    rfl
  | read size =>
    refine ⟨(List.take_append_drop (min 1 size) w.unread).symm, rfl, ?_, ?_⟩
    · show (w.unread.take (min 1 size)).length ≤ size
      rw [List.length_take]
      omega
    · intro hnil
      have hlen : (w.unread.take (min 1 size)).length = 0 := congrArg List.length hnil
      rw [List.length_take] at hlen
      by_cases hsize : size = 0
      · exact .inr hsize
      · exact .inl (List.eq_nil_of_length_eq_zero (by omega))

def smallHeader : Header := Header.set {} (bytes "a") (bytes "b")

theorem clean_smallHeader : Clean smallHeader := by
  intro key value h
  by_cases hk : key = bytes "a"
  · subst hk
    rw [smallHeader, Header.lookup_set_self] at h
    cases h
    decide
  · rw [smallHeader, Header.lookup_set_ne _ _ hk, Header.lookup_empty] at h
    cases h

theorem framing_lossless_bytewise : ∃ received w,
    Runs wireEnv (receive 7 1) { unread := bytes "a: b\n\n" ++ [0] } received w ∧
      ∃ h', received = some (h', [0]) ∧ h'.fields.lookup (bytes "a") = some (bytes "b") := by
  let sender := exec bytewise (send .stored smallHeader [0]) {}
  have hs : Runs wireEnv (send .stored smallHeader [0]) {} sender.1 sender.2 :=
    runs_exec bytewise_pieces _ _
  have hr := runs_exec bytewise_pieces (receive 7 1) { unread := sender.2.written ++ [] }
  have hh := runs_exec bytewise_pieces (readHeader 7) { unread := sender.2.written ++ [] }
  obtain ⟨_, hiff, _⟩ := framing_lossless (h := smallHeader) (by decide) clean_smallHeader .stored [0]
    [] 7 (u := {}) hs hr hh
  obtain ⟨h', hsome, hfields, _⟩ := hiff.mpr (by decide)
  refine ⟨_, _, hr, h', hsome, ?_⟩
  rw [hfields, smallHeader, Header.lookup_set_self]

end Framing

end EncoderNext
