import EncoderNext.Interleaving
import EncoderNext.NetworkStatus

/-!
# The scan helper's stream

The server asks the privileged helper for a scan over a stream socket. The request ends with
the end of the stream; the answer is a table or an error behind a first line. Both ends send
and receive in pieces of any size, each while the other goes on.
-/

namespace EncoderNext

open Program NetworkStatus

namespace ScanIpc

structure Answer where
  ok : Bool
  results : Bytes
  error : Bytes

/-- What a wait and a `recv` give; interrupted ones are made again. -/
inductive Received where
  | chunk (b : {b : Bytes // b ≠ [] ∧ b.length ≤ 4096})
  | ended
  | failed

inductive SockCall where
  | connect
  | send (b : Bytes)
  | shutdown
  | recv
  | action
  | close

@[reducible] def SockCall.Reply : SockCall → Type
  | send b => Option (Fin (b.length + 1))
  | recv => Received
  | action => Answer
  | _ => Bool

abbrev SockProgram := Program SockCall SockCall.Reply

abbrev sock (c : SockCall) : SockProgram c.Reply := ask c

/-- All bytes up to the end of the stream, unless they are more than the limit. -/
def receive (limit : Nat) (out : Bytes) : SockProgram (Option Bytes) := do
  match ← sock .recv with
  | .failed => return none
  | .ended => return some out
  | .chunk b =>
    if limit < out.length + b.1.length then return none
    else receive limit (out ++ b.1)
termination_by limit - out.length
decreasing_by
  have := List.length_pos_iff.mpr b.2.1
  rw [List.length_append]
  omega

def transmit (text : Bytes) : SockProgram Bool := do
  if text = [] then return true
  else
    match ← sock (.send text) with
    | none => return false
    | some n => if n.val = 0 then return false else transmit (text.drop n)
termination_by text.length
decreasing_by
  rename_i h hn
  rw [List.length_drop]
  have := List.length_pos_iff.mpr h
  omega

def scanRequest : Bytes := bytes "SCAN\n"

def okLine : Bytes := bytes "OK\n"

def errorLine : Bytes := bytes "ERROR\n"

def replyTo (answer : Answer) : Bytes :=
  if answer.ok && (65500 < answer.results.length || !heading.isPrefixOf answer.results) then
    errorLine ++ bytes "Invalid scan results"
  else if answer.ok then okLine ++ answer.results
  else errorLine ++ answer.error.take 256

def answered (request : Option Bytes) : SockProgram Bool := do
  if request = some scanRequest then transmit (replyTo (← sock .action))
  else transmit (errorLine ++ bytes "Invalid scan request")

def serveWifiScan : SockProgram Bool := do answered (← receive 8 [])

structure Scan where
  ok : Bool
  output : Bytes
  error : Bytes
  deriving DecidableEq

def understood (error response : Bytes) : Scan :=
  if (okLine ++ heading).isPrefixOf response then ⟨true, response.drop 3, error⟩
  else if errorLine.isPrefixOf response then ⟨false, [], (response.drop 6).take 256⟩
  else ⟨false, [], bytes "Invalid scan helper response"⟩

def validPath (path : Bytes) : Bool :=
  path.head? == some (byte '/') && path.length < 108 && !path.contains 0

def requestWifiScan (path error : Bytes) : SockProgram Scan := do
  if validPath path then
    if ← sock .connect then
      let incomplete : Scan :=
        ⟨false, [], bytes "Scan helper timed out or returned an invalid response; completion unknown"⟩
      if ← transmit scanRequest then
        if ← sock .shutdown then
          match ← receive 65536 [] with
          | some response => return understood error response
          | none => return incomplete
        else return incomplete
      else return incomplete
    else return ⟨false, [], bytes "Scan helper unavailable or busy"⟩
  else return ⟨false, [], bytes "Invalid scan helper socket path"⟩

/-- The helper's process, whose end closes the stream. -/
def scanHelper : SockProgram Bool := do
  let served ← serveWifiScan
  let _ ← sock .close
  return served

/-! ## The two streams -/

structure Stream where
  bytes : Bytes
  ended : Bool

/-- The streams to and from the helper, and the actions run so far. -/
structure Line where
  up : Stream
  down : Stream
  actions : Nat

/-- A part of any size is taken; the end is seen behind the last byte. -/
def Takes (s s' : Stream) : Received → Prop
  | .chunk b => s = ⟨b.1 ++ s'.bytes, s'.ended⟩
  | .ended => s = ⟨[], true⟩ ∧ s' = s
  | .failed => False

def Gives (s s' : Stream) (b : Bytes) (n : Option (Fin (b.length + 1))) : Prop :=
  ∃ k, n = some k ∧ (b ≠ [] → k.val ≠ 0) ∧ s' = ⟨s.bytes ++ b.take k, s.ended⟩

def helperEnv (answer : Answer) : Env Line SockCall SockCall.Reply
  | l, .recv, r, l' => ∃ up, Takes l.up up r ∧ l' = { l with up := up }
  | l, .send b, n, l' => ∃ down, Gives l.down down b n ∧ l' = { l with down := down }
  | l, .action, a, l' => a = answer ∧ l' = { l with actions := l.actions + 1 }
  | l, .close, _, l' => l' = { l with down := ⟨l.down.bytes, true⟩ }
  | _, _, _, _ => False

def requestEnv : Env Line SockCall SockCall.Reply
  | l, .recv, r, l' => ∃ down, Takes l.down down r ∧ l' = { l with down := down }
  | l, .send b, n, l' => ∃ up, Gives l.up up b n ∧ l' = { l with up := up }
  | l, .connect, ok, l' => ok = true ∧ l' = l
  | l, .shutdown, ok, l' => ok = true ∧ l' = { l with up := ⟨l.up.bytes, true⟩ }
  | _, _, _, _ => False

/-! ## Pieces -/

theorem exists_takes {s : Stream} (h : s.bytes ≠ [] ∨ s.ended = true) : ∃ r s', Takes s s' r := by
  obtain ⟨b, ended⟩ := s
  by_cases hb : b = []
  · subst hb
    obtain rfl : ended = true := h.resolve_left (by simp)
    exact ⟨.ended, _, rfl, rfl⟩
  · have hne : b.take 4096 ≠ [] := by
      have := List.length_pos_iff.mpr hb
      rw [← List.length_pos_iff, List.length_take]
      omega
    refine ⟨.chunk ⟨b.take 4096, hne, List.length_take_le _ _⟩, ⟨b.drop 4096, ended⟩, ?_⟩
    show (⟨b, ended⟩ : Stream) = ⟨b.take 4096 ++ b.drop 4096, ended⟩
    rw [List.take_append_drop]

theorem exists_gives (s : Stream) (b : Bytes) : ∃ n s', Gives s s' b n := by
  refine ⟨some ⟨b.length, Nat.lt_succ_self _⟩, _, _, rfl, ?_, rfl⟩
  exact fun hb => (List.length_pos_iff.mpr hb).ne'

/-! ## The helper on a complete stream -/

section
variable {answer : Answer}

theorem receive_must {limit : Nat} {Q : Option Bytes → Line → Prop} {rest out : Bytes} {l : Line}
    (hup : l.up = ⟨rest, true⟩) (hout : out.length ≤ limit)
    (hall : out.length + rest.length ≤ limit → Q (some (out ++ rest)) { l with up := ⟨[], true⟩ })
    (hover : limit < out.length + rest.length → ∀ up, Q none { l with up := up }) :
    must (helperEnv answer) Q (receive limit out) l := by
  induction h : rest.length using Nat.strong_induction_on generalizing rest out l with
  | h n ih =>
    subst h
    rw [receive, must_ask_bind]
    constructor
    -- the stream has been ended, so the call returns
    · obtain ⟨r, up, htakes⟩ := exists_takes (s := l.up) (by rw [hup]; exact .inr rfl)
      exact ⟨r, _, up, htakes, rfl⟩
    · rintro r _ ⟨up, htakes, rfl⟩
      rw [hup] at htakes
      cases r with
      | failed => exact htakes.elim
      | ended =>
        obtain ⟨hnil, rfl⟩ := htakes
        obtain rfl : rest = [] := congrArg Stream.bytes hnil
        simp only [List.length_nil, Nat.add_zero, List.append_nil] at hall
        exact hall hout
      | chunk b =>
        obtain ⟨up, ended⟩ := up
        obtain ⟨rfl, rfl⟩ := (Stream.mk.injEq ..).mp htakes
        have hpos := List.length_pos_iff.mpr b.2.1
        dsimp only at hall hover ⊢
        rw [List.length_append] at hall hover
        split
        · rename_i hbig
          exact hover (by omega) _
        · rename_i hfits
          refine ih up.length (by dsimp only; rw [List.length_append]; omega) rfl ?_ ?_ ?_ rfl
          · rw [List.length_append]
            omega
          · intro hlen
            rw [List.length_append] at hlen
            rw [List.append_assoc]
            exact hall (by omega)
          · intro hlen up'
            rw [List.length_append] at hlen
            exact hover (by omega) up'

theorem transmit_must {Q : Bool → Line → Prop} {text : Bytes} {l : Line}
    (h : Q true { l with down := ⟨l.down.bytes ++ text, l.down.ended⟩ }) :
    must (helperEnv answer) Q (transmit text) l := by
  induction text using transmit.induct generalizing l with
  | case1 =>
    rw [transmit, if_pos rfl]
    rw [List.append_nil] at h
    exact h
  | case2 text hne ih =>
    rw [transmit, if_neg hne, must_ask_bind]
    constructor
    · obtain ⟨n, down, hgives⟩ := exists_gives l.down text
      exact ⟨n, _, down, hgives, rfl⟩
    · rintro n _ ⟨down, ⟨k, rfl, hpos, rfl⟩, rfl⟩
      dsimp only
      rw [if_neg (hpos hne)]
      refine ih k (hpos hne) ?_
      rw [List.append_assoc, List.take_append_drop]
      exact h

theorem answered_exact : answered (some scanRequest) =
    (sock .action >>= fun answer => transmit (replyTo answer)) := if_pos rfl

/-- **Only the exact request runs the action, and runs it once.** -/
theorem serve_must (stream : Bytes) : must (helperEnv answer)
    (fun served l => served = true ∧ l.actions = (if stream = scanRequest then 1 else 0) ∧
      l.down = ⟨if stream = scanRequest then replyTo answer
        else errorLine ++ bytes "Invalid scan request", false⟩)
    serveWifiScan ⟨⟨stream, true⟩, ⟨[], false⟩, 0⟩ := by
  have hbad : ∀ {request : Option Bytes} {up : Stream}, request ≠ some scanRequest →
      stream ≠ scanRequest → must (helperEnv answer)
        (fun served l => served = true ∧ l.actions = (if stream = scanRequest then 1 else 0) ∧
          l.down = ⟨if stream = scanRequest then replyTo answer
            else errorLine ++ bytes "Invalid scan request", false⟩)
        (answered request) ⟨up, ⟨[], false⟩, 0⟩ := by
    intro request up hrequest hstream
    rw [answered, if_neg hrequest]
    refine transmit_must ⟨rfl, ?_, ?_⟩
    · rw [if_neg hstream]
    · rw [if_neg hstream]
      rfl
  unfold serveWifiScan
  rw [must_bind]
  refine receive_must rfl (Nat.zero_le _) ?_ ?_
  · intro _
    rw [List.nil_append]
    by_cases hs : stream = scanRequest
    · subst hs
      rw [answered_exact, must_ask_bind]
      refine ⟨⟨answer, _, rfl, rfl⟩, ?_⟩
      rintro _ _ ⟨rfl, rfl⟩
      exact transmit_must ⟨rfl, by rw [if_pos rfl], by rw [if_pos rfl]; rfl⟩
    · exact hbad (by simpa using hs) hs
  · intro hlong up
    refine hbad (by simp) ?_
    rintro rfl
    exact absurd hlong (by decide)

end

/-! ## The helper beside the server -/

def closing (served : Bool) : SockProgram Bool := do
  let _ ← sock .close
  return served

theorem scanHelper_eq : scanHelper = (receive 8 [] >>= fun request => answered request >>= closing) := by
  show (serveWifiScan >>= closing) = _
  rw [serveWifiScan, bind_assoc]

/-- Where the helper stands when the server has still to send `unsent` and has received `got`. -/
inductive Serving (answer : Answer) : Bytes → Bytes → Line × SockProgram Bool → Prop where
  | reading {out up unsent : Bytes} {ended : Bool} : out ++ up ++ unsent = scanRequest →
      (ended = true → unsent = []) → Serving answer unsent [] (⟨⟨up, ended⟩, ⟨[], false⟩, 0⟩,
        receive 8 out >>= fun request => answered request >>= closing)
  | asking : Serving answer [] [] (⟨⟨[], true⟩, ⟨[], false⟩, 0⟩, answered (some scanRequest) >>= closing)
  | writing {got down rest : Bytes} : got ++ down ++ rest = replyTo answer →
      Serving answer [] got (⟨⟨[], true⟩, ⟨down, false⟩, 1⟩, transmit rest >>= closing)
  | closed {got down : Bytes} : got ++ down = replyTo answer →
      Serving answer [] got (⟨⟨[], true⟩, ⟨down, true⟩, 1⟩, .done true)

section
variable {answer : Answer} {unsent got : Bytes} {w w' : Line × SockProgram Bool}

theorem length_scanRequest : scanRequest.length = 5 := by decide

theorem serving_step (h : Serving answer unsent got w) (hs : Acts (helperEnv answer) w w') :
    Serving answer unsent got w' := by
  cases h with
  | @reading out up _ ended hrequest hended =>
    rw [receive, bind_assoc] at hs
    obtain ⟨r, _, ⟨up', htakes, rfl⟩, rfl⟩ := acts_ask_bind hs
    cases r with
    | failed => exact htakes.elim
    | ended =>
      obtain ⟨hnil, rfl⟩ := htakes
      obtain ⟨rfl, rfl⟩ := (Stream.mk.injEq ..).mp hnil
      obtain rfl := hended rfl
      rw [List.append_nil, List.append_nil] at hrequest
      rw [hrequest]
      exact .asking
    | chunk b =>
      obtain ⟨up', ended'⟩ := up'
      obtain ⟨rfl, rfl⟩ := (Stream.mk.injEq ..).mp htakes
      have hlength := congrArg List.length hrequest
      simp only [List.length_append, length_scanRequest] at hlength
      -- the request has eight bytes in all
      have hfits : ¬8 < out.length + b.1.length := by omega
      dsimp only
      rw [if_neg hfits]
      refine .reading ?_ hended
      rw [List.append_assoc out, hrequest]
  | asking =>
    rw [answered_exact, bind_assoc] at hs
    obtain ⟨_, _, ⟨rfl, rfl⟩, rfl⟩ := acts_ask_bind hs
    exact .writing rfl
  | @writing _ down rest hreply =>
    by_cases hrest : rest = []
    · subst hrest
      rw [transmit, if_pos rfl] at hs
      obtain ⟨_, _, rfl, rfl⟩ := acts_ask_bind (f := fun _ => (pure true : SockProgram Bool)) hs
      rw [List.append_nil] at hreply
      exact .closed hreply
    · rw [transmit, if_neg hrest, bind_assoc] at hs
      obtain ⟨n, _, ⟨down', ⟨k, rfl, hpos, rfl⟩, rfl⟩, rfl⟩ := acts_ask_bind hs
      dsimp only
      rw [if_neg (hpos hrest)]
      refine .writing ?_
      rw [← List.append_assoc got, List.append_assoc _ (rest.take k), List.take_append_drop, hreply]
  | closed hreply => cases hs

def Reaches (answer : Answer) (w : Line × SockProgram Bool) : Prop :=
  ∃ w', Relation.ReflTransGen (Acts (helperEnv answer)) w w' ∧
    (w'.1.down.bytes ≠ [] ∨ w'.1.down.ended = true)

theorem reaches_of_step (hs : Acts (helperEnv answer) w w') (h : Reaches answer w') :
    Reaches answer w := by
  obtain ⟨w₁, hsteps, hfound⟩ := h
  exact ⟨w₁, .head hs hsteps, hfound⟩

theorem reaches_writing (up : Stream) (down rest : Bytes) (actions : Nat) :
    Reaches answer (⟨up, ⟨down, false⟩, actions⟩, transmit rest >>= closing) := by
  by_cases hrest : rest = []
  · subst hrest
    rw [transmit, if_pos rfl]
    have hclose : helperEnv answer ⟨up, ⟨down, false⟩, actions⟩ .close true ⟨up, ⟨down, true⟩, actions⟩ := rfl
    exact ⟨_, .single (acts_ask (f := fun _ => (pure true : SockProgram Bool)) hclose), .inr rfl⟩
  · have hpos := (List.length_pos_iff.mpr hrest).ne'
    have hsend : helperEnv answer ⟨up, ⟨down, false⟩, actions⟩ (.send rest)
        (some ⟨rest.length, Nat.lt_succ_self _⟩) ⟨up, ⟨down ++ rest.take rest.length, false⟩, actions⟩ :=
      ⟨_, ⟨_, rfl, fun _ => hpos, rfl⟩, rfl⟩
    rw [transmit, if_neg hrest, bind_assoc]
    exact ⟨_, .single (acts_ask hsend), .inl (by simp [hrest])⟩

theorem reaches_asking (up : Stream) (actions : Nat) :
    Reaches answer (⟨up, ⟨[], false⟩, actions⟩, answered (some scanRequest) >>= closing) := by
  have hask : helperEnv answer ⟨up, ⟨[], false⟩, actions⟩ .action answer ⟨up, ⟨[], false⟩, actions + 1⟩ :=
    ⟨rfl, rfl⟩
  rw [answered_exact, bind_assoc]
  exact reaches_of_step (acts_ask hask) (reaches_writing ..)

theorem reaches_reading {out up : Bytes} (h : out ++ up = scanRequest) : Reaches answer
    (⟨⟨up, true⟩, ⟨[], false⟩, 0⟩, receive 8 out >>= fun request => answered request >>= closing) := by
  have hend : ∀ {out : Bytes}, out = scanRequest → Reaches answer (⟨⟨[], true⟩, ⟨[], false⟩, 0⟩,
      receive 8 out >>= fun request => answered request >>= closing) := by
    intro out hout
    subst hout
    have hrecv : helperEnv answer ⟨⟨[], true⟩, ⟨[], false⟩, 0⟩ .recv .ended ⟨⟨[], true⟩, ⟨[], false⟩, 0⟩ :=
      ⟨_, ⟨rfl, rfl⟩, rfl⟩
    rw [receive, bind_assoc]
    exact reaches_of_step (acts_ask hrecv) (reaches_asking ..)
  by_cases hup : up = []
  · subst hup
    rw [List.append_nil] at h
    exact hend h
  · have hlength := congrArg List.length h
    rw [List.length_append, length_scanRequest] at hlength
    have hrecv : helperEnv answer ⟨⟨up, true⟩, ⟨[], false⟩, 0⟩ .recv (.chunk ⟨up, hup, by omega⟩)
        ⟨⟨[], true⟩, ⟨[], false⟩, 0⟩ := ⟨⟨[], true⟩, by simp [Takes], rfl⟩
    have hfits : ¬8 < out.length + up.length := by omega
    rw [receive, bind_assoc]
    refine reaches_of_step (acts_ask hrecv) ?_
    dsimp only
    rw [if_neg hfits]
    exact hend h

theorem reaches_of_serving (h : Serving answer unsent got w) (hended : w.1.up.ended = true) :
    Reaches answer w := by
  cases h with
  | @reading out up _ ended hrequest hnone =>
    obtain rfl : ended = true := hended
    obtain rfl := hnone rfl
    rw [List.append_nil] at hrequest
    exact reaches_reading hrequest
  | asking => exact reaches_asking ..
  | writing => exact reaches_writing ..
  | closed => exact ⟨_, .refl, .inr rfl⟩

/-! ## The server beside the helper -/

theorem ended_of_acts (hs : Acts (helperEnv answer) w w') : w'.1.up.ended = w.1.up.ended := by
  cases hs with
  | @call l l' c r k he =>
    cases c with
    | connect => exact he.elim
    | shutdown => exact he.elim
    | send b =>
      obtain ⟨down, -, rfl⟩ := he
      rfl
    | action =>
      obtain ⟨-, rfl⟩ := he
      rfl
    | close =>
      obtain rfl : l' = _ := he
      rfl
    | recv =>
      obtain ⟨up, htakes, rfl⟩ := he
      cases r with
      | failed => exact htakes.elim
      | ended => rw [htakes.2]
      | chunk b => exact (congrArg Stream.ended htakes).symm

def Open (answer : Answer) (unsent : Bytes) (w : Line × SockProgram Bool) : Prop :=
  Serving answer unsent [] w ∧ w.1.up.ended = false

def Shut (answer : Answer) (got : Bytes) (w : Line × SockProgram Bool) : Prop :=
  Serving answer [] got w ∧ w.1.up.ended = true

theorem open_step : ∀ w w', Open answer unsent w → Acts (helperEnv answer) w w' → Open answer unsent w' :=
  fun _ _ h hs => ⟨serving_step h.1 hs, (ended_of_acts hs).trans h.2⟩

theorem shut_step : ∀ w w', Shut answer got w → Acts (helperEnv answer) w w' → Shut answer got w' :=
  fun _ _ h hs => ⟨serving_step h.1 hs, (ended_of_acts hs).trans h.2⟩

theorem transmit_beside {Q : Bool → Line × SockProgram Bool → Prop} (h : Open answer unsent w)
    (hQ : ∀ w', Open answer [] w' → Q true w') :
    must (beside requestEnv (helperEnv answer)) Q (transmit unsent) w := by
  induction unsent using transmit.induct generalizing w with
  | case1 =>
    rw [transmit, if_pos rfl]
    exact hQ w h
  | case2 unsent hne ih =>
    rw [transmit, if_neg hne, must_ask_bind]
    constructor
    · obtain ⟨n, up, hgives⟩ := exists_gives w.1.up unsent
      exact ⟨n, (_, w.2), w, .refl, ⟨up, hgives, rfl⟩, rfl⟩
    · rintro n ⟨l₂, p₂⟩ he
      obtain ⟨⟨l₁, p₁⟩, ⟨hserving, hopen⟩, ⟨up, ⟨k, rfl, hpos, rfl⟩, hline⟩, hprogram⟩ :=
        of_between open_step h he
      cases hline
      cases hprogram
      dsimp only
      rw [if_neg (hpos hne)]
      refine ih k (hpos hne) ⟨?_, hopen⟩
      cases hserving with
      | reading hrequest hended =>
        refine .reading ?_ fun h => absurd (h.symm.trans hopen) (by decide)
        rw [← hrequest, ← List.append_assoc _ _ (unsent.take k), List.append_assoc _ (unsent.take k),
          List.take_append_drop]
      | asking => exact absurd rfl hne
      | writing => exact absurd rfl hne
      | closed => exact absurd rfl hne

theorem shutdown_beside {f : Bool → SockProgram α}
    {Q : α → Line × SockProgram Bool → Prop} (h : Open answer [] w)
    (hQ : ∀ w', Shut answer [] w' → must (beside requestEnv (helperEnv answer)) Q (f true) w') :
    must (beside requestEnv (helperEnv answer)) Q (sock .shutdown >>= f) w := by
  rw [must_ask_bind]
  constructor
  · exact ⟨true, (_, w.2), w, .refl, ⟨rfl, rfl⟩, rfl⟩
  · rintro ok ⟨l₂, p₂⟩ he
    obtain ⟨⟨l₁, p₁⟩, ⟨hserving, hopen⟩, ⟨rfl, hline⟩, hprogram⟩ := of_between open_step h he
    cases hline
    cases hprogram
    refine hQ _ ⟨?_, rfl⟩
    cases hserving with
    | reading hrequest _ => exact .reading hrequest fun _ => rfl
    | asking => exact absurd hopen (by simp)
    | writing => exact absurd hopen (by simp)
    | closed => exact absurd hopen (by simp)

theorem receive_beside {limit : Nat} {Q : Option Bytes → Line × SockProgram Bool → Prop}
    (h : Shut answer got w) (hlimit : (replyTo answer).length ≤ limit)
    (hQ : ∀ w', w'.1.actions = 1 → w'.2 = .done true → Q (some (replyTo answer)) w') :
    must (beside requestEnv (helperEnv answer)) Q (receive limit got) w := by
  induction got using receive.induct limit generalizing w with
  | case1 got ih =>
    rw [receive, must_ask_bind]
    constructor
    -- the helper can always come to where there is something to read
    · obtain ⟨⟨l', p'⟩, hsteps, hready⟩ := reaches_of_serving h.1 h.2
      obtain ⟨r, down, htakes⟩ := exists_takes hready
      exact ⟨r, (_, p'), _, hsteps, ⟨down, htakes, rfl⟩, rfl⟩
    · rintro r ⟨l₂, p₂⟩ he
      obtain ⟨⟨l₁, p₁⟩, ⟨hserving, hended⟩, ⟨down, htakes, hline⟩, hprogram⟩ := of_between shut_step h he
      cases hline
      cases hprogram
      cases r with
      | failed => exact htakes.elim
      | ended =>
        obtain ⟨hnil, rfl⟩ := htakes
        cases hserving with
        | reading => cases hnil
        | asking => cases hnil
        | writing => cases hnil
        | closed hreply =>
          cases hnil
          rw [List.append_nil] at hreply
          rw [hreply]
          exact hQ _ rfl rfl
      | chunk b =>
        have htaken : l₁.down = ⟨b.1 ++ down.bytes, down.ended⟩ := htakes
        -- any piece is the next one of the reply
        have hnext : Serving answer [] (got ++ b.1) ({ l₁ with down := down }, p₂) ∧
            (got ++ b.1).length ≤ (replyTo answer).length := by
          obtain ⟨bytes, ended⟩ := down
          cases hserving with
          | reading =>
            have := congrArg Stream.bytes htaken
            exact absurd (List.append_eq_nil_iff.mp this.symm).1 b.2.1
          | asking =>
            have := congrArg Stream.bytes htaken
            exact absurd (List.append_eq_nil_iff.mp this.symm).1 b.2.1
          | @writing _ _ rest hreply =>
            cases htaken
            have hwhole : got ++ b.1 ++ bytes ++ rest = replyTo answer := by
              rw [List.append_assoc got, hreply]
            refine ⟨.writing hwhole, ?_⟩
            rw [← hwhole]
            simp
          | closed hreply =>
            cases htaken
            have hwhole : got ++ b.1 ++ bytes = replyTo answer := by rw [List.append_assoc got, hreply]
            refine ⟨.closed hwhole, ?_⟩
            rw [← hwhole]
            simp
        have hfits : ¬limit < got.length + b.1.length := by
          have := hnext.2
          rw [List.length_append] at this
          omega
        dsimp only
        rw [if_neg hfits]
        exact ih b hfits ⟨hnext.1, hended⟩

end

/-! ## What the server learns -/

/-- The table of a scan that went well, or an error and no output. -/
def outcome (error : Bytes) (answer : Answer) : Scan :=
  if answer.ok then
    if heading.isPrefixOf answer.results ∧ answer.results.length ≤ 65500 then
      ⟨true, answer.results, error⟩
    else ⟨false, [], bytes "Invalid scan results"⟩
  else ⟨false, [], answer.error.take 256⟩

theorem length_errorLine : errorLine.length = 6 := by decide

theorem length_okLine : okLine.length = 3 := by decide

/-- An error is not taken for a table: the first bytes differ. -/
theorem not_ok_prefix (text : Bytes) : (okLine ++ heading).isPrefixOf (errorLine ++ text) = false := by
  rw [Bool.eq_false_iff, ne_eq, List.isPrefixOf_iff_prefix]
  rintro ⟨rest, hrest⟩
  have hok : (okLine ++ heading ++ rest).head? = some 79 := rfl
  have herror : (errorLine ++ text).head? = some 69 := rfl
  rw [hrest, herror] at hok
  exact absurd hok (by decide)

theorem understood_error (error text : Bytes) :
    understood error (errorLine ++ text) = ⟨false, [], text.take 256⟩ := by
  have hheading : errorLine.isPrefixOf (errorLine ++ text) = true := by
    rw [List.isPrefixOf_iff_prefix]
    exact List.prefix_append ..
  rw [understood, not_ok_prefix, if_neg (by decide), if_pos hheading, List.drop_left' length_errorLine]

theorem understood_table (error : Bytes) {table : Bytes} (h : heading.isPrefixOf table = true) :
    understood error (okLine ++ table) = ⟨true, table, error⟩ := by
  have hheading : (okLine ++ heading).isPrefixOf (okLine ++ table) = true := by
    rw [List.isPrefixOf_iff_prefix] at h ⊢
    exact (List.prefix_append_right_inj okLine).mpr h
  rw [understood, if_pos hheading, List.drop_left' length_okLine]

theorem understood_reply (error : Bytes) (answer : Answer) :
    understood error (replyTo answer) = outcome error answer := by
  unfold replyTo outcome
  cases hok : answer.ok with
  | false =>
    rw [Bool.false_and, if_neg (by decide), if_neg (by decide), if_neg (by decide), understood_error,
      List.take_take, Nat.min_self]
  | true =>
    rw [Bool.true_and, if_pos rfl, if_pos rfl]
    by_cases hfit : heading.isPrefixOf answer.results = true ∧ answer.results.length ≤ 65500
    · rw [if_pos hfit, if_neg (by simp [hfit.1, hfit.2]), understood_table error hfit.1]
    · have hbad : (decide (65500 < answer.results.length) || !heading.isPrefixOf answer.results) = true := by
        rw [Bool.or_eq_true, decide_eq_true_eq, Bool.not_eq_true']
        by_cases hheading : heading.isPrefixOf answer.results = true
        · exact .inl (Nat.lt_of_not_le fun hlen => hfit ⟨hheading, hlen⟩)
        · exact .inr (Bool.eq_false_iff.mpr hheading)
      rw [if_neg hfit, if_pos hbad, understood_error]
      rfl

theorem length_replyTo (answer : Answer) : (replyTo answer).length ≤ 65536 := by
  have hinvalid : (bytes "Invalid scan results").length = 20 := by decide
  unfold replyTo
  split
  · rw [List.length_append, length_errorLine, hinvalid]
    decide
  · rename_i hfit
    split
    · rename_i hok
      rw [List.length_append, length_okLine]
      simp only [hok, Bool.true_and, Bool.or_eq_true, decide_eq_true_eq, not_or] at hfit
      omega
    · rw [List.length_append, length_errorLine, List.length_take]
      omega

/-- **A scan is run for the exact request and for nothing else, and its answer arrives whole.** -/
theorem scan_ipc_exact (answer : Answer) :
    (∀ stream : Bytes, must (helperEnv answer)
      (fun _ l => l.actions = if stream = scanRequest then 1 else 0) serveWifiScan
      ⟨⟨stream, true⟩, ⟨[], false⟩, 0⟩) ∧
    ∀ path error : Bytes, validPath path = true →
      must (beside requestEnv (helperEnv answer))
        (fun scan w => scan = outcome error answer ∧ w.1.actions = 1) (requestWifiScan path error)
        (⟨⟨[], false⟩, ⟨[], false⟩, 0⟩, scanHelper) := by
  refine ⟨fun stream => must_mono (fun _ _ h => h.2.1) (serve_must stream), ?_⟩
  intro path error hpath
  have hopen : Open answer scanRequest (⟨⟨[], false⟩, ⟨[], false⟩, 0⟩, scanHelper) := by
    rw [scanHelper_eq]
    exact ⟨.reading rfl nofun, rfl⟩
  unfold requestWifiScan
  rw [if_pos hpath, must_ask_bind]
  constructor
  · exact ⟨true, _, _, .refl, ⟨rfl, rfl⟩, rfl⟩
  rintro ok ⟨l₂, p₂⟩ he
  obtain ⟨⟨l₁, p₁⟩, hopen₁, ⟨rfl, hline⟩, hprogram⟩ := of_between open_step hopen he
  cases hline
  cases hprogram
  rw [if_pos rfl, must_bind]
  refine transmit_beside hopen₁ fun w₃ hopen₃ => ?_
  rw [if_pos rfl]
  refine shutdown_beside hopen₃ fun w₄ hshut => ?_
  rw [if_pos rfl, must_bind]
  refine receive_beside hshut (length_replyTo answer) fun w₅ hactions _ => ?_
  exact ⟨understood_reply error answer, hactions⟩

theorem scan_ipc_refused : ∃ w, Runs
    (beside requestEnv (helperEnv ⟨false, [], bytes "Scan cooldown"⟩))
    (requestWifiScan (bytes "/run/encoder-wifi-scan.sock") [])
    (⟨⟨[], false⟩, ⟨[], false⟩, 0⟩, scanHelper) ⟨false, [], bytes "Scan cooldown"⟩ w := by
  have h := (scan_ipc_exact ⟨false, [], bytes "Scan cooldown"⟩).2
    (bytes "/run/encoder-wifi-scan.sock") [] (by decide)
  obtain ⟨scan, w, hrun⟩ := exists_of_must h
  have hscan := (runs_of_must h hrun).1
  rw [hscan] at hrun
  exact ⟨w, hrun⟩

end ScanIpc

end EncoderNext
