import EncoderNext.Binding
import EncoderNext.Decimal
import EncoderNext.LineFile

/-!
# The binding policy's file

A first line says whether binding is on; every client has a line of its own
after it, six parts between bars. A line with fewer parts is skipped.
-/

namespace EncoderNext.BindingPolicy

open Program

def flagText (b : Bool) : Bytes := if b then bytes "1" else bytes "0"

def readTimes (first last : Bytes) : Int × Int :=
  match stoll first, stoll last with
  | some first, some last => (first, last)
  | _, _ => (0, 0)

def readClient (allowed first last label : Bytes) : ClientBindingRecord :=
  let times := readTimes first last
  { allowed := allowed == bytes "1", firstSeenTs := times.1, lastSeenTs := times.2, label := label }

def loadLine (policy : BindingPolicy) (line : Bytes) : BindingPolicy :=
  if line = [] ∨ line.head? = some (byte '#') then policy
  else if bytes "enabled=" <+: line then { policy with enabled := line.drop 8 == bytes "1" }
  else if ¬ bytes "client|" <+: line then policy
  else
    match parts (byte '|') line with
    | _ :: id :: allowed :: first :: last :: label :: _ =>
      { policy with clients := policy.clients.insert id (readClient allowed first last label) }
    | _ => policy

def loadPolicy (text : Bytes) : BindingPolicy := (lines text).foldl loadLine {}

abbrev Entry : Type := Sigma fun _ : Bytes => ClientBindingRecord

def clientLine (e : Entry) : Bytes :=
  joined (byte '|') [bytes "client", e.1, flagText e.2.allowed, decimalInt e.2.firstSeenTs,
    decimalInt e.2.lastSeenTs, sanitizeLabel e.2.label]

/-- What `save_binding_policy` writes when it walks the clients in this order. -/
def policyText (enabled : Bool) (es : List Entry) : Bytes :=
  bytes "enabled=" ++ flagText enabled ++ [lf] ++ es.flatMap fun e => clientLine e ++ [lf]

/-! ## One line -/

theorem bar_not_mem_sanitizeLabel (label : Bytes) : byte '|' ∉ sanitizeLabel label := by
  intro h
  obtain ⟨c, -, hc⟩ := List.mem_map.mp h
  by_cases hb : c = byte '|'
  · rw [if_pos hb] at hc
    exact absurd hc (by decide)
  · rw [if_neg hb] at hc
    exact hb hc

theorem sanitizeLabel_of_clean {label : Bytes} (h : byte '|' ∉ label) :
    sanitizeLabel label = label := by
  refine (List.map_congr_left fun c hc => ?_).trans (List.map_id label)
  have hne : c ≠ byte '|' := fun he => h (he ▸ hc)
  simp [hne]

theorem lf_not_mem_sanitizeLabel {label : Bytes} (h : lf ∉ label) : lf ∉ sanitizeLabel label := by
  intro hm
  obtain ⟨c, hc, he⟩ := List.mem_map.mp hm
  by_cases hb : c = byte '|'
  · rw [if_pos hb] at he
    exact absurd he (by decide)
  · rw [if_neg hb] at he
    exact h (he ▸ hc)

theorem not_mem_flagText {c : UInt8} (hc : isNumeral c = false) (b : Bool) : c ∉ flagText b := by
  refine not_numeral hc fun d hd => ?_
  cases b
  · obtain rfl := List.mem_singleton.mp hd
    rfl
  · obtain rfl := List.mem_singleton.mp hd
    rfl

structure Storable (rec : ClientBindingRecord) : Prop where
  first : Int64Range rec.firstSeenTs
  last : Int64Range rec.lastSeenTs
  bar : byte '|' ∉ rec.label
  lf : lf ∉ rec.label

section
variable {e : Entry} (hid : byte '|' ∉ e.1) (hs : Storable e.2)

include hid in
theorem front_clean : ∀ p ∈ [bytes "client", e.1, flagText e.2.allowed, decimalInt e.2.firstSeenTs],
    byte '|' ∉ p := by
  intro p hp
  simp only [List.mem_cons, List.not_mem_nil, or_false] at hp
  rcases hp with rfl | rfl | rfl | rfl
  · decide
  · exact hid
  · exact not_mem_flagText rfl _
  · exact not_numeral rfl (decimalInt_numeral _)

theorem loadLine_client (policy : BindingPolicy) (rest : Bytes) :
    loadLine policy (bytes "client|" ++ rest) =
      match parts (byte '|') (bytes "client|" ++ rest) with
      | _ :: id :: allowed :: first :: last :: label :: _ =>
        { policy with clients := policy.clients.insert id (readClient allowed first last label) }
      | _ => policy := by
  have hhead : (bytes "client|" ++ rest).head? = some (byte 'c') := rfl
  have hne : bytes "client|" ++ rest ≠ [] := by
    intro hnil
    rw [hnil] at hhead
    cases hhead
  have hcomment : ¬ (bytes "client|" ++ rest).head? = some (byte '#') := by
    rw [hhead]
    decide
  have hflag : ¬ bytes "enabled=" <+: bytes "client|" ++ rest := by
    rintro ⟨tail, htail⟩
    have hhead' : some (byte 'e') = (bytes "client|" ++ rest).head? := congrArg List.head? htail
    rw [hhead] at hhead'
    exact absurd hhead' (by decide)
  rw [loadLine, if_neg (not_or.mpr ⟨hne, hcomment⟩), if_neg hflag,
    if_neg (not_not.mpr (List.prefix_append _ rest))]

theorem loadLine_clientLine (policy : BindingPolicy) : loadLine policy (clientLine e) =
    match parts (byte '|') (clientLine e) with
    | _ :: id :: allowed :: first :: last :: label :: _ =>
      { policy with clients := policy.clients.insert id (readClient allowed first last label) }
    | _ => policy :=
  loadLine_client policy _

include hid hs in
theorem inserts_clientLine : Inserts clients loadLine (clientLine e) e.1
    (if e.2.label = [] then none else some e.2) := by
  have hlast : byte '|' ∉ decimalInt e.2.lastSeenTs := not_numeral rfl (decimalInt_numeral _)
  by_cases hl : e.2.label = []
  · rw [if_pos hl]
    intro policy
    have hparts : parts (byte '|') (clientLine e) = [bytes "client", e.1, flagText e.2.allowed,
        decimalInt e.2.firstSeenTs, decimalInt e.2.lastSeenTs] := by
      rw [clientLine, hl]
      exact parts_joined_nil hlast (front_clean hid)
    rw [loadLine_clientLine, hparts]
  · rw [if_neg hl]
    intro policy
    have hsanitized : sanitizeLabel e.2.label = e.2.label := sanitizeLabel_of_clean hs.bar
    have hparts : parts (byte '|') (clientLine e) = [bytes "client", e.1, flagText e.2.allowed,
        decimalInt e.2.firstSeenTs, decimalInt e.2.lastSeenTs, e.2.label] := by
      rw [clientLine, hsanitized]
      refine parts_joined hs.bar hl [_, _, _, _, _] fun p hp => ?_
      rw [show [bytes "client", e.1, flagText e.2.allowed, decimalInt e.2.firstSeenTs,
        decimalInt e.2.lastSeenTs] = [bytes "client", e.1, flagText e.2.allowed,
        decimalInt e.2.firstSeenTs] ++ [decimalInt e.2.lastSeenTs] from rfl, List.mem_append] at hp
      rcases hp with hp | hp
      · exact front_clean hid p hp
      · exact List.mem_singleton.mp hp ▸ hlast
    have hread : readClient (flagText e.2.allowed) (decimalInt e.2.firstSeenTs)
        (decimalInt e.2.lastSeenTs) e.2.label = e.2 := by
      have hflag : (flagText e.2.allowed == bytes "1") = e.2.allowed := by
        cases e.2.allowed <;> rfl
      simp [readClient, readTimes, stoll_decimalInt, hs.first, hs.last, hflag]
    rw [loadLine_clientLine, hparts]
    show policy.clients.insert e.1 _ = _
    rw [hread]

theorem lf_not_mem_clientLine (hlf : lf ∉ e.1) (hlabel : lf ∉ e.2.label) : lf ∉ clientLine e := by
  refine not_mem_joined (by decide) fun p hp => ?_
  simp only [List.mem_cons, List.not_mem_nil, or_false] at hp
  rcases hp with rfl | rfl | rfl | rfl | rfl | rfl
  · decide
  · exact hlf
  · exact not_mem_flagText rfl _
  · exact not_numeral rfl (decimalInt_numeral _)
  · exact not_numeral rfl (decimalInt_numeral _)
  · exact lf_not_mem_sanitizeLabel hlabel

end

/-! ## What is kept of every client -/

def Clients (P : Bytes → ClientBindingRecord → Prop) (policy : BindingPolicy) : Prop :=
  ∀ id rec, policy.clients.lookup id = some rec → P id rec

section
variable {P : Bytes → ClientBindingRecord → Prop} {policy : BindingPolicy}

theorem clients_insert (h : Clients P policy) {id : Bytes} {rec : ClientBindingRecord}
    (hp : P id rec) : Clients P { policy with clients := policy.clients.insert id rec } := by
  intro id' rec' hl
  by_cases he : id' = id
  · subst he
    rw [AList.lookup_insert] at hl
    cases hl
    exact hp
  · rw [AList.lookup_insert_ne he] at hl
    exact h id' rec' hl

theorem loadLine_clients {line : Bytes} (h : Clients P policy)
    (hline : ∀ id allowed first last label, (∀ p ∈ [id, label], p ∈ parts (byte '|') line) →
      P id (readClient allowed first last label)) : Clients P (loadLine policy line) := by
  unfold loadLine
  split
  · exact h
  split
  · exact h
  split
  · exact h
  split
  · rename_i hparts
    exact clients_insert h (hline _ _ _ _ _ (by simp [hparts]))
  · exact h

theorem setClientAllowed_clients {W : Type} {env : Env W ServerCall ServerCall.Reply} {w : W}
    (hclock : ∀ w (t : Int) w', env w .now t w' → Int64Range t) (h : Clients P policy) {id : Bytes}
    (hset : ∀ rec, (policy.clients.lookup id = some rec ∨
        rec.label = bytes "manual" ∧ Int64Range rec.firstSeenTs ∧ Int64Range rec.lastSeenTs) →
      ∀ allowed, P id { rec with allowed := allowed }) (allowed : Bool) :
    wp env (fun policy' _ => Clients P policy') (fun _ => True) (setClientAllowed policy id allowed) w := by
  unfold setClientAllowed
  dsimp only
  by_cases hzero : ((policy.clients.lookup id).getD {}).firstSeenTs = 0
  · rw [if_pos hzero]
    refine ⟨trivial, fun (now : Int) w₁ hnow => ⟨trivial, fun _ w₂ _ => ⟨trivial, ?_⟩⟩⟩
    have hrange := hclock _ _ _ hnow
    exact clients_insert h (hset _ (.inr ⟨rfl, hrange, hrange⟩) allowed)
  · rw [if_neg hzero]
    refine ⟨trivial, fun _ w₂ _ => ⟨trivial, ?_⟩⟩
    cases hl : policy.clients.lookup id with
    | none =>
      rw [hl] at hzero
      exact absurd rfl hzero
    | some rec => exact clients_insert h (hset rec (.inl hl) allowed)

theorem op_clients {W : Type} {env : Env W ServerCall ServerCall.Reply} {w : W}
    (hclock : ∀ w (t : Int) w', env w .now t w' → Int64Range t) (h : Clients P policy) {op : Op}
    (hregister : ∀ req now, op = .register req → Int64Range now → ∀ rec,
      (policy.registered (clientIdOf req) (clientHostOf req) now).clients.lookup (clientIdOf req) =
        some rec → P (clientIdOf req) rec)
    (hset : ∀ req, op = .adminSetClientAllowed req → ∀ rec,
      (policy.clients.lookup (req.get (bytes "client_id")) = some rec ∨
        rec.label = bytes "manual" ∧ Int64Range rec.firstSeenTs ∧ Int64Range rec.lastSeenTs) →
      ∀ allowed, P (req.get (bytes "client_id")) { rec with allowed := allowed }) :
    wp env (fun policy' _ => Clients P policy') (fun _ => True) (op.run policy) w := by
  cases op with
  | register req =>
    refine ⟨trivial, fun (now : Int) w₁ hnow => ⟨trivial, fun _ w₂ _ => ⟨trivial, ?_⟩⟩⟩
    have hrec := hregister req now rfl (hclock _ _ _ hnow)
    unfold registered at hrec ⊢
    exact clients_insert h (hrec _ (AList.lookup_insert _))
  | adminSetBinding req => exact ⟨trivial, fun _ _ _ => ⟨trivial, h⟩⟩
  | adminSetClientAllowed req =>
    by_cases hid : req.get (bytes "client_id") = []
    · rw [Op.run, if_pos hid]
      exact ⟨trivial, h⟩
    · rw [Op.run, if_neg hid]
      exact setClientAllowed_clients hclock h (hset req rfl) _

end

/-! ## Runs -/

def Kept (id : Bytes) (rec : ClientBindingRecord) : Prop := lf ∉ id ∧ Storable rec

def Plain (id : Bytes) (rec : ClientBindingRecord) : Prop := byte '|' ∉ id ∧ rec.label ≠ []

def PlainOp : Op → Prop
  | .register req => byte '|' ∉ clientIdOf req ∧ clientHostOf req ≠ []
  | .adminSetBinding _ => True
  | .adminSetClientAllowed req => byte '|' ∉ req.get (bytes "client_id")

/-- The policies of a server from one that was loaded, and the requests that led
there. Binding may be turned on at the start. -/
inductive Served : BindingPolicy → BindingPolicy → List Op → Prop where
  | start (text : Bytes) : Served (loadPolicy text) (loadPolicy text) []
  | startEnabled (text : Bytes) :
      Served (loadPolicy text) { loadPolicy text with enabled := true } []
  | step {first policy policy' : BindingPolicy} {ops : List Op} (op : Op) {W : Type}
      {env : Env W ServerCall ServerCall.Reply} {w w' : W} : Served first policy ops →
      (∃ raw, op.request = Header.parse raw) →
      (∀ w (t : Int) w', env w .now t w' → Int64Range t) →
      Runs env (op.run policy) w policy' w' → Served first policy' (ops ++ [op])

theorem readTimes_range (first last : Bytes) :
    Int64Range (readTimes first last).1 ∧ Int64Range (readTimes first last).2 := by
  have hrange : ∀ {s : Bytes} {n : Int}, stoll s = some n → Int64Range n := by
    intro s n h
    unfold stoll at h
    simp only [Option.ite_none_left_eq_some, Option.ite_none_right_eq_some, Option.some.injEq] at h
    obtain ⟨-, h, rfl⟩ := h
    exact h
  have hzero : Int64Range 0 := by decide
  unfold readTimes
  cases hf : stoll first with
  | none => exact ⟨hzero, hzero⟩
  | some n =>
    cases hl : stoll last with
    | none => exact ⟨hzero, hzero⟩
    | some m => exact ⟨hrange hf, hrange hl⟩

theorem kept_loaded (text : Bytes) : Clients Kept (loadPolicy text) := by
  refine List.foldlRecOn (motive := Clients Kept) (lines text) loadLine ?_ fun policy h line hl => ?_
  · intro id rec hlookup
    simp at hlookup
  · refine loadLine_clients h fun id allowed first last label hp => ?_
    have hlf : ∀ p ∈ [id, label], lf ∉ p := fun p hm hc =>
      lf_not_mem_lines line hl (mem_of_mem_parts (hp p hm) hc)
    obtain ⟨hfirst, hlast⟩ := readTimes_range first last
    exact ⟨hlf id (by simp), hfirst, hlast, not_mem_parts _ (hp label (by simp)), hlf label (by simp)⟩

theorem bar_not_mem_loaded (text : Bytes) : Clients (fun id _ => byte '|' ∉ id) (loadPolicy text) := by
  refine List.foldlRecOn (motive := Clients fun id _ => byte '|' ∉ id) (lines text) loadLine ?_
    fun policy h line hl => ?_
  · intro id rec hlookup
    simp at hlookup
  · exact loadLine_clients h fun id allowed first last label hp =>
      not_mem_parts _ (hp id (by simp))

theorem lookup_registered {policy : BindingPolicy} {id host : Bytes} {now : Int}
    {rec : ClientBindingRecord} (h : (policy.registered id host now).clients.lookup id = some rec) :
    rec.lastSeenTs = now ∧
    ((rec.firstSeenTs = now ∧ rec.label = sanitizeLabel host) ∨
      ∃ found, policy.clients.lookup id = some found ∧ rec.firstSeenTs = found.firstSeenTs ∧
        rec.label = if host = [] then found.label else sanitizeLabel host) := by
  unfold registered at h
  rw [AList.lookup_insert] at h
  cases h
  cases hl : policy.clients.lookup id with
  | none => exact ⟨rfl, .inl ⟨rfl, rfl⟩⟩
  | some found => exact ⟨rfl, .inr ⟨found, rfl, rfl, rfl⟩⟩

section
variable {first policy : BindingPolicy} {ops : List Op}

theorem kept_served (h : Served first policy ops) : Clients Kept policy := by
  induction h with
  | start text | startEnabled text => exact kept_loaded text
  | step op _ hreq hclock hr ih =>
    obtain ⟨raw, hraw⟩ := hreq
    refine runs_of_wp (Q := fun p _ => Clients Kept p) (op_clients hclock ih ?_ ?_) hr
    · rintro req now rfl hnow rec hrec
      -- a value of a request stands on one line
      have hid : lf ∉ clientIdOf req := by
        unfold clientIdOf
        obtain rfl : req = Header.parse raw := hraw
        split
        · decide
        · exact lf_not_mem_get raw _ _ (by simp)
      have hhost : lf ∉ clientHostOf req := by
        obtain rfl : req = Header.parse raw := hraw
        exact lf_not_mem_get raw _ _ (by decide)
      obtain ⟨hlast, ⟨hfirst, hlabel⟩ | ⟨found, hfound, hfirst, hlabel⟩⟩ := lookup_registered hrec
      · refine ⟨hid, hfirst ▸ hnow, hlast ▸ hnow, ?_, ?_⟩
        · exact hlabel ▸ bar_not_mem_sanitizeLabel _
        · exact hlabel ▸ lf_not_mem_sanitizeLabel hhost
      · obtain ⟨-, hkept⟩ := ih _ _ hfound
        refine ⟨hid, hfirst ▸ hkept.first, hlast ▸ hnow, ?_, ?_⟩
        · rw [hlabel]
          split
          · exact hkept.bar
          · exact bar_not_mem_sanitizeLabel _
        · rw [hlabel]
          split
          · exact hkept.lf
          · exact lf_not_mem_sanitizeLabel hhost
    · rintro req rfl rec hrec allowed
      have hid : lf ∉ req.get (bytes "client_id") := by
        obtain rfl : req = Header.parse raw := hraw
        exact lf_not_mem_get raw _ _ (by simp)
      rcases hrec with hfound | ⟨hlabel, hfirst, hlast⟩
      · obtain ⟨-, hkept⟩ := ih _ _ hfound
        exact ⟨hid, hkept.first, hkept.last, hkept.bar, hkept.lf⟩
      · refine ⟨hid, hfirst, hlast, ?_, ?_⟩
        · show byte '|' ∉ rec.label
          rw [hlabel]
          decide
        · show lf ∉ rec.label
          rw [hlabel]
          decide

theorem plain_served (h : Served first policy ops) (hfirst : Clients Plain first)
    (hops : ∀ op ∈ ops, PlainOp op) : Clients Plain policy := by
  induction h with
  | start text | startEnabled text => exact hfirst
  | step op _ _ hclock hr ih =>
    have ih := ih hfirst fun op' hop' => hops op' (by simp [hop'])
    have hop := hops op (by simp)
    refine runs_of_wp (Q := fun p _ => Clients Plain p) (op_clients hclock ih ?_ ?_) hr
    · rintro req now rfl hnow rec hrec
      obtain ⟨hid, hhost⟩ := hop
      have hlabel : sanitizeLabel (clientHostOf req) ≠ [] := by
        simpa [sanitizeLabel] using hhost
      obtain ⟨-, ⟨-, hrec⟩ | ⟨found, -, -, hrec⟩⟩ := lookup_registered hrec
      · exact ⟨hid, hrec ▸ hlabel⟩
      · exact ⟨hid, by rw [hrec, if_neg hhost]; exact hlabel⟩
    · rintro req rfl rec hrec allowed
      rcases hrec with hfound | ⟨hlabel, -, -⟩
      · exact ⟨hop, (ih _ _ hfound).2⟩
      · refine ⟨hop, ?_⟩
        show rec.label ≠ []
        rw [hlabel]
        decide

end

/-! ## The restart -/

def SamePolicy (p q : BindingPolicy) : Prop :=
  p.enabled = q.enabled ∧ ∀ id, p.clients.lookup id = q.clients.lookup id

theorem loadPolicy_policyText (enabled : Bool) (es : List Entry) :
    loadPolicy (policyText enabled es) =
      (lines (es.flatMap fun e => clientLine e ++ [lf])).foldl loadLine { enabled := enabled } := by
  have hlf : lf ∉ bytes "enabled=" ++ flagText enabled := by cases enabled <;> decide
  have hfirst : loadLine {} (bytes "enabled=" ++ flagText enabled) = { enabled := enabled } := by
    cases enabled <;> rfl
  rw [loadPolicy, policyText, List.append_assoc, List.singleton_append, Header.lines_append_lf hlf,
    List.foldl_cons, hfirst]

section
variable {policy : BindingPolicy} {es : List Entry} (hp : es.Perm policy.clients.entries)
  (hk : Clients Kept policy)
include hp hk

theorem lf_not_mem_text : ∀ e ∈ es, lf ∉ clientLine e := by
  intro e he
  have hkept := hk e.1 e.2 (List.mem_dlookup policy.clients.nodupKeys (hp.mem_iff.mp he))
  exact lf_not_mem_clientLine hkept.1 hkept.2.lf

theorem enabled_loaded (enabled : Bool) :
    (loadPolicy (policyText enabled es)).enabled = enabled := by
  have hlines : lines (es.flatMap fun e => clientLine e ++ [lf]) = es.map clientLine := by
    rw [← List.flatMap_map clientLine fun l => l ++ [lf]]
    refine lines_flatMap fun l hl => ?_
    obtain ⟨e, he, rfl⟩ := List.mem_map.mp hl
    exact lf_not_mem_text hp hk e he
  rw [loadPolicy_policyText, hlines]
  refine List.foldlRecOn (motive := fun p : BindingPolicy => p.enabled = enabled) _ loadLine rfl ?_
  intro p hp l hl
  obtain ⟨e, he, rfl⟩ := List.mem_map.mp hl
  rw [loadLine_clientLine]
  split
  · exact hp
  · exact hp

/-- Clients without a label are lost. -/
theorem lookup_loaded (hbar : Clients (fun id _ => byte '|' ∉ id) policy) (enabled : Bool)
    (id : Bytes) : (loadPolicy (policyText enabled es)).clients.lookup id =
      (policy.clients.lookup id).bind fun rec => if rec.label = [] then none else some rec := by
  rw [loadPolicy_policyText]
  refine lookup_read_lines clients hp (lf_not_mem_text hp hk) (fun e he => ?_) rfl id
  have hmem := List.mem_dlookup policy.clients.nodupKeys (hp.mem_iff.mp he)
  exact inserts_clientLine (hbar _ _ hmem) (hk _ _ hmem).2

end

/-- **When the policy survives a restart.** The policy that any run leaves is
loaded as it was saved exactly when no client's name holds a bar and none has an
empty label; and that is so in a run whose requests name neither. -/
theorem policy_survives_iff {first policy : BindingPolicy} {ops : List Op}
    (h : Served first policy ops) {es : List Entry} (hp : es.Perm policy.clients.entries) :
    (SamePolicy (loadPolicy (policyText policy.enabled es)) policy ↔ Clients Plain policy) ∧
    (Clients Plain first → (∀ op ∈ ops, PlainOp op) →
      SamePolicy (loadPolicy (policyText policy.enabled es)) policy) := by
  have hk := kept_served h
  have hiff : SamePolicy (loadPolicy (policyText policy.enabled es)) policy ↔
      Clients Plain policy := by
    constructor
    · rintro ⟨-, hsame⟩
      have hbar : Clients (fun id _ => byte '|' ∉ id) policy := fun id rec hl =>
        bar_not_mem_loaded _ id rec ((hsame id).trans hl)
      intro id rec hl
      refine ⟨hbar id rec hl, fun hlabel => ?_⟩
      have hid := hsame id
      rw [lookup_loaded hp hk hbar, hl, Option.bind_some, if_pos hlabel] at hid
      cases hid
    · intro hplain
      refine ⟨enabled_loaded hp hk _, fun id => ?_⟩
      rw [lookup_loaded hp hk fun id rec hl => (hplain id rec hl).1]
      cases hl : policy.clients.lookup id with
      | none => rfl
      | some rec => rw [Option.bind_some, if_neg (hplain id rec hl).2]
  exact ⟨hiff, fun hfirst hops => hiff.mpr (plain_served h hfirst hops)⟩

/-! ## A client id with bars -/

def answer (c : ServerCall) : c.Reply := c.plain 1000000

def afterRequest (raw : Bytes) : BindingPolicy × Unit :=
  exec (fun (_ : Unit) c => (answer c, ())) (Op.run { loadPolicy [] with enabled := true }
    (.register (Header.parse raw))) ()

def onceEnv : Env Unit ServerCall ServerCall.Reply := fun _ c r _ => r = answer c

theorem served_afterRequest (raw : Bytes) :
    Served (loadPolicy []) (afterRequest raw).1 [.register (Header.parse raw)] := by
  have hruns : Runs onceEnv ((Op.register (Header.parse raw)).run _) () (afterRequest raw).1 () :=
    runs_exec (fun _ _ => rfl) _ ()
  refine .step _ (.startEnabled []) ⟨raw, rfl⟩ (fun w t w' ht => ?_) hruns
  obtain rfl : t = 1000000 := ht
  decide

def plainRequest : Bytes := bytes "client_id: office-pc\nclient_host: desk\n"

theorem policy_survives_plainRequest :
    SamePolicy (loadPolicy (policyText (afterRequest plainRequest).1.enabled
      (afterRequest plainRequest).1.clients.entries)) (afterRequest plainRequest).1 :=
  (policy_survives_iff (served_afterRequest plainRequest) (List.Perm.refl _)).2
    (fun id rec h => by simp [loadPolicy, lines] at h)
    (by simp only [List.mem_singleton, forall_eq, PlainOp]; decide)

/-- An id that reads as the line of an allowed client. -/
def craftedRequest : Bytes := bytes "client_id: intruder|1|0|0|x\nclient_host: desk\n"

/-- Before the restart binding refuses the client `intruder`, and after it lets it in. -/
theorem craftedRequest_admits : ∃ (policy : BindingPolicy) (ops : List Op),
    Served (loadPolicy []) policy ops ∧ policy.isClientAllowed (bytes "intruder") = false ∧
      ¬ SamePolicy (loadPolicy (policyText policy.enabled policy.clients.entries)) policy ∧
      (loadPolicy (policyText policy.enabled policy.clients.entries)).isClientAllowed
        (bytes "intruder") = true := by
  refine ⟨_, _, served_afterRequest craftedRequest, by decide, fun hsame => ?_,
    by decide⟩
  have hintruder := hsame.2 (bytes "intruder")
  revert hintruder
  decide

end EncoderNext.BindingPolicy
