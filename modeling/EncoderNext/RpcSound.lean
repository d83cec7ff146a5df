import EncoderNext.Log
import EncoderNext.WifiRpc

/-!
# Every run of the Wi-Fi helper

Packets and ticks in any order, against backends, a factory and a random
generator that answer anything. The log tells whose ticket is current and which
start was stopped before it touched anything; the invariant says that the
session agrees with the log.
-/

namespace EncoderNext

open Program

namespace WifiRpc

/-- What the log of the helper holds; an answer stands with the state of the
session after it. -/
inductive Event where
  | packet (p : Bytes)
  | tick
  | call (c : WifiCall) (r : c.Reply)
  | answer (a : Bytes) (state : Option WifiChangeState)

abbrev record : Env (List Event) WifiCall WifiCall.Reply := Program.recording Event.call

abbrev Run := WifiRpc × List Event

def sessionState (rpc : WifiRpc) : Option WifiChangeState := rpc.session.map (·.change.state)

inductive Step (kdf : Pbkdf2) : Run → Run → Prop where
  | packet {rpc rpc' : WifiRpc} {tr tr' : List Event} {p a : Bytes} :
      Runs record (rpc.handle kdf p) (tr ++ [.packet p]) (a, rpc') tr' →
      Step kdf (rpc, tr) (rpc', tr' ++ [.answer a rpc'.sessionState])
  | tick {rpc rpc' : WifiRpc} {tr tr' : List Event} :
      Runs record rpc.tick (tr ++ [.tick]) rpc' tr' → Step kdf (rpc, tr) (rpc', tr')

def Reach (kdf : Pbkdf2) : Run → Prop := Relation.ReflTransGen (Step kdf) ({}, [])

/-! ## What the log says -/

def opens (a : Bytes) : Option Bytes :=
  if connecting <+: a then some (a.drop connecting.length) else none

def opened : Event → Option Bytes
  | .answer a _ => opens a
  | _ => none

def drawn : Event → Option Bytes
  | .call .random (some d) => some (toHex d.toList)
  | _ => none

def tickets (tr : List Event) : List Bytes := tr.filterMap opened

def draws (tr : List Event) : List Bytes := tr.filterMap drawn

def isFactory : Event → Bool
  | .call .factory _ => true
  | _ => false

/-- The ticket that opened the current session: that of the last answer to a
start, unless a backend was created since. -/
def currentStep (now : Option Bytes) (e : Event) : Option Bytes :=
  if isFactory e then none else (opened e).or now

def current (tr : List Event) : Option Bytes := tr.foldl currentStep none

def sinceStep (l : Option (List Event)) (e : Event) : Option (List Event) :=
  if isFactory e then some [] else l.map (· ++ [e])

def since (tr : List Event) : Option (List Event) := tr.foldl sinceStep none

/-- A start that was stopped before it touched anything: no Ethernet, or no ticket. -/
def stopped : List Event → Bool
  | .call .now _ :: .call .ethernetRecoveryAvailable false :: _ => true
  | .call .now _ :: .call .ethernetRecoveryAvailable true :: .call .random none :: _ => true
  | _ => false

def Stuck (tr : List Event) : Prop := (since tr).any stopped = true

def undone : List Event → Bool
  | .call .now _ :: .call .ethernetRecoveryAvailable _ :: .call .random _ ::
      .call (.prepare ..) false :: .call .rollback true :: _ => true
  | .call .now _ :: .call .ethernetRecoveryAvailable _ :: .call .random _ ::
      .call (.prepare ..) true :: .call .activate false :: .call .rollback true :: _ => true
  | _ => false

def harmless : List Event → Bool
  | .call .factory _ :: l => stopped l || undone l
  | _ => false

def named (a : Bytes) : Option WifiChangeState :=
  if (opens a).isSome then some .connecting
  else [.connecting, .awaitingConfirmation, .committed, .rolledBack, .recoveryRequired].find?
    fun st => stateName st = a

def Names (a : Bytes) (state : Option WifiChangeState) : Prop :=
  ∀ st, named a = some st → state = some st

def ticketPacket (verb ticket : Bytes) : Bytes := verb ++ byte '|' :: ticket

def startPacket (ssidHex pskHex : Bytes) : Bytes :=
  bytes "start" ++ byte '|' :: (ssidHex ++ byte '|' :: pskHex)

def Handling (tr before : List Event) (p : Bytes) (calls : List Event) : Prop :=
  tr = before ++ .packet p :: calls ∧ ∀ e ∈ calls, ∃ c r, e = .call c r

/-- A commit stands in the handling of a confirmation that carries the current
ticket, and an answer names the session's state unless a start has failed and
left nothing to recover. -/
def Justified (pre : List Event) : Event → Prop
  | .call .commit _ => ∃ before ticket calls,
      Handling pre before (ticketPacket (bytes "confirm") ticket) calls ∧
      current before = some ticket
  | .answer a state => ∀ before p calls, Handling pre before p calls →
      (Names a state ↔ harmless calls = false)
  | _ => True

abbrev Lawful (tr : List Event) : Prop := Program.Lawful Justified tr

/-! ## Entries that change no session -/

def Quiet (more : List Event) : Prop := ∀ e ∈ more, isFactory e = false ∧ opened e = none

theorem quiet_append {l l' : List Event} (h : Quiet l) (h' : Quiet l') : Quiet (l ++ l') :=
  fun e he => (List.mem_append.mp he).elim (h e) (h' e)

theorem quiet_packet (p : Bytes) : Quiet [.packet p] := by simp [Quiet, isFactory, opened]

theorem quiet_answer {a : Bytes} (h : opens a = none) (st : Option WifiChangeState) :
    Quiet [.answer a st] := by
  simp [Quiet, isFactory, opened, h]

theorem current_quiet {more : List Event} (h : Quiet more) (tr : List Event) :
    current (tr ++ more) = current tr := by
  induction more generalizing tr with
  | nil => simp
  | cons e more ih =>
    obtain ⟨he, ho⟩ := h e (by simp)
    have hrest : Quiet more := fun e' hm => h e' (by simp [hm])
    rw [List.append_cons, ih hrest]
    simp [current, currentStep, he, ho]

theorem since_quiet {more : List Event} (h : Quiet more) (tr : List Event) :
    since (tr ++ more) = (since tr).map (· ++ more) := by
  induction more generalizing tr with
  | nil => simp
  | cons e more ih =>
    obtain ⟨he, -⟩ := h e (by simp)
    have hrest : Quiet more := fun e' hm => h e' (by simp [hm])
    have hone : since (tr ++ [e]) = (since tr).map (· ++ [e]) := by simp [since, sinceStep, he]
    rw [List.append_cons, ih hrest, hone, Option.map_map]
    congr 1
    funext l
    simp

theorem tickets_quiet {more : List Event} (h : Quiet more) (tr : List Event) :
    tickets (tr ++ more) = tickets tr := by
  have : more.filterMap opened = [] := List.filterMap_eq_nil_iff.mpr fun e he => (h e he).2
  simp [tickets, this]

theorem draws_append (tr more : List Event) : draws (tr ++ more) = draws tr ++ draws more :=
  List.filterMap_append

theorem quiet_grows {P : WifiCall → Prop} (hP : ∀ c, P c → c ≠ .factory) {tr tr' : List Event}
    (h : Grows Event.call P tr tr') : ∃ more, tr' = tr ++ more ∧ Quiet more := by
  obtain ⟨more, htr, he⟩ := grows_append h
  refine ⟨more, htr, fun e hm => ?_⟩
  obtain ⟨c, r, rfl, hc⟩ := he e hm
  refine ⟨?_, rfl⟩
  have := hP c hc
  cases c <;> first | rfl | exact absurd rfl this

theorem justified_call {pre : List Event} {c : WifiCall} (hc : c ≠ .commit) (r : c.Reply) :
    Justified pre (.call c r) := by
  cases c <;> trivial

theorem handling_unique {tr before before' calls calls' : List Event} {p p' : Bytes}
    (h : Handling tr before p calls) (h' : Handling tr before' p' calls') :
    before' = before ∧ p' = p ∧ calls' = calls := by
  have key : ∀ {l l' b b' : List Event} {q q' : Bytes}, (∀ e ∈ l, ∃ c r, e = .call c r) →
      (∀ e ∈ l', ∃ c r, e = .call c r) → l ++ .packet q :: b = l' ++ .packet q' :: b' →
      l' = l ∧ q' = q ∧ b' = b := by
    intro l
    induction l with
    | nil =>
      intro l' b b' q q' _ hl' heq
      cases l' with
      | nil =>
        simp only [List.nil_append, List.cons.injEq, Event.packet.injEq] at heq
        exact ⟨rfl, heq.1.symm, heq.2.symm⟩
      | cons e l' =>
        obtain ⟨c, r, rfl⟩ := hl' e (by simp)
        simp at heq
    | cons e l ih =>
      intro l' b b' q q' hl hl' heq
      obtain ⟨c, r, rfl⟩ := hl e (by simp)
      cases l' with
      | nil => simp at heq
      | cons e' l' =>
        simp only [List.cons_append, List.cons.injEq] at heq
        obtain ⟨rfl, heq⟩ := heq
        obtain ⟨rfl, rfl, rfl⟩ := ih (fun e he => hl e (by simp [he]))
          (fun e he => hl' e (by simp [he])) heq
        exact ⟨rfl, rfl, rfl⟩
  obtain ⟨htr, hc⟩ := h
  obtain ⟨htr', hc'⟩ := h'
  have heq := congrArg List.reverse (htr.symm.trans htr')
  simp only [List.reverse_append, List.reverse_cons, List.append_assoc, List.singleton_append] at heq
  obtain ⟨h₁, h₂, h₃⟩ := key (fun e he => hc e (List.mem_reverse.mp he))
    (fun e he => hc' e (List.mem_reverse.mp he)) heq
  exact ⟨List.reverse_injective h₃, h₂, List.reverse_injective h₁⟩

/-! ## A fresh session's start -/

inductive Outcome (p : WifiProfile) : List Event → Option Bytes → WifiSession → Prop where
  | noEthernet (t : Int) (s : WifiSession) : s.ticket = [] → s.change.state = .idle →
      Outcome p [.call .now t, .call .ethernetRecoveryAvailable false] none s
  | noTicket (t : Int) (s : WifiSession) : s.ticket = [] → s.change.state = .idle →
      Outcome p [.call .now t, .call .ethernetRecoveryAvailable true, .call .random none] none s
  | notPrepared (t : Int) (d : Vector UInt8 32) (r : Bool) (s : WifiSession) : s.ticket = [] →
      s.change.state = (if r then .rolledBack else .recoveryRequired) →
      Outcome p [.call .now t, .call .ethernetRecoveryAvailable true, .call .random (some d),
        .call (.prepare p 90) false, .call .rollback r] none s
  | notActivated (t : Int) (d : Vector UInt8 32) (r : Bool) (s : WifiSession) : s.ticket = [] →
      s.change.state = (if r then .rolledBack else .recoveryRequired) →
      Outcome p [.call .now t, .call .ethernetRecoveryAvailable true, .call .random (some d),
        .call (.prepare p 90) true, .call .activate false, .call .rollback r] none s
  | opened (t : Int) (d : Vector UInt8 32) (s : WifiSession) : s.ticket = toHex d.toList →
      s.change.state = .connecting →
      Outcome p [.call .now t, .call .ethernetRecoveryAvailable true, .call .random (some d),
        .call (.prepare p 90) true, .call .activate true] (some (toHex d.toList)) s

theorem start_outcome {p : WifiProfile} (hp : p.psk.length = 32 ∧ p.ssidHex ≠ [])
    (tr : List Event) :
    wp record (fun r tr' => ∃ seg, tr' = tr ++ seg ∧ Outcome p seg r.1 r.2) (fun _ => True)
      (({} : WifiSession).start p) tr := by
  have hvalid : ¬ (p.psk.length ≠ 32 ∨ p.ssidHex = []) := by simp [hp]
  have hfresh : ¬ (({} : WifiSession).change.state ≠ .idle ∨ ({} : WifiSession).ticket ≠ []) := by
    simp
  simp only [WifiSession.start, WifiChange.start, WifiChange.prepareAndActivate, WifiChange.revert,
    if_neg hfresh, if_neg hvalid, wp_ask_bind]
  refine ⟨trivial, ?_⟩
  rintro t _ rfl
  rw [wp_bind]
  simp only [ne_eq, not_true_eq_false, if_false, wp_ask_bind]
  refine ⟨trivial, ?_⟩
  rintro ethernet _ rfl
  cases ethernet with
  | false =>
    refine ⟨trivial, trivial, _, ?_, .noEthernet t _ rfl rfl⟩
    simp
  | true =>
    simp only [Bool.not_true, Bool.false_eq_true, if_false, wp_ask_bind]
    refine ⟨trivial, ?_⟩
    rintro drawn _ rfl
    cases drawn with
    | none =>
      refine ⟨trivial, trivial, _, ?_, .noTicket t _ rfl rfl⟩
      simp
    | some d =>
      simp only [wp_ask_bind]
      refine ⟨trivial, ?_⟩
      rintro prepared _ rfl
      cases prepared with
      | false =>
        simp only [Bool.not_false, if_true, bind_assoc, wp_ask_bind]
        refine ⟨trivial, ?_⟩
        rintro restored _ rfl
        refine ⟨trivial, trivial, _, ?_, .notPrepared t d restored _ rfl rfl⟩
        simp
      | true =>
        simp only [Bool.not_true, Bool.false_eq_true, if_false, wp_ask_bind]
        refine ⟨trivial, ?_⟩
        rintro activated _ rfl
        cases activated with
        | false =>
          simp only [Bool.not_false, if_true, bind_assoc, wp_ask_bind]
          refine ⟨trivial, ?_⟩
          rintro restored _ rfl
          refine ⟨trivial, trivial, _, ?_, .notActivated t d restored _ rfl rfl⟩
          simp
        | true =>
          -- 32 random bytes are 64 digits
          have htake : (toHex d.toList).take 64 = toHex d.toList :=
            List.take_of_length_le (by simp)
          refine ⟨trivial, trivial,
            [.call .now t, .call .ethernetRecoveryAvailable true, .call .random (some d),
              .call (.prepare p 90) true, .call .activate true], ?_, ?_⟩
          · simp
          · simp only [List.nil_append, htake]
            exact .opened t d _ rfl rfl

theorem outcome_calls {p : WifiProfile} {seg : List Event} {ticket : Option Bytes}
    {s : WifiSession} (h : Outcome p seg ticket s) :
    ∀ e ∈ seg, ∃ c r, e = .call c r ∧ c ≠ .factory ∧ c ≠ .commit := by
  cases h <;> simp

theorem outcome_stopped {p : WifiProfile} {seg : List Event} {ticket : Option Bytes}
    {s : WifiSession} (h : Outcome p seg ticket s) (more : List Event) :
    stopped (seg ++ more) = (s.change.state == .idle) := by
  cases h with
  | notPrepared t d r _ _ hs => cases r <;> simp [stopped, hs]
  | notActivated t d r _ _ hs => cases r <;> simp [stopped, hs]
  | _ => simp [stopped, *]

/-! ## What handling a packet does -/

def holder (s : WifiSession) : Option Bytes := if s.ticket = [] then none else some s.ticket

theorem outcome_holder {p : WifiProfile} {seg : List Event} {ticket : Option Bytes}
    {s : WifiSession} (h : Outcome p seg ticket s) : holder s = ticket := by
  cases h with
  | opened t d _ ht _ =>
    have hne : toHex d.toList ≠ [] := fun he => by simpa using congrArg List.length he
    simp [holder, ht, hne]
  | _ => simp [holder, *]

def Kept (s s' : WifiSession) : Prop :=
  s'.ticket = s.ticket ∧ (s'.change.state = .idle ↔ s.change.state = .idle)

inductive Started (p : WifiProfile) : List Event → Bytes → WifiRpc → Prop where
  | noBackend : Started p [.call .factory false] rejected {}
  | failed {seg : List Event} {s : WifiSession} : Outcome p seg none s →
      Started p (.call .factory true :: seg) recoveryRequired ⟨true, some s⟩
  | opened {seg : List Event} {ticket : Bytes} {s : WifiSession} : Outcome p seg (some ticket) s →
      Started p (.call .factory true :: seg) (connecting ++ ticket) ⟨true, some s⟩

/-- What handling a packet may log, answer and leave, by the packet's fields. -/
inductive Handled (kdf : Pbkdf2) (rpc : WifiRpc) (p : Bytes) : List Event → Bytes → WifiRpc → Prop where
  | malformed : Handled kdf rpc p [] error rpc
  | refused {ssidHex pskHex : Bytes} : p.splitOn (byte '|') = [bytes "start", ssidHex, pskHex] →
      (hex ssidHex 2 64 = true → hex pskHex 64 64 = true →
        (∃ profile, WifiProfile.make kdf (decodeHex ssidHex) pskHex = .ok profile) →
        ∃ s, rpc.session = some s ∧ s.finished = false) →
      Handled kdf rpc p [] rejected rpc
  | started {ssidHex pskHex : Bytes} {profile : WifiProfile} {seg : List Event} {a : Bytes}
      {rpc' : WifiRpc} : p.splitOn (byte '|') = [bytes "start", ssidHex, pskHex] →
      hex ssidHex 2 64 = true → hex pskHex 64 64 = true → Started profile seg a rpc' →
      Handled kdf rpc p seg a rpc'
  | ticketed {verb : Bytes} {s s' : WifiSession} {seg : List Event} {a : Bytes} :
      p.splitOn (byte '|') = [verb, s.ticket] →
      verb ∈ [bytes "status", bytes "confirm", bytes "cancel"] →
      rpc.session = some s → s.ticket.length = 64 → Kept s s' →
      (a = error ∨ a = stateName s'.change.state) →
      (∀ e ∈ seg, ∃ c r, e = .call c r ∧ c ≠ .factory ∧ (c = .commit → verb = bytes "confirm")) →
      Handled kdf rpc p seg a { rpc with session := some s' }

section
variable {C : Type} {env : Env C WifiCall WifiCall.Reply} {w : C}

theorem revert_idle (ch : WifiChange) (reason : String) :
    wp env (fun ch' _ => ch'.state ≠ .idle) (fun _ => True) (ch.revert reason) w := by
  unfold WifiChange.revert
  rw [wp_ask_bind]
  refine ⟨trivial, fun restored _ _ => ⟨trivial, ?_⟩⟩
  cases restored <;> simp

theorem tick_idle (ch : WifiChange) (now : Int) :
    wp env (fun ch' _ => ch'.state = .idle ↔ ch.state = .idle) (fun _ => True) (ch.tick now) w := by
  unfold WifiChange.tick
  split
  · exact ⟨trivial, Iff.rfl⟩
  rename_i hp
  have hi : ch.state ≠ .idle := by
    intro hs
    simp [WifiChange.pending, hs] at hp
  have ended : ∀ (reason : String) (w : C), wp env (fun ch' _ => ch'.state = .idle ↔ ch.state = .idle)
      (fun _ => True) (ch.revert reason) w :=
    fun reason w => wp_post (revert_idle ch reason) fun _ _ _ h => iff_of_false h hi
  split
  · exact ended _ _
  rw [wp_ask_bind]
  refine ⟨trivial, fun ethernet w₁ _ => ?_⟩
  split
  · exact ended _ _
  rw [wp_ask_bind]
  refine ⟨trivial, fun link w₂ _ => ?_⟩
  cases link with
  | failed => exact ended _ _
  | pending => exact ⟨trivial, by simp [hi]⟩
  | ready => exact ⟨trivial, by simp [hi]⟩

theorem cancel_idle (ch : WifiChange) :
    wp env (fun ch' _ => ch'.state = .idle ↔ ch.state = .idle) (fun _ => True) ch.cancel w := by
  unfold WifiChange.cancel
  split
  · rename_i hp
    have hi : ch.state ≠ .idle := by
      intro hs
      simp [WifiChange.pending, hs] at hp
    exact wp_post (revert_idle ch _) fun _ _ _ h => iff_of_false h hi
  · exact ⟨trivial, Iff.rfl⟩

theorem confirm_idle (ch : WifiChange) (ticket : Bytes) (now : Int) :
    wp env (fun r _ => r.2.state = .idle ↔ ch.state = .idle) (fun _ => True)
      (ch.confirm ticket now) w := by
  unfold WifiChange.confirm
  rw [wp_bind]
  refine wp_post (tick_idle ch now) fun ch' w₁ _ hi => ?_
  split
  · exact ⟨trivial, hi⟩
  rename_i hc
  simp only [not_or, ne_eq, Decidable.not_not] at hc
  have hn : ch.state ≠ .idle := fun hs => by simp [hi.mpr hs] at hc
  rw [wp_ask_bind]
  refine ⟨trivial, fun stored w₂ _ => ?_⟩
  cases stored with
  | false =>
    simp only [Bool.not_false, if_true]
    rw [wp_bind]
    exact wp_post (revert_idle ch' _) fun _ _ _ h => ⟨trivial, iff_of_false h hn⟩
  | true => exact ⟨trivial, iff_of_false nofun hn⟩

end

/-! ## The calls of a session under its ticket -/

section
variable {P : WifiCall → Prop}

theorem uses_tick (he : P .ethernetRecoveryAvailable) (hp : P .probe) (hr : P .rollback)
    (ch : WifiChange) (now : Int) : Uses P (ch.tick now) := by
  have revert : ∀ reason, Uses P (ch.revert reason) := fun _ => ⟨hr, fun _ => trivial⟩
  unfold WifiChange.tick
  split
  · trivial
  split
  · exact revert _
  refine uses_bind (p := ask _) ⟨he, fun _ => trivial⟩ fun ethernet => ?_
  split
  · exact revert _
  refine uses_bind (p := ask _) ⟨hp, fun _ => trivial⟩ fun link => ?_
  split
  · exact revert _
  · trivial

theorem uses_confirm (he : P .ethernetRecoveryAvailable) (hp : P .probe) (hr : P .rollback)
    (hc : P .commit) (ch : WifiChange) (ticket : Bytes) (now : Int) :
    Uses P (ch.confirm ticket now) := by
  unfold WifiChange.confirm
  refine uses_bind (uses_tick he hp hr ch now) fun ch' => ?_
  split
  · trivial
  refine uses_bind (p := ask _) ⟨hc, fun _ => trivial⟩ fun stored => ?_
  split
  · exact uses_bind (p := ch'.revert _) ⟨hr, fun _ => trivial⟩ fun _ => trivial
  · trivial

theorem uses_cancel (hr : P .rollback) (ch : WifiChange) : Uses P ch.cancel := by
  unfold WifiChange.cancel
  split
  · exact ⟨hr, fun _ => trivial⟩
  · trivial

end

/-! ## Handling a packet -/

section
variable {kdf : Pbkdf2} {rpc : WifiRpc}

theorem handleTicket_other {s : WifiSession} (hs : rpc.session = some s) {verb ticket : Bytes}
    (h : s.authorized ticket = false ∨
      verb ∉ [bytes "status", bytes "confirm", bytes "cancel"]) :
    handleTicket rpc s verb ticket = pure (error, rpc) := by
  have hself : ({ rpc with session := some s } : WifiRpc) = rpc := by rw [← hs]
  simp only [handleTicket, WifiSession.status, WifiSession.confirm, WifiSession.cancel]
  rcases h with h | h
  · simp only [h, Bool.not_false, if_true]
    split <;> [skip; split <;> [skip; split]] <;> simp [hself]
  · simp only [List.mem_cons, List.not_mem_nil, or_false, not_or] at h
    simp only [h, if_false]
    simp [hself]

theorem ticketed_of_uses {s : WifiSession} {verb : Bytes} {p : Bytes}
    (hf : p.splitOn (byte '|') = [verb, s.ticket])
    (hv : verb ∈ [bytes "status", bytes "confirm", bytes "cancel"])
    (hs : rpc.session = some s) (hl : s.ticket.length = 64)
    {m : WifiProgram (Option WifiChangeState × WifiSession)} {tr : List Event}
    (hm : wp record (fun r _ => Kept s r.2 ∧ ∀ st, r.1 = some st → st = r.2.change.state)
      (fun _ => True) m tr)
    (hu : Uses (fun c => c ≠ .factory ∧ (c = .commit → verb = bytes "confirm")) m) :
    wp record (fun r tr' => ∃ seg, tr' = tr ++ seg ∧ Handled kdf rpc p seg r.1 r.2) (fun _ => True)
      (do
        let (state, s) ← m
        return (match state with | some state => stateName state | none => error,
          { rpc with session := some s })) tr := by
  rw [wp_bind]
  have hg : wp record (fun _ => Grows Event.call _ tr) (Grows Event.call _ tr) m tr := wp_grows hu tr
  refine wp_mono ?_ (fun _ _ => trivial) (wp_and hm hg)
  rintro ⟨state, s'⟩ tr' - ⟨⟨hk, hst⟩, hg⟩
  obtain ⟨seg, htr, hseg⟩ := grows_append hg
  refine ⟨trivial, seg, htr, .ticketed hf hv hs hl hk ?_ hseg⟩
  cases state with
  | none => exact .inl rfl
  | some st => exact .inr (congrArg stateName (hst st rfl))

theorem status_spec {s : WifiSession} (hl : s.ticket.length = 64) (tr : List Event) :
    wp record (fun r _ => Kept s r.2 ∧ ∀ st, r.1 = some st → st = r.2.change.state)
      (fun _ => True) (s.status s.ticket) tr := by
  simp only [WifiSession.status, WifiSession.authorized, hl, beq_self_eq_true, Bool.and_self,
    Bool.not_true, Bool.false_eq_true, if_false, wp_ask_bind]
  refine ⟨trivial, fun now tr₁ _ => ?_⟩
  rw [wp_bind]
  refine wp_post (tick_idle s.change now) fun ch' _ _ hi => ⟨trivial, ⟨rfl, hi⟩, ?_⟩
  rintro st ⟨⟩
  rfl

theorem confirm_session_spec {s : WifiSession} (hl : s.ticket.length = 64) (tr : List Event) :
    wp record (fun r _ => Kept s r.2 ∧ ∀ st, r.1 = some st → st = r.2.change.state)
      (fun _ => True) (s.confirm s.ticket) tr := by
  simp only [WifiSession.confirm, WifiSession.authorized, hl, beq_self_eq_true, Bool.and_self,
    Bool.not_true, Bool.false_eq_true, if_false]
  split
  · refine ⟨trivial, ⟨rfl, Iff.rfl⟩, ?_⟩
    rintro st ⟨⟩
    rfl
  rw [wp_ask_bind]
  refine ⟨trivial, fun now tr₁ _ => ?_⟩
  rw [wp_bind]
  refine wp_post (confirm_idle s.change s.ticket now) ?_
  rintro ⟨ok, ch'⟩ _ - hi
  refine ⟨trivial, ⟨rfl, hi⟩, ?_⟩
  cases ok with
  | false => exact nofun
  | true =>
    rintro st ⟨⟩
    rfl

theorem cancel_session_spec {s : WifiSession} (hl : s.ticket.length = 64) (tr : List Event) :
    wp record (fun r _ => Kept s r.2 ∧ ∀ st, r.1 = some st → st = r.2.change.state)
      (fun _ => True) (s.cancel s.ticket) tr := by
  simp only [WifiSession.cancel, WifiSession.authorized, hl, beq_self_eq_true, Bool.and_self,
    Bool.not_true, Bool.false_eq_true, if_false]
  rw [wp_bind]
  refine wp_post (cancel_idle s.change) fun ch' _ _ hi => ⟨trivial, ⟨rfl, hi⟩, ?_⟩
  rintro st ⟨⟩
  rfl

theorem handleTicket_spec {s : WifiSession} {verb ticket p : Bytes}
    (hf : p.splitOn (byte '|') = [verb, ticket]) (hs : rpc.session = some s) (tr : List Event) :
    wp record (fun r tr' => ∃ seg, tr' = tr ++ seg ∧ Handled kdf rpc p seg r.1 r.2) (fun _ => True)
      (handleTicket rpc s verb ticket) tr := by
  by_cases hother : s.authorized ticket = false ∨
      verb ∉ [bytes "status", bytes "confirm", bytes "cancel"]
  · rw [handleTicket_other hs hother]
    exact ⟨trivial, [], by simp, .malformed⟩
  obtain ⟨ha, hv⟩ := not_or.mp hother
  rw [Decidable.not_not] at hv
  obtain ⟨hl, rfl⟩ : s.ticket.length = 64 ∧ ticket = s.ticket := by
    simpa [WifiSession.authorized] using ha
  -- a tick neither commits nor creates a backend
  have hquiet : ∀ ch : WifiChange, ∀ now, Uses
      (fun c => c ≠ .factory ∧ (c = .commit → verb = bytes "confirm")) (ch.tick now) :=
    fun ch now => uses_tick ⟨nofun, nofun⟩ ⟨nofun, nofun⟩ ⟨nofun, nofun⟩ ch now
  unfold handleTicket
  simp only [List.mem_cons, List.not_mem_nil, or_false] at hv
  rcases hv with rfl | rfl | rfl
  · rw [if_pos rfl]
    refine ticketed_of_uses hf (by simp) hs hl (status_spec hl tr) ?_
    unfold WifiSession.status
    split
    · trivial
    refine uses_bind (p := ask _) ⟨⟨nofun, nofun⟩, fun _ => trivial⟩ fun now => ?_
    exact uses_bind (hquiet _ _) fun _ => trivial
  · rw [if_neg (by decide), if_pos rfl]
    refine ticketed_of_uses hf (by simp) hs hl (confirm_session_spec hl tr) ?_
    unfold WifiSession.confirm
    split
    · trivial
    split
    · trivial
    refine uses_bind (p := ask _) ⟨⟨nofun, nofun⟩, fun _ => trivial⟩ fun now => ?_
    refine uses_bind ?_ fun _ => trivial
    exact uses_confirm ⟨nofun, nofun⟩ ⟨nofun, nofun⟩ ⟨nofun, nofun⟩ ⟨nofun, fun _ => rfl⟩ _ _ _
  · rw [if_neg (by decide), if_neg (by decide), if_pos rfl]
    refine ticketed_of_uses hf (by simp) hs hl (cancel_session_spec hl tr) ?_
    unfold WifiSession.cancel
    split
    · trivial
    exact uses_bind (uses_cancel ⟨nofun, nofun⟩ _) fun _ => trivial

theorem handleStart_refused {ssidHex pskHex : Bytes} (h : (rpc.session.any fun s => !s.finished) = true ∨
    ¬ hex ssidHex 2 64 ∨ ¬ hex pskHex 64 64 ∨
    ∃ e, WifiProfile.make kdf (decodeHex ssidHex) pskHex = .error e) :
    handleStart kdf rpc ssidHex pskHex = pure (rejected, rpc) := by
  unfold handleStart
  split
  · rfl
  rename_i hc
  obtain ⟨e, he⟩ : ∃ e, WifiProfile.make kdf (decodeHex ssidHex) pskHex = .error e := by
    tauto
  simp only [he]

theorem openSession_spec {profile : WifiProfile} (hp : profile.usable = true) (tr : List Event) :
    wp record (fun r tr' => ∃ seg, tr' = tr ++ seg ∧ Started profile seg r.1 r.2) (fun _ => True)
      (openSession profile) tr := by
  unfold openSession
  rw [wp_ask_bind]
  refine ⟨trivial, ?_⟩
  rintro created _ rfl
  cases created with
  | false => exact ⟨trivial, _, rfl, .noBackend⟩
  | true =>
    simp only [Bool.not_true, Bool.false_eq_true, if_false]
    rw [wp_bind]
    refine wp_post (start_outcome (by simpa [WifiProfile.usable] using hp) _) ?_
    rintro ⟨ticket, session⟩ tr' - ⟨seg, rfl, ho⟩
    cases ticket with
    | none => exact ⟨trivial, _, by simp, .failed ho⟩
    | some ticket => exact ⟨trivial, _, by simp, .opened ho⟩

theorem handleStart_spec {ssidHex pskHex : Bytes} {profile : WifiProfile}
    (hs : (rpc.session.any fun s => !s.finished) = false) (hssid : hex ssidHex 2 64 = true)
    (hpsk : hex pskHex 64 64 = true)
    (hp : WifiProfile.make kdf (decodeHex ssidHex) pskHex = .ok profile) (tr : List Event) :
    wp record (fun r tr' => ∃ seg, tr' = tr ++ seg ∧ Started profile seg r.1 r.2) (fun _ => True)
      (handleStart kdf rpc ssidHex pskHex) tr := by
  have hgo : ¬ ((rpc.session.any fun s => !s.finished) = true ∨ ¬ hex ssidHex 2 64 = true ∨
      ¬ hex pskHex 64 64 = true) := by simp [hs, hssid, hpsk]
  have hdestroy : ∀ s, rpc.session = some s → s.change.destroy = pure s.change := by
    intro s hsome
    have hfin : s.finished = true := by simpa [hsome] using hs
    unfold WifiChange.destroy
    rw [if_neg]
    simp only [WifiSession.finished, Bool.or_eq_true, beq_iff_eq] at hfin
    rcases hfin with hfin | hfin <;> simp [WifiChange.pending, hfin]
  unfold handleStart
  rw [if_neg hgo]
  simp only [hp]
  cases hsome : rpc.session with
  | none => exact openSession_spec (WifiProfile.make_usable hp) tr
  | some s =>
    simp only [hdestroy s hsome, pure_bind]
    exact openSession_spec (WifiProfile.make_usable hp) tr

theorem handled (p : Bytes) (tr : List Event) :
    wp record (fun r tr' => ∃ seg, tr' = tr ++ seg ∧ Handled kdf rpc p seg r.1 r.2) (fun _ => True)
      (rpc.handle kdf p) tr := by
  have hbad : wp record (fun r tr' => ∃ seg, tr' = tr ++ seg ∧ Handled kdf rpc p seg r.1 r.2)
      (fun _ => True) (pure (error, rpc)) tr := ⟨trivial, [], by simp, .malformed⟩
  unfold handle
  split
  · exact hbad
  split
  · rename_i verb ssidHex pskHex hf
    split
    · rename_i hv
      subst hv
      by_cases hr : (rpc.session.any fun s => !s.finished) = true ∨ ¬ hex ssidHex 2 64 ∨
          ¬ hex pskHex 64 64 ∨ ∃ e, WifiProfile.make kdf (decodeHex ssidHex) pskHex = .error e
      · rw [handleStart_refused hr]
        refine ⟨trivial, [], by simp, .refused hf fun h₁ h₂ ⟨profile, h₃⟩ => ?_⟩
        have hs : (rpc.session.any fun s => !s.finished) = true := by
          simpa [h₁, h₂, h₃] using hr
        simpa [Option.any_eq_true] using hs
      · simp only [not_or, Bool.not_eq_true, Bool.not_eq_false, not_exists] at hr
        obtain ⟨hs, hssid, hpsk, hp⟩ := hr
        cases hmake : WifiProfile.make kdf (decodeHex ssidHex) pskHex with
        | error e => exact absurd hmake (hp e)
        | ok profile =>
          refine wp_post (handleStart_spec hs hssid hpsk hmake tr) ?_
          rintro r tr' - ⟨seg, htr, hst⟩
          exact ⟨seg, htr, .started hf hssid hpsk hst⟩
    · exact hbad
  · rename_i verb ticket s _ hf hs
    split
    · exact handleTicket_spec hf hs tr
    · exact hbad
  · exact hbad

end

/-! ## The invariant -/

structure Inv (rpc : WifiRpc) (tr : List Event) : Prop where
  lawful : Lawful tr
  holder : current tr = rpc.session.bind holder
  fresh : (tickets tr).Sublist (draws tr)
  stopped : ∀ more, (since tr).any (fun l => stopped (l ++ more)) =
    rpc.session.any (fun s => s.change.state == .idle)

theorem inv_new : Inv {} [] := ⟨lawful_nil, rfl, .slnil, fun _ => rfl⟩

theorem stuck_iff {rpc : WifiRpc} {tr : List Event} (h : Inv rpc tr) :
    Stuck tr ↔ ∃ s, rpc.session = some s ∧ s.change.state = .idle := by
  have hstop := h.stopped []
  simp only [List.append_nil] at hstop
  rw [Stuck, hstop, Option.any_eq_true]
  simp

theorem rel_kept {o o' : Option WifiSession} (h : Option.Rel Kept o o') :
    o'.bind WifiRpc.holder = o.bind WifiRpc.holder ∧
      o'.any (fun s => s.change.state == .idle) = o.any (fun s => s.change.state == .idle) := by
  cases h with
  | some hk =>
    refine ⟨by simp [WifiRpc.holder, hk.1], ?_⟩
    rw [Bool.eq_iff_iff]
    simp [hk.2]
  | none => exact ⟨rfl, rfl⟩

theorem inv_quiet {rpc rpc' : WifiRpc} {tr more : List Event} (h : Inv rpc tr) (hq : Quiet more)
    (hl : Lawful (tr ++ more)) (hk : Option.Rel Kept rpc.session rpc'.session) :
    Inv rpc' (tr ++ more) := by
  have hsame := rel_kept hk
  refine ⟨hl, ?_, ?_, fun more' => ?_⟩
  · rw [current_quiet hq, h.holder, hsame.1]
  · rw [tickets_quiet hq, draws_append]
    exact h.fresh.trans (List.sublist_append_left ..)
  · rw [since_quiet hq, Option.any_map, hsame.2, ← h.stopped (more ++ more')]
    simp

theorem rel_refl (o : Option WifiSession) : Option.Rel Kept o o := by
  cases o with
  | none => exact .none
  | some s => exact .some ⟨rfl, Iff.rfl⟩

theorem opens_stateName (st : WifiChangeState) : opens (stateName st) = none := by
  cases st <;> decide +kernel

theorem opens_error : opens error = none := by decide +kernel

theorem opens_rejected : opens rejected = none := by decide +kernel

theorem opens_recoveryRequired : opens recoveryRequired = none := by decide +kernel

theorem opens_connecting (ticket : Bytes) : opens (connecting ++ ticket) = some ticket := by
  simp [opens]

theorem inv_started {rpc rpc' : WifiRpc} {tr seg : List Event} {p : WifiProfile} {a : Bytes}
    (h : Inv rpc tr) (hs : Started p seg a rpc') (st : Option WifiChangeState)
    (hl : Lawful (tr ++ seg ++ [.answer a st])) : Inv rpc' (tr ++ seg ++ [.answer a st]) := by
  -- a new backend ends the session before it
  have hcreated : ∀ r, current (tr ++ [.call .factory r]) = none ∧
      since (tr ++ [.call .factory r]) = some [] := fun r => by
    simp [current, since, currentStep, sinceStep, isFactory]
  -- a start by itself creates no backend and opens no session
  have hquiet : ∀ {seg : List Event} {ticket : Option Bytes} {s : WifiSession},
      Outcome p seg ticket s → Quiet seg := fun ho e he => by
    obtain ⟨c, r, rfl, hc, -⟩ := outcome_calls ho e he
    refine ⟨?_, rfl⟩
    cases c <;> trivial
  cases hs with
  | noBackend =>
    have hq := quiet_answer opens_rejected st
    refine ⟨hl, ?_, ?_, fun more => ?_⟩
    · rw [current_quiet hq, (hcreated false).1]
      rfl
    · rw [tickets_quiet hq, draws_append, draws_append]
      have : tickets (tr ++ [.call .factory false]) = tickets tr := by simp [tickets, opened]
      rw [this]
      exact (h.fresh.trans (List.sublist_append_left ..)).trans (List.sublist_append_left ..)
    · rw [since_quiet hq, (hcreated false).2]
      rfl
  | @failed seg s ho =>
    have hq := quiet_append (hquiet ho) (quiet_answer opens_recoveryRequired st)
    have htr : tr ++ .call .factory true :: seg ++ [.answer recoveryRequired st] =
        tr ++ [.call .factory true] ++ (seg ++ [.answer recoveryRequired st]) := by simp
    rw [htr] at hl ⊢
    refine ⟨hl, ?_, ?_, fun more => ?_⟩
    · rw [current_quiet hq, (hcreated true).1]
      exact (outcome_holder ho).symm
    · rw [tickets_quiet hq, draws_append, draws_append]
      have : tickets (tr ++ [.call .factory true]) = tickets tr := by simp [tickets, opened]
      rw [this]
      exact (h.fresh.trans (List.sublist_append_left ..)).trans (List.sublist_append_left ..)
    · rw [since_quiet hq, (hcreated true).2]
      simp only [Option.map_some, Option.any_some, List.nil_append, List.append_assoc]
      exact outcome_stopped ho _
  | @opened seg ticket s ho =>
    have hcur : current (tr ++ .call .factory true :: seg) = none := by
      rw [List.append_cons, current_quiet (hquiet ho), (hcreated true).1]
    have htick : tickets (tr ++ .call .factory true :: seg) = tickets tr := by
      rw [List.append_cons, tickets_quiet (hquiet ho)]
      simp [tickets, WifiRpc.opened]
    have hdraw : draws (.call .factory true :: seg) = [ticket] := by
      cases ho with
      | opened t d _ _ _ => rfl
    refine ⟨hl, ?_, ?_, fun more => ?_⟩
    · have := outcome_holder ho
      have hstep : ∀ l, current (l ++ [.answer (connecting ++ ticket) st]) = some ticket := fun l => by
        simp [current, currentStep, isFactory, WifiRpc.opened, opens_connecting]
      rw [hstep]
      exact this.symm
    · have : tickets (tr ++ .call .factory true :: seg ++ [.answer (connecting ++ ticket) st]) =
          tickets tr ++ [ticket] := by
        have hlast : tickets [.answer (connecting ++ ticket) st] = [ticket] := by
          simp [tickets, WifiRpc.opened, opens_connecting]
        rw [← htick, ← hlast]
        exact List.filterMap_append
      rw [this, draws_append, draws_append, hdraw]
      refine List.Sublist.trans ?_ (List.sublist_append_left ..)
      exact h.fresh.append (List.Sublist.refl _)
    · have hsince : since (tr ++ .call .factory true :: seg ++ [.answer (connecting ++ ticket) st]) =
          some (seg ++ [.answer (connecting ++ ticket) st]) := by
        have : since (tr ++ .call .factory true :: seg) = some seg := by
          rw [List.append_cons, since_quiet (hquiet ho), (hcreated true).2]
          simp
        unfold since at this ⊢
        rw [List.foldl_append, this]
        rfl
      rw [hsince]
      simp only [Option.any_some, List.append_assoc]
      exact outcome_stopped ho _

/-! ## One packet, one tick -/

theorem named_error : named error = none := by decide +kernel

theorem named_rejected : named rejected = none := by decide +kernel

theorem named_recoveryRequired : named recoveryRequired = some .recoveryRequired := by
  decide +kernel

theorem named_connecting (ticket : Bytes) : named (connecting ++ ticket) = some .connecting := by
  simp [named, opens_connecting]

theorem started_names {p : WifiProfile} {seg : List Event} {a : Bytes} {rpc' : WifiRpc}
    (h : Started p seg a rpc') : Names a rpc'.sessionState ↔ harmless seg = false := by
  cases h with
  | noBackend => exact iff_of_true (fun st h => by simp [named_rejected] at h) rfl
  | @failed seg s ho =>
    simp only [Names, named_recoveryRequired, sessionState, Option.map_some, Option.some.injEq, forall_eq', harmless]
    cases ho with
    | noEthernet t _ _ hs => simp [hs, stopped]
    | noTicket t _ _ hs => simp [hs, stopped]
    | notPrepared t d r _ _ hs => cases r <;> simp [hs, stopped, undone]
    | notActivated t d r _ _ hs => cases r <;> simp [hs, stopped, undone]
  | @opened seg ticket s ho =>
    simp only [Names, named_connecting, sessionState, Option.map_some, Option.some.injEq, forall_eq', harmless]
    cases ho with
    | opened t d _ _ hs => simp [hs, stopped, undone]

theorem named_stateName (st st' : WifiChangeState) (h : named (stateName st) = some st') :
    st = st' := by
  revert h
  cases st <;> cases st' <;> decide +kernel

theorem handled_names {kdf : Pbkdf2} {rpc rpc' : WifiRpc} {p a : Bytes} {seg : List Event}
    (h : Handled kdf rpc p seg a rpc') : Names a rpc'.sessionState ↔ harmless seg = false := by
  cases h with
  | malformed => exact iff_of_true (fun st h => by simp [named_error] at h) rfl
  | refused =>
    exact iff_of_true (fun st h => by simp [named_rejected] at h) rfl
  | started _ _ _ hs => exact started_names hs
  | @ticketed verb s s' seg a _ _ _ _ _ ha hseg =>
    refine iff_of_true (fun st h => ?_) ?_
    · rcases ha with rfl | rfl
      · simp [named_error] at h
      · exact congrArg some (named_stateName _ _ h)
    · cases seg with
      | nil => rfl
      | cons e seg =>
        obtain ⟨c, r, rfl, hc, -⟩ := hseg e (by simp)
        cases c <;> trivial

theorem handled_calls {kdf : Pbkdf2} {rpc rpc' : WifiRpc} {p a : Bytes} {seg : List Event}
    (h : Handled kdf rpc p seg a rpc') : ∀ e ∈ seg, ∃ c r, e = .call c r ∧
      (c = .commit → ∃ s, rpc.session = some s ∧ s.ticket.length = 64 ∧
        p = ticketPacket (bytes "confirm") s.ticket) := by
  cases h with
  | malformed => simp
  | refused => simp
  | started _ _ _ hs =>
    have key : ∀ {seg : List Event} {ticket : Option Bytes} {profile : WifiProfile}
        {s : WifiSession}, Outcome profile seg ticket s →
        ∀ e ∈ (.call .factory true :: seg : List Event), ∃ c r, e = .call c r ∧ c ≠ .commit := by
      intro seg ticket profile s ho e he
      rcases List.mem_cons.mp he with rfl | he
      · exact ⟨_, _, rfl, nofun⟩
      · obtain ⟨c, r, hr, -, hc⟩ := outcome_calls ho e he
        exact ⟨c, r, hr, hc⟩
    have drop : ∀ {l : List Event}, (∀ e ∈ l, ∃ c r, e = .call c r ∧ c ≠ .commit) → ∀ e ∈ l,
        ∃ c r, e = .call c r ∧ (c = .commit → ∃ s, rpc.session = some s ∧ s.ticket.length = 64 ∧
          p = ticketPacket (bytes "confirm") s.ticket) := by
      intro l hl e he
      obtain ⟨c, r, hr, hc⟩ := hl e he
      exact ⟨c, r, hr, fun h => absurd h hc⟩
    cases hs with
    | noBackend => exact drop fun e he => ⟨_, _, List.mem_singleton.mp he, nofun⟩
    | failed ho => exact drop (key ho)
    | opened ho => exact drop (key ho)
  | @ticketed verb s s' seg a hf _ hs hl _ _ hseg =>
    intro e he
    obtain ⟨c, r, hr, -, hc⟩ := hseg e he
    refine ⟨c, r, hr, fun h => ⟨s, hs, hl, ?_⟩⟩
    have hp : [byte '|'].intercalate (p.splitOn (byte '|')) = p := List.intercalate_splitOn _
    rw [← hp, hf, hc h]
    simp [List.intercalate, ticketPacket]

theorem lawful_calls {before seg : List Event} {p : Bytes} (h : Lawful (before ++ [.packet p]))
    (hseg : ∀ e ∈ seg, ∃ c r, e = .call c r ∧ (c = .commit → ∃ ticket,
      p = ticketPacket (bytes "confirm") ticket ∧ current before = some ticket)) :
    Lawful (before ++ [.packet p] ++ seg) := by
  induction seg using List.reverseRecOn with
  | nil => simpa using h
  | append_singleton seg e ih =>
    obtain ⟨c, r, rfl, hc⟩ := hseg e (by simp)
    have hrest : ∀ e ∈ seg, ∃ c r, e = .call c r ∧ (c = .commit → ∃ ticket,
        p = ticketPacket (bytes "confirm") ticket ∧ current before = some ticket) :=
      fun e he => hseg e (by simp [he])
    rw [← List.append_assoc]
    refine lawful_snoc (ih hrest) ?_
    by_cases hcommit : c = .commit
    · subst hcommit
      obtain ⟨ticket, rfl, hcur⟩ := hc rfl
      refine ⟨before, ticket, seg, ⟨by simp, fun e he => ?_⟩, hcur⟩
      obtain ⟨c, r, hr, -⟩ := hrest e he
      exact ⟨c, r, hr⟩
    · exact justified_call hcommit r

theorem packet_inv {kdf : Pbkdf2} {rpc rpc' : WifiRpc} {tr tr' : List Event} {p a : Bytes}
    (h : Inv rpc tr) (hr : Runs record (rpc.handle kdf p) (tr ++ [.packet p]) (a, rpc') tr') :
    Inv rpc' (tr' ++ [.answer a rpc'.sessionState]) := by
  have hw := runs_of_wp (handled p (tr ++ [.packet p])) hr
  obtain ⟨seg, rfl, hh⟩ := hw
  have hp := inv_quiet h (quiet_packet p) (lawful_snoc h.lawful trivial) (rel_refl _)
  have hcalls := handled_calls hh
  have hl : Lawful (tr ++ [.packet p] ++ seg) := by
    refine lawful_calls hp.lawful fun e he => ?_
    obtain ⟨c, r, hr, hc⟩ := hcalls e he
    refine ⟨c, r, hr, fun hcommit => ?_⟩
    obtain ⟨s, hs, hlen, hpkt⟩ := hc hcommit
    -- a ticket of 64 digits is not the empty one of a session without
    have hne : s.ticket ≠ [] := fun he => by simp [he] at hlen
    exact ⟨s.ticket, hpkt, by simp [h.holder, hs, WifiRpc.holder, hne]⟩
  have hhandling : Handling (tr ++ [.packet p] ++ seg) tr p seg :=
    ⟨by simp, fun e he => (hcalls e he).imp fun c hc => hc.imp fun r hr => hr.1⟩
  have hl' : Lawful (tr ++ [.packet p] ++ seg ++ [.answer a rpc'.sessionState]) := by
    refine lawful_snoc hl fun before p' calls hh' => ?_
    obtain ⟨-, -, rfl⟩ := handling_unique hhandling hh'
    exact handled_names hh
  cases hh with
  | malformed =>
    rw [List.append_nil] at hl' ⊢
    exact inv_quiet hp (quiet_answer opens_error _) hl' (rel_refl _)
  | refused =>
    rw [List.append_nil] at hl' ⊢
    exact inv_quiet hp (quiet_answer opens_rejected _) hl' (rel_refl _)
  | started _ _ _ hs => exact inv_started hp hs _ hl'
  | @ticketed verb s s' seg a _ _ hs _ hk ha hseg =>
    have hq : Quiet seg := fun e he => by
      obtain ⟨c, r, rfl, hc, -⟩ := hseg e he
      refine ⟨?_, rfl⟩
      cases c <;> trivial
    have ho : opens a = none := by
      rcases ha with rfl | rfl
      · exact opens_error
      · exact opens_stateName _
    rw [List.append_assoc] at hl' ⊢
    refine inv_quiet hp (quiet_append hq (quiet_answer ho _)) hl' ?_
    rw [hs]
    exact .some hk

theorem tick_inv {rpc rpc' : WifiRpc} {tr tr' : List Event} (h : Inv rpc tr)
    (hr : Runs record rpc.tick (tr ++ [.tick]) rpc' tr') : Inv rpc' tr' := by
  have hp : Inv rpc (tr ++ [.tick]) :=
    inv_quiet h (by simp [Quiet, isFactory, opened]) (lawful_snoc h.lawful trivial) (rel_refl _)
  cases hs : rpc.session with
  | none =>
    simp only [tick, hs] at hr
    cases hr
    exact hp
  | some s =>
    have hu : Uses (fun c => c ≠ .factory ∧ c ≠ .commit) rpc.tick := by
      simp only [tick, hs, WifiSession.tick, bind_assoc]
      refine uses_bind (p := ask _) ⟨⟨nofun, nofun⟩, fun _ => trivial⟩ fun now => ?_
      exact uses_bind (uses_tick ⟨nofun, nofun⟩ ⟨nofun, nofun⟩ ⟨nofun, nofun⟩ _ _) fun _ => trivial
    have hk : wp record (fun rpc' _ => ∃ s', rpc'.session = some s' ∧ Kept s s') (fun _ => True)
        rpc.tick (tr ++ [.tick]) := by
      simp only [tick, hs, WifiSession.tick, bind_assoc, wp_ask_bind]
      refine ⟨trivial, fun now tr₁ _ => ?_⟩
      rw [wp_bind]
      exact wp_post (tick_idle s.change now) fun ch' _ _ hi => ⟨trivial, _, rfl, rfl, hi⟩
    have hcalls : wp record (fun _ => Grows Event.call _ (tr ++ [.tick]))
        (Grows Event.call _ (tr ++ [.tick])) rpc.tick (tr ++ [.tick]) := wp_grows hu _
    have hw := runs_of_wp (wp_and hk hcalls) hr
    obtain ⟨⟨s', hs', hkept⟩, hg⟩ := hw
    have hl := lawful_grows (fun _ _ r hc => justified_call hc.2 r) hg hp.lawful
    obtain ⟨more, rfl, hq⟩ := quiet_grows (fun _ hc => hc.1) hg
    refine inv_quiet hp hq hl ?_
    rw [hs, hs']
    exact .some hkept

theorem reach_inv {kdf : Pbkdf2} {s : Run} (h : Reach kdf s) : Inv s.1 s.2 := by
  induction h with
  | refl => exact inv_new
  | tail _ hs ih =>
    cases hs with
    | packet hr => exact packet_inv ih hr
    | tick hr => exact tick_inv ih hr

end WifiRpc

end EncoderNext
