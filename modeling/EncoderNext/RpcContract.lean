import EncoderNext.RpcSound

/-!
# What the helper's packets may do

Whose confirmation commits, when a start is refused, and what an answer says of
the session.
-/

namespace EncoderNext

open Program

namespace WifiRpc

/-! ## Shapes of packets -/

theorem not_mem_hex {text : Bytes} {min max : Nat} (h : hex text min max = true) {c : UInt8}
    (hc : isHexDigit c = false) : c ∉ text := by
  intro hm
  simp only [hex, Bool.and_eq_true, List.all_eq_true] at h
  rw [h.2 c hm] at hc
  cases hc

theorem length_hex {text : Bytes} {min max : Nat} (h : hex text min max = true) :
    text.length ≤ max := by
  simp only [hex, Bool.and_eq_true, decide_eq_true_eq] at h
  exact h.1.1.2

theorem splitOn_startPacket {ssidHex pskHex : Bytes} (hs : hex ssidHex 2 64 = true)
    (hp : hex pskHex 64 64 = true) :
    (startPacket ssidHex pskHex).splitOn (byte '|') = [bytes "start", ssidHex, pskHex] := by
  have hbar : isHexDigit (byte '|') = false := by decide
  rw [startPacket, List.splitOn_append_cons_self_of_not_mem (by decide),
    List.splitOn_append_cons_self_of_not_mem (not_mem_hex hs hbar)]
  rw [List.splitOn_eq_singleton (not_mem_hex hp hbar)]

theorem startPacket_short {ssidHex pskHex : Bytes} (hs : hex ssidHex 2 64 = true)
    (hp : hex pskHex 64 64 = true) :
    ¬ ((startPacket ssidHex pskHex).length > 256 ∨ 0 ∈ startPacket ssidHex pskHex) := by
  have hls := length_hex hs
  have hlp := length_hex hp
  have hstart : (bytes "start").length = 5 := by decide
  have hz : isHexDigit 0 = false := by decide
  rw [not_or]
  constructor
  · simp only [startPacket, List.length_append, List.length_cons, hstart]
    omega
  · simp only [startPacket, List.mem_append, List.mem_cons, not_or]
    exact ⟨by decide, by decide, not_mem_hex hs hz, by decide, not_mem_hex hp hz⟩

theorem handle_startPacket (kdf : Pbkdf2) (rpc : WifiRpc) {ssidHex pskHex : Bytes}
    (hs : hex ssidHex 2 64 = true) (hp : hex pskHex 64 64 = true) :
    rpc.handle kdf (startPacket ssidHex pskHex) = handleStart kdf rpc ssidHex pskHex := by
  rw [handle, if_neg (startPacket_short hs hp), splitOn_startPacket hs hp]
  simp

theorem eq_ticketPacket {p verb ticket : Bytes} (h : p.splitOn (byte '|') = [verb, ticket]) :
    p = ticketPacket verb ticket := by
  have hp : [byte '|'].intercalate (p.splitOn (byte '|')) = p := List.intercalate_splitOn _
  rw [← hp, h]
  simp [List.intercalate, ticketPacket]

theorem eq_startPacket {p ssidHex pskHex : Bytes}
    (h : p.splitOn (byte '|') = [bytes "start", ssidHex, pskHex]) :
    p = startPacket ssidHex pskHex := by
  have hp : [byte '|'].intercalate (p.splitOn (byte '|')) = p := List.intercalate_splitOn _
  rw [← hp, h]
  simp [List.intercalate, startPacket]

def verbs : List Bytes := [bytes "status", bytes "confirm", bytes "cancel"]

theorem handle_otherTicket (kdf : Pbkdf2) {rpc : WifiRpc} {verb ticket : Bytes} (hv : verb ∈ verbs)
    (ht : rpc.session.bind holder ≠ some ticket) :
    rpc.handle kdf (ticketPacket verb ticket) = pure (error, rpc) := by
  have hbar : byte '|' ∉ verb := by
    simp only [verbs, List.mem_cons, List.not_mem_nil, or_false] at hv
    rcases hv with rfl | rfl | rfl <;> decide
  have hstart : verb ≠ bytes "start" := by
    simp only [verbs, List.mem_cons, List.not_mem_nil, or_false] at hv
    rcases hv with rfl | rfl | rfl <;> decide
  unfold handle
  split
  · rfl
  rw [ticketPacket, List.splitOn_append_cons_self_of_not_mem hbar]
  split
  · rename_i hf
    rw [List.cons.injEq] at hf
    rw [if_neg (hf.1 ▸ hstart)]
  · rename_i s hf hs
    rw [List.cons.injEq] at hf
    obtain ⟨rfl, hf⟩ := hf
    have hticket : [byte '|'].intercalate (ticket.splitOn (byte '|')) = ticket :=
      List.intercalate_splitOn _
    rw [hf, List.intercalate_singleton] at hticket
    subst hticket
    split
    · apply handleTicket_other hs
      left
      cases ha : s.authorized _ with
      | false => rfl
      | true =>
        simp only [WifiSession.authorized, Bool.and_eq_true, beq_iff_eq] at ha
        have hne : s.ticket ≠ [] := fun he => by simp [he] at ha
        exact absurd (by simp [hs, holder, hne, ha.2]) ht
    · rfl
  · rfl

theorem handle_otherShape (kdf : Pbkdf2) (rpc : WifiRpc) {p : Bytes}
    (ht : ∀ verb ∈ verbs, ∀ ticket, p ≠ ticketPacket verb ticket)
    (hs : ∀ ssidHex pskHex, hex ssidHex 2 64 = true → hex pskHex 64 64 = true →
      p ≠ startPacket ssidHex pskHex) :
    ∃ a, rpc.handle kdf p = pure (a, rpc) := by
  unfold handle
  split
  · exact ⟨_, rfl⟩
  split
  · rename_i verb ssidHex pskHex hf
    split
    · rename_i hv
      subst hv
      refine ⟨_, handleStart_refused ?_⟩
      by_cases h₁ : hex ssidHex 2 64 = true
      · by_cases h₂ : hex pskHex 64 64 = true
        · exact absurd (eq_startPacket hf) (hs _ _ h₁ h₂)
        · exact .inr (.inr (.inl h₂))
      · exact .inr (.inl h₁)
    · exact ⟨_, rfl⟩
  · rename_i verb ticket s hf hsome
    split
    · refine ⟨_, handleTicket_other hsome (.inr ?_)⟩
      intro hv
      exact ht verb hv ticket (eq_ticketPacket hf)
    · exact ⟨_, rfl⟩
  · exact ⟨_, rfl⟩

/-! ## Whose ticket is current -/

theorem opened_of_current {l : List Event} {now : Option Bytes} {ticket : Bytes}
    (h : l.foldl currentStep now = some ticket) : now = some ticket ∨ ticket ∈ tickets l := by
  induction l generalizing now with
  | nil => exact .inl h
  | cons e l ih =>
    rcases ih h with hnow | hin
    · unfold currentStep at hnow
      split at hnow
      · cases hnow
      · cases ho : opened e with
        | none => exact .inl (by simpa [ho] using hnow)
        | some t =>
          have : t = ticket := by simpa [ho] using hnow
          exact .inr (by simp [tickets, ho, this])
    · right
      simp only [tickets, List.filterMap_cons]
      split
      · exact hin
      · exact List.mem_cons_of_mem _ hin

/-- With distinct draws, the ticket of an earlier session is never current. -/
theorem earlier_not_current {kdf : Pbkdf2} {rpc : WifiRpc} {tr pre post : List Event}
    {r : WifiCall.factory.Reply} {ticket : Bytes} (h : Reach kdf (rpc, tr)) (hd : (draws tr).Nodup)
    (htr : tr = pre ++ .call .factory r :: post) (ht : ticket ∈ tickets pre) :
    current tr ≠ some ticket := by
  intro hcur
  have hnodup : (tickets tr).Nodup := hd.sublist (reach_inv h).fresh
  have hsplit : tickets tr = tickets pre ++ tickets post := by
    rw [htr, tickets, List.filterMap_append]
    rfl
  have hpost : ticket ∈ tickets post := by
    rw [htr, current, List.foldl_append, List.foldl_cons] at hcur
    rcases opened_of_current hcur with hnone | hin
    · simp [currentStep, isFactory] at hnone
    · exact hin
  rw [hsplit, List.nodup_append] at hnodup
  exact hnodup.2.2 ticket ht ticket hpost rfl

/-- **Ticket authority.** On every run with distinct draws: every commit stands
in the handling of a confirmation that carries the current ticket; a request
with any other ticket, that of an earlier session included, is answered with an
error and does nothing; and so does a packet of any other shape, whatever the
answer. -/
theorem ticket_authority {kdf : Pbkdf2} {rpc : WifiRpc} {tr : List Event}
    (h : Reach kdf (rpc, tr)) (hd : (draws tr).Nodup) :
    (∀ pre r post, tr = pre ++ .call .commit r :: post → ∃ before ticket calls,
      Handling pre before (ticketPacket (bytes "confirm") ticket) calls ∧
      current before = some ticket) ∧
    (∀ verb ∈ verbs, ∀ ticket, current tr ≠ some ticket →
      rpc.handle kdf (ticketPacket verb ticket) = pure (error, rpc)) ∧
    (∀ pre r post ticket, tr = pre ++ .call .factory r :: post → ticket ∈ tickets pre →
      current tr ≠ some ticket) ∧
    (∀ p, (∀ verb ∈ verbs, ∀ ticket, p ≠ ticketPacket verb ticket) →
      (∀ ssidHex pskHex, hex ssidHex 2 64 = true → hex pskHex 64 64 = true →
        p ≠ startPacket ssidHex pskHex) →
      ∃ a, rpc.handle kdf p = pure (a, rpc)) := by
  have hinv := reach_inv h
  refine ⟨?_, ?_, ?_, ?_⟩
  · intro pre r post htr
    exact lawful_mid hinv.lawful htr
  · intro verb hv ticket ht
    apply handle_otherTicket kdf hv
    rw [← hinv.holder]
    exact ht
  · intro pre r post ticket htr ht
    exact earlier_not_current h hd htr ht
  · intro p ht hs
    exact handle_otherShape kdf rpc ht hs

/-! ## Runs against one set of failures -/

def handleDown (kdf : Pbkdf2) (down : WifiCall → Bool) (s : Run) (p : Bytes) : Run :=
  let e := exec (fun tr c => (WifiCall.reply down c, tr ++ [.call c (WifiCall.reply down c)]))
    (s.1.handle kdf p) (s.2 ++ [.packet p])
  (e.1.2, e.2 ++ [.answer e.1.1 e.1.2.sessionState])

theorem step_handleDown (kdf : Pbkdf2) (down : WifiCall → Bool) (s : Run) (p : Bytes) :
    Step kdf s (handleDown kdf down s p) :=
  .packet (runs_exec (fun _ _ => rfl) _ _)

def zeroStart : Bytes := startPacket (bytes "61") (List.replicate 64 (byte '0'))

def openedRun : Run := handleDown noKdf (fun _ => false) ({}, []) zeroStart

/-- The Ethernet was missing for a moment. -/
def stoppedRun : Run := handleDown noKdf (· == .ethernetRecoveryAvailable) ({}, []) zeroStart

theorem reach_openedRun : Reach noKdf openedRun := .single (step_handleDown ..)

theorem reach_stoppedRun : Reach noKdf stoppedRun := .single (step_handleDown ..)

theorem ticket_authority_opened : current openedRun.2 = some (toHex (List.replicate 32 0)) ∧
    ∀ verb ∈ verbs, ∀ ticket, current openedRun.2 ≠ some ticket →
      openedRun.1.handle noKdf (ticketPacket verb ticket) = pure (error, openedRun.1) := by
  obtain ⟨-, hother, -, -⟩ := ticket_authority reach_openedRun (by decide)
  exact ⟨by decide +kernel, hother⟩

/-! ## When a start is refused -/

def busy (st : WifiChangeState) : Prop :=
  st = .connecting ∨ st = .awaitingConfirmation ∨ st = .recoveryRequired

/-- A well-formed start with a valid profile and a factory that yields a
backend is refused only for a session that may have changed the network. -/
def RefusesOnlyBusy (kdf : Pbkdf2) (rpc : WifiRpc) (tr : List Event) : Prop :=
  ∀ ssidHex pskHex profile a rpc' seg, hex ssidHex 2 64 = true → hex pskHex 64 64 = true →
    WifiProfile.make kdf (decodeHex ssidHex) pskHex = .ok profile →
    Runs record (rpc.handle kdf (startPacket ssidHex pskHex))
      (tr ++ [.packet (startPacket ssidHex pskHex)]) (a, rpc')
      (tr ++ [.packet (startPacket ssidHex pskHex)] ++ seg) →
    .call .factory false ∉ seg → a = rejected → ∃ s, rpc.session = some s ∧ busy s.change.state

theorem make_zeroStart (kdf : Pbkdf2) : ∃ profile,
    WifiProfile.make kdf (decodeHex (bytes "61")) (List.replicate 64 (byte '0')) = .ok profile :=
  ⟨_, rfl⟩

theorem refuses_of_idle {kdf : Pbkdf2} {rpc : WifiRpc} {tr : List Event} {s : WifiSession}
    (hs : rpc.session = some s) (hi : s.change.state = .idle) : ¬ RefusesOnlyBusy kdf rpc tr := by
  intro h
  obtain ⟨profile, hp⟩ := make_zeroStart kdf
  have hssid : hex (bytes "61") 2 64 = true := by decide
  have hpsk : hex (List.replicate 64 (byte '0')) 64 64 = true := by decide
  have hrefused : handleStart kdf rpc (bytes "61") (List.replicate 64 (byte '0')) =
      pure (rejected, rpc) := by
    apply handleStart_refused
    simp [hs, WifiSession.finished, hi]
  have hrun : Runs record (rpc.handle kdf (startPacket (bytes "61") (List.replicate 64 (byte '0'))))
      (tr ++ [.packet (startPacket (bytes "61") (List.replicate 64 (byte '0')))]) (rejected, rpc)
      (tr ++ [.packet (startPacket (bytes "61") (List.replicate 64 (byte '0')))] ++ []) := by
    rw [handle_startPacket kdf rpc hssid hpsk, hrefused, List.append_nil]
    exact .done _ _
  obtain ⟨s', hs', hb⟩ := h _ _ profile _ _ [] hssid hpsk hp hrun (by simp) rfl
  rw [hs] at hs'
  cases hs'
  simp [busy, hi] at hb

theorem error_ne_rejected : error ≠ rejected := by decide +kernel

theorem recoveryRequired_ne_rejected : recoveryRequired ≠ rejected := by decide +kernel

theorem busy_of_unfinished {s : WifiSession} (hf : s.finished = false) (hi : s.change.state ≠ .idle) :
    busy s.change.state := by
  simp only [WifiSession.finished, Bool.or_eq_false_iff, beq_eq_false_iff_ne] at hf
  cases hst : s.change.state <;> simp_all [busy]

theorem refuses_of_not_idle {kdf : Pbkdf2} {rpc : WifiRpc} {tr : List Event}
    (hi : ∀ s, rpc.session = some s → s.change.state ≠ .idle) : RefusesOnlyBusy kdf rpc tr := by
  intro ssidHex pskHex profile a rpc' seg hssid hpsk hp hrun hfactory ha
  have hw := runs_of_wp (handled _ _) hrun
  obtain ⟨seg', heq, hh⟩ := hw
  obtain rfl := List.append_cancel_left heq
  have hfields := splitOn_startPacket hssid hpsk
  cases hh with
  | malformed => exact absurd ha error_ne_rejected
  | refused hf hwhy =>
    rw [hfields] at hf
    cases hf
    obtain ⟨s, hs, hfin⟩ := hwhy hssid hpsk ⟨profile, hp⟩
    exact ⟨s, hs, busy_of_unfinished hfin (hi s hs)⟩
  | started hf _ _ hst =>
    cases hst with
    | noBackend => exact absurd (by simp) hfactory
    | failed => exact absurd ha recoveryRequired_ne_rejected
    | @opened seg ticket s ho =>
      have hopens : opens (connecting ++ ticket) = opens rejected := congrArg opens ha
      rw [opens_connecting, opens_rejected] at hopens
      cases hopens
  | ticketed hf =>
    rw [hfields] at hf
    cases hf

/-- Starts are refused for a busy session alone exactly while the current
session's start was not stopped by a missing Ethernet or a failed draw. -/
theorem refuses_only_busy_iff {kdf : Pbkdf2} {rpc : WifiRpc} {tr : List Event}
    (h : Reach kdf (rpc, tr)) : RefusesOnlyBusy kdf rpc tr ↔ ¬ Stuck tr := by
  have hstuck := stuck_iff (reach_inv h)
  constructor
  · intro hr hs
    obtain ⟨s, hsome, hi⟩ := hstuck.mp hs
    exact refuses_of_idle hsome hi hr
  · intro hs
    apply refuses_of_not_idle
    intro s hsome hi
    exact hs (hstuck.mpr ⟨s, hsome, hi⟩)

theorem refuses_only_busy_opened : RefusesOnlyBusy noKdf openedRun.1 openedRun.2 :=
  (refuses_only_busy_iff reach_openedRun).mpr (by unfold Stuck; decide)

theorem refuses_after_missing_ethernet : Reach noKdf stoppedRun ∧
    stoppedRun.1.sessionState = some .idle ∧
    ¬ RefusesOnlyBusy noKdf stoppedRun.1 stoppedRun.2 := by
  have hs : stoppedRun.1.sessionState = some .idle := by decide
  obtain ⟨s, hsome, hi⟩ := Option.map_eq_some_iff.mp hs
  exact ⟨reach_stoppedRun, hs, refuses_of_idle hsome hi⟩

/-! ## What an answer says -/

/-- On every run, an answer that names a state of the change names the state
the session is in, exactly unless it answers a start that failed and left
nothing to recover. -/
theorem answer_names_state_iff {kdf : Pbkdf2} {rpc : WifiRpc} {tr : List Event}
    (h : Reach kdf (rpc, tr)) : ∀ pre a st post before p calls,
      tr = pre ++ .answer a st :: post → Handling pre before p calls →
      (Names a st ↔ harmless calls = false) := by
  intro pre a st post before p calls htr hh
  exact lawful_mid (reach_inv h).lawful htr before p calls hh

theorem answer_names_state_opened : ∃ pre a calls,
    openedRun.2 = pre ++ [.answer a openedRun.1.sessionState] ∧
    Handling pre [] zeroStart calls ∧ Names a openedRun.1.sessionState := by
  refine ⟨_, _, _, rfl, ⟨rfl, by simp⟩, ?_⟩
  exact (answer_names_state_iff reach_openedRun _ _ _ [] [] zeroStart _ rfl ⟨rfl, by simp⟩).mpr
    (by decide)

/-- Nothing was touched, and the answer still asks for a recovery. -/
theorem recovery_named_when_idle : Reach noKdf stoppedRun ∧
    (∃ pre, stoppedRun.2 = pre ++ [.answer recoveryRequired (some .idle)]) ∧
    ¬ Names recoveryRequired (some .idle) := by
  refine ⟨reach_stoppedRun, ⟨_, rfl⟩, ?_⟩
  intro h
  have := h _ named_recoveryRequired
  cases this

end WifiRpc

end EncoderNext
