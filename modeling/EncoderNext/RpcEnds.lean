import EncoderNext.RpcContract

/-!
# How a change of the helper ends

The calls by which the session's change was committed or rolled back, and the answers that change
nothing.
-/

namespace EncoderNext

open Program

namespace WifiRpc

/-! ## How a change came to its end -/

def ending : WifiChangeState → Option Event
  | .committed => some (.call .commit true)
  | .rolledBack => some (.call .rollback true)
  | _ => none

/-- From one state to another, where an end that is reached on the way stands in the log. -/
def Moves (st : WifiChangeState) (tr : List Event) (st' : WifiChangeState) (tr' : List Event) : Prop :=
  ∃ more, tr' = tr ++ more ∧ Quiet more ∧ ∀ e, ending st' = some e → e ∈ more ∨ ending st = some e

def Settled (rpc : WifiRpc) (tr : List Event) : Prop :=
  ∀ s, rpc.session = some s → ∃ l, since tr = some l ∧ ∀ e, ending s.change.state = some e → e ∈ l

section
variable {st st' st'' : WifiChangeState} {tr tr' tr'' : List Event}

theorem moves_refl : Moves st tr st tr := ⟨[], by simp, by simp [Quiet], fun _ h => .inr h⟩

theorem moves_open (h : ending st' = none) : Moves st tr st' tr :=
  ⟨[], by simp, by simp [Quiet], fun e he => by simp [h] at he⟩

theorem moves_trans (h : Moves st tr st' tr') (h' : Moves st' tr' st'' tr'') : Moves st tr st'' tr'' := by
  obtain ⟨more, rfl, hq, he⟩ := h
  obtain ⟨more', rfl, hq', he'⟩ := h'
  refine ⟨more ++ more', by simp, quiet_append hq hq', fun e hend => ?_⟩
  rcases he' e hend with hm | hm
  · exact .inl (List.mem_append_right _ hm)
  · rcases he e hm with hm | hm
    · exact .inl (List.mem_append_left _ hm)
    · exact .inr hm

theorem quiet_call {c : WifiCall} (hc : c ≠ .factory) (r : c.Reply) : Quiet [.call c r] := by
  intro e he
  obtain rfl := List.mem_singleton.mp he
  refine ⟨?_, rfl⟩
  cases c <;> first | rfl | exact absurd rfl hc

theorem quiet_calls {l : List Event} (h : ∀ e ∈ l, ∃ c r, e = .call c r ∧ c ≠ .factory) : Quiet l := by
  intro e he
  obtain ⟨c, r, rfl, hc⟩ := h e he
  exact quiet_call hc r _ (by simp)

theorem moves_call {c : WifiCall} (hc : c ≠ .factory) (r : c.Reply) : Moves st tr st (tr ++ [.call c r]) :=
  ⟨_, rfl, quiet_call hc r, fun _ h => .inr h⟩

theorem moves_end {c : WifiCall} (hc : c ≠ .factory) {r : c.Reply} (h : ending st' = some (.call c r)) :
    Moves st tr st' (tr ++ [.call c r]) := by
  refine ⟨_, rfl, quiet_call hc r, fun e he => .inl ?_⟩
  rw [h] at he
  simp [Option.some.inj he]

theorem revert_moves (st : WifiChangeState) (ch : WifiChange) (reason : String) (tr : List Event) :
    wp record (fun ch' tr' => Moves st tr ch'.state tr') (fun _ => True) (ch.revert reason) tr := by
  unfold WifiChange.revert
  rw [wp_ask_bind]
  refine ⟨trivial, fun restored tr' htr => ?_⟩
  subst htr
  refine ⟨trivial, ?_⟩
  cases restored with
  | true => exact moves_end (c := .rollback) (by simp) rfl
  | false => exact moves_trans (moves_call (c := .rollback) (by simp) false) (moves_open rfl)

theorem tick_moves (ch : WifiChange) (now : Int) (tr : List Event) :
    wp record (fun ch' tr' => Moves ch.state tr ch'.state tr') (fun _ => True) (ch.tick now) tr := by
  unfold WifiChange.tick
  by_cases hp : ch.pending = true
  · simp only [hp, Bool.not_true, Bool.false_eq_true, if_false]
    by_cases hnow : now ≥ ch.deadline
    · simp only [hnow, if_true]
      exact revert_moves _ ch _ tr
    · simp only [hnow, if_false]
      rw [wp_ask_bind]
      refine ⟨trivial, fun ethernet tr₁ h₁ => ?_⟩
      subst h₁
      have hfirst : Moves ch.state tr ch.state (tr ++ [.call .ethernetRecoveryAvailable ethernet]) :=
        moves_call (by simp) ethernet
      cases ethernet with
      | false => exact wp_post (revert_moves ch.state ch _ _) fun _ _ _ h => moves_trans hfirst h
      | true =>
        simp only [Bool.not_true, Bool.false_eq_true, if_false]
        rw [wp_ask_bind]
        refine ⟨trivial, fun link tr₂ h₂ => ?_⟩
        subst h₂
        have hsecond := moves_trans hfirst (moves_call (c := .probe) (by simp) link)
        cases link with
        | failed => exact wp_post (revert_moves ch.state ch _ _) fun _ _ _ h => moves_trans hsecond h
        | pending => exact ⟨trivial, moves_trans hsecond (moves_open rfl)⟩
        | ready => exact ⟨trivial, moves_trans hsecond (moves_open rfl)⟩
  · simp only [hp]
    exact ⟨trivial, moves_refl⟩

theorem confirm_moves (ch : WifiChange) (ticket : Bytes) (now : Int) (tr : List Event) :
    wp record (fun r tr' => Moves ch.state tr r.2.state tr') (fun _ => True) (ch.confirm ticket now) tr := by
  unfold WifiChange.confirm
  rw [wp_bind]
  refine wp_post (tick_moves ch now tr) fun ch' tr₁ _ h₁ => ?_
  by_cases hc : ch'.state ≠ .awaitingConfirmation ∨ ticket ≠ ch'.ticket
  · simp only [hc, if_true]
    exact ⟨trivial, h₁⟩
  · simp only [hc, if_false]
    rw [wp_ask_bind]
    refine ⟨trivial, fun stored tr₂ h₂ => ?_⟩
    subst h₂
    cases stored with
    | false =>
      simp only [Bool.not_false, if_true]
      rw [wp_bind]
      refine wp_post (revert_moves ch'.state ch' _ _) fun _ _ _ h => ⟨trivial, ?_⟩
      exact moves_trans (moves_trans h₁ (moves_call (c := .commit) (by simp) false)) h
    | true => exact ⟨trivial, moves_trans h₁ (moves_end (c := .commit) (by simp) rfl)⟩

theorem cancel_moves (ch : WifiChange) (tr : List Event) :
    wp record (fun ch' tr' => Moves ch.state tr ch'.state tr') (fun _ => True) ch.cancel tr := by
  unfold WifiChange.cancel
  by_cases hp : ch.pending = true
  · simp only [hp, if_true]
    exact revert_moves _ ch _ tr
  · simp only [hp]
    exact ⟨trivial, moves_refl⟩

/-! ## A packet and a tick of the helper -/

variable {rpc rpc' : WifiRpc} {s s' : WifiSession}

theorem settled_moves (h : Settled rpc tr) (hs : rpc.session = some s) (hs' : rpc'.session = some s')
    (hm : Moves s.change.state tr s'.change.state tr') : Settled rpc' tr' := by
  intro x hx
  rw [hs'] at hx
  cases hx
  obtain ⟨more, rfl, hq, hend⟩ := hm
  obtain ⟨l, hl, hmem⟩ := h s hs
  rw [since_quiet hq, hl]
  refine ⟨_, rfl, fun e he => ?_⟩
  rcases hend e he with hm | hm
  · exact List.mem_append_right _ hm
  · exact List.mem_append_left _ (hmem e hm)

theorem settled_quiet {more : List Event} (h : Settled rpc tr) (hq : Quiet more) :
    Settled rpc (tr ++ more) := by
  intro s hs
  exact settled_moves h hs hs ⟨more, rfl, hq, fun _ he => .inr he⟩ s hs

theorem settled_answer (h : Settled rpc tr) (a : Bytes) (st : Option WifiChangeState) :
    Settled rpc (tr ++ [.answer a st]) := by
  intro s hs
  obtain ⟨l, hl, hmem⟩ := h s hs
  have hsince : since (tr ++ [.answer a st]) = some (l ++ [.answer a st]) := by
    rw [since, List.foldl_append, ← since, hl]
    simp [sinceStep, isFactory]
  exact ⟨_, hsince, fun e he => List.mem_append_left _ (hmem e he)⟩

theorem status_moves (ticket : Bytes) (tr : List Event) :
    wp record (fun r tr' => Moves s.change.state tr r.2.change.state tr') (fun _ => True)
      (s.status ticket) tr := by
  unfold WifiSession.status
  by_cases ha : s.authorized ticket = true
  · simp only [ha, Bool.not_true, Bool.false_eq_true, if_false]
    rw [wp_ask_bind]
    refine ⟨trivial, fun now tr₁ h₁ => ?_⟩
    subst h₁
    rw [wp_bind]
    refine wp_post (tick_moves s.change now _) fun ch tr₂ _ h₂ => ⟨trivial, ?_⟩
    exact moves_trans (moves_call (c := .now) (by simp) now) h₂
  · simp only [ha]
    exact ⟨trivial, moves_refl⟩

theorem confirm_session_moves (ticket : Bytes) (tr : List Event) :
    wp record (fun r tr' => Moves s.change.state tr r.2.change.state tr') (fun _ => True)
      (s.confirm ticket) tr := by
  unfold WifiSession.confirm
  by_cases ha : s.authorized ticket = true
  · simp only [ha, Bool.not_true, Bool.false_eq_true, if_false]
    by_cases hc : s.change.state = .committed
    · simp only [hc, if_true]
      exact ⟨trivial, hc ▸ moves_refl⟩
    · simp only [hc, if_false]
      rw [wp_ask_bind]
      refine ⟨trivial, fun now tr₁ h₁ => ?_⟩
      subst h₁
      rw [wp_bind]
      refine wp_post (confirm_moves s.change ticket now _) fun r tr₂ _ h₂ => ⟨trivial, ?_⟩
      exact moves_trans (moves_call (c := .now) (by simp) now) h₂
  · simp only [ha]
    exact ⟨trivial, moves_refl⟩

theorem cancel_session_moves (ticket : Bytes) (tr : List Event) :
    wp record (fun r tr' => Moves s.change.state tr r.2.change.state tr') (fun _ => True)
      (s.cancel ticket) tr := by
  unfold WifiSession.cancel
  by_cases ha : s.authorized ticket = true
  · simp only [ha, Bool.not_true, Bool.false_eq_true, if_false]
    rw [wp_bind]
    exact wp_post (cancel_moves s.change tr) fun ch tr₁ _ h₁ => ⟨trivial, h₁⟩
  · simp only [ha]
    exact ⟨trivial, moves_refl⟩

theorem handleTicket_moves (rpc : WifiRpc) (verb ticket : Bytes) (tr : List Event) :
    wp record (fun r tr' => ∃ s', r.2.session = some s' ∧ Moves s.change.state tr s'.change.state tr')
      (fun _ => True) (handleTicket rpc s verb ticket) tr := by
  unfold handleTicket
  by_cases hstatus : verb = bytes "status"
  · simp only [hstatus, if_true]
    rw [wp_bind]
    exact wp_post (status_moves ticket tr) fun _ _ _ h => ⟨trivial, _, rfl, h⟩
  · simp only [hstatus, if_false]
    by_cases hconfirm : verb = bytes "confirm"
    · simp only [hconfirm, if_true]
      rw [wp_bind]
      exact wp_post (confirm_session_moves ticket tr) fun _ _ _ h => ⟨trivial, _, rfl, h⟩
    · simp only [hconfirm, if_false]
      by_cases hcancel : verb = bytes "cancel"
      · simp only [hcancel, if_true]
        rw [wp_bind]
        exact wp_post (cancel_session_moves ticket tr) fun _ _ _ h => ⟨trivial, _, rfl, h⟩
      · simp only [hcancel, if_false]
        exact ⟨trivial, _, rfl, moves_refl⟩

theorem quiet_outcome {p : WifiProfile} {seg : List Event} {ticket : Option Bytes} {s : WifiSession}
    (h : Outcome p seg ticket s) : Quiet seg := by
  refine quiet_calls fun e he => ?_
  obtain ⟨c, r, hcall, hc, -⟩ := outcome_calls h e he
  exact ⟨c, r, hcall, hc⟩

theorem started_settled {p : WifiProfile} {seg : List Event} {a : Bytes} (h : Started p seg a rpc')
    (tr : List Event) : Settled rpc' (tr ++ seg) := by
  have key {seg : List Event} {ticket : Option Bytes} {s : WifiSession} (ho : Outcome p seg ticket s) :
      Settled ⟨true, some s⟩ (tr ++ .call .factory true :: seg) := by
    have hquiet : Quiet seg := quiet_outcome ho
    have hsince : since (tr ++ .call .factory true :: seg) = some seg := by
      rw [List.append_cons, since_quiet hquiet]
      simp [since, sinceStep, isFactory]
    intro s' hs'
    cases hs'
    refine ⟨seg, hsince, fun e he => ?_⟩
    cases ho with
    | notPrepared t d r _ ht hs => cases r <;> simp_all [ending]
    | notActivated t d r _ ht hs => cases r <;> simp_all [ending]
    | _ => simp_all [ending]
  cases h with
  | noBackend =>
    intro s hs
    cases hs
  | failed ho => exact key ho
  | opened ho => exact key ho

theorem handle_settles {kdf : Pbkdf2} (h : Settled rpc tr) (p : Bytes) :
    wp record (fun r tr' => Settled r.2 tr') (fun _ => True) (rpc.handle kdf p) (tr ++ [.packet p]) := by
  have h₀ : Settled rpc (tr ++ [.packet p]) := settled_quiet h (quiet_packet p)
  unfold handle
  by_cases hbad : p.length > 256 ∨ 0 ∈ p
  · simp only [hbad, if_true]
    exact ⟨trivial, h₀⟩
  · simp only [hbad, if_false]
    split
    · split
      · rename_i verb ssidHex pskHex hf hv
        by_cases hr : (rpc.session.any fun s => !s.finished) = true ∨ ¬ hex ssidHex 2 64 ∨
            ¬ hex pskHex 64 64 ∨ ∃ e, WifiProfile.make kdf (decodeHex ssidHex) pskHex = .error e
        · rw [handleStart_refused hr]
          exact ⟨trivial, h₀⟩
        · simp only [not_or, Bool.not_eq_true, Bool.not_eq_false, not_exists] at hr
          obtain ⟨hs, hssid, hpsk, hp⟩ := hr
          cases hmake : WifiProfile.make kdf (decodeHex ssidHex) pskHex with
          | error e => exact absurd hmake (hp e)
          | ok profile =>
            refine wp_post (handleStart_spec hs hssid hpsk hmake _) fun r tr' _ hst => ?_
            obtain ⟨seg, htr, hst⟩ := hst
            exact htr ▸ started_settled hst _
      · exact ⟨trivial, h₀⟩
    · rename_i verb ticket s hf hs
      split
      · refine wp_post (handleTicket_moves rpc verb ticket _) fun r tr' _ hm => ?_
        obtain ⟨s', hs', hm⟩ := hm
        exact settled_moves h₀ hs hs' hm
      · exact ⟨trivial, h₀⟩
    · exact ⟨trivial, h₀⟩

theorem tick_settles (h : Settled rpc tr) :
    wp record (fun rpc' tr' => Settled rpc' tr') (fun _ => True) rpc.tick (tr ++ [.tick]) := by
  have h₀ : Settled rpc (tr ++ [.tick]) := settled_quiet h (by simp [Quiet, isFactory, opened])
  unfold tick
  cases hs : rpc.session with
  | none => exact ⟨trivial, h₀⟩
  | some s =>
    simp only [WifiSession.tick, bind_assoc]
    rw [wp_ask_bind]
    refine ⟨trivial, fun now tr₁ h₁ => ?_⟩
    subst h₁
    rw [wp_bind]
    refine wp_post (tick_moves s.change now _) fun ch tr₂ _ h₂ => ⟨trivial, ?_⟩
    exact settled_moves h₀ hs rfl (moves_trans (moves_call (c := .now) (by simp) now) h₂)

end

/-! ## An answer that names no change -/

theorem tick_still {ch : WifiChange} (hi : ch.state = .idle) (now : Int) : ch.tick now = pure ch := by
  simp [WifiChange.tick, WifiChange.pending, hi]

theorem handleTicket_still {rpc : WifiRpc} {s : WifiSession} (hi : s.change.state = .idle)
    (verb ticket : Bytes) : Uses (fun c => c.changes = false) (handleTicket rpc s verb ticket) := by
  have hstatus : Uses (fun c => c.changes = false) (s.status ticket) := by
    unfold WifiSession.status
    cases s.authorized ticket with
    | false => trivial
    | true =>
      refine uses_bind (p := ask _) ⟨rfl, fun _ => trivial⟩ fun now => ?_
      rw [tick_still hi]
      trivial
  have hconfirm : Uses (fun c => c.changes = false) (s.confirm ticket) := by
    unfold WifiSession.confirm WifiChange.confirm
    cases s.authorized ticket with
    | false => trivial
    | true =>
      simp only [hi]
      refine uses_bind (p := ask _) ⟨rfl, fun _ => trivial⟩ fun now => ?_
      simp only [tick_still hi]
      simp [hi]
      trivial
  have hcancel : Uses (fun c => c.changes = false) (s.cancel ticket) := by
    unfold WifiSession.cancel WifiChange.cancel
    cases s.authorized ticket with
    | false => trivial
    | true =>
      simp [WifiChange.pending, hi]
      trivial
  unfold handleTicket
  by_cases hs : verb = bytes "status"
  · simp only [hs, if_true]
    exact uses_bind hstatus fun _ => trivial
  · simp only [hs, if_false]
    by_cases hc : verb = bytes "confirm"
    · simp only [hc, if_true]
      exact uses_bind hconfirm fun _ => trivial
    · simp only [hc, if_false]
      by_cases hk : verb = bytes "cancel"
      · simp only [hk, if_true]
        exact uses_bind hcancel fun _ => trivial
      · simp only [hk, if_false]
        trivial

theorem handle_still {kdf : Pbkdf2} {rpc : WifiRpc} {s : WifiSession} {packet verb ticket : Bytes}
    (hs : rpc.session = some s) (hi : s.change.state = .idle)
    (hf : packet.splitOn (byte '|') = [verb, ticket]) :
    Uses (fun c => c.changes = false) (rpc.handle kdf packet) := by
  unfold handle
  by_cases hbad : packet.length > 256 ∨ 0 ∈ packet
  · simp only [hbad, if_true]
    trivial
  · simp only [hbad, if_false, hf, hs]
    by_cases hhex : hex ticket 64 64 = true
    · simp only [hhex, if_true]
      exact handleTicket_still hi verb ticket
    · simp only [hhex]
      trivial

theorem rejected_still {kdf : Pbkdf2} {rpc rpc' : WifiRpc} {tr seg : List Event} {packet a : Bytes}
    (hr : Runs record (rpc.handle kdf packet) tr (a, rpc') (tr ++ seg)) (ha : a = rejected) :
    ∀ c r, .call c r ∈ seg → c.changes = false := by
  obtain ⟨seg', heq, hh⟩ := runs_of_wp (handled packet tr) hr
  obtain rfl := List.append_cancel_left heq
  cases hh with
  | malformed => exact absurd ha error_ne_rejected
  | refused => simp
  | started _ _ _ hs =>
    cases hs with
    | noBackend =>
      intro c r hc
      obtain ⟨rfl, -⟩ : c = .factory ∧ _ := by simpa using hc
      rfl
    | failed => exact absurd ha recoveryRequired_ne_rejected
    | @opened seg ticket s ho =>
      have hopens : opens (connecting ++ ticket) = opens rejected := congrArg opens ha
      simp [opens_connecting, opens_rejected] at hopens
  | @ticketed verb s s' seg a hf hv hs hl hk hans hseg =>
    have hidle : s.change.state = .idle := by
      rcases hans with rfl | rfl
      · exact absurd ha error_ne_rejected
      · have hword : ∀ st, stateName st = rejected → st = .idle := by
          intro st
          cases st <;> decide +kernel
        exact hk.2.mp (hword _ ha)
    have hcalls : wp record (fun _ => Grows Event.call _ tr) (Grows Event.call _ tr) (rpc.handle kdf packet) tr :=
      wp_grows (handle_still hs hidle hf) tr
    have hg := runs_of_wp hcalls hr
    obtain ⟨more, heq, hmore⟩ := grows_append hg
    obtain rfl := List.append_cancel_left heq
    intro c r hc
    obtain ⟨c', r', he, hch⟩ := hmore _ hc
    cases he
    exact hch

end WifiRpc

end EncoderNext
