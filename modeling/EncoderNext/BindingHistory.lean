import EncoderNext.Binding

/-!
# The binding policy as a function of its history

Records appear in two ways: a request registers its client with the opposite of
the flag, and the administrator's decision makes a record of its own. Whatever
the order, the answer about a client can be read off the operations: the last
decision about it, or else what the flag was at its first request.
-/

namespace EncoderNext.BindingPolicy

open Program

def switch : Op → Option Bool
  | .adminSetBinding req => some (isYes (req.get (bytes "enabled")))
  | _ => none

def decision (id : Bytes) : Op → Option Bool
  | .adminSetClientAllowed req =>
    if req.get (bytes "client_id") = [] then none
    else if req.get (bytes "client_id") = id then some (isYes (req.get (bytes "allowed")))
    else none
  | _ => none

def registers (id : Bytes) : Op → Bool
  | .register req => clientIdOf req == id
  | _ => false

def bindingOn (start : Bool) (ops : List Op) : Bool := (ops.filterMap switch).getLast?.getD start

def lastDecision (id : Bytes) (ops : List Op) : Option Bool := (ops.filterMap (decision id)).getLast?

def flagAtFirst (start : Bool) (id : Bytes) (ops : List Op) : Option Bool :=
  if ops.any (registers id) then
    some (bindingOn start (ops.takeWhile fun op => !registers id op))
  else none

inductive Ran (start : Bool) : List Op → BindingPolicy → Prop where
  | nil : Ran start [] { enabled := start }
  | snoc {ops : List Op} {policy policy' : BindingPolicy} (op : Op) {W : Type}
      {env : Env W ServerCall ServerCall.Reply} {w w' : W} : Ran start ops policy →
      Runs env (op.run policy) w policy' w' → Ran start (ops ++ [op]) policy'

/-! ## One more operation -/

theorem bindingOn_snoc (start : Bool) (ops : List Op) (op : Op) :
    bindingOn start (ops ++ [op]) = (switch op).getD (bindingOn start ops) := by
  unfold bindingOn
  cases h : switch op <;> simp [h]

theorem lastDecision_snoc (id : Bytes) (ops : List Op) (op : Op) :
    lastDecision id (ops ++ [op]) = (decision id op <|> lastDecision id ops) := by
  unfold lastDecision
  cases h : decision id op <;> simp [h]

theorem flagAtFirst_snoc (start : Bool) (id : Bytes) (ops : List Op) (op : Op) :
    flagAtFirst start id (ops ++ [op]) = (flagAtFirst start id ops <|>
      if registers id op then some (bindingOn start ops) else none) := by
  unfold flagAtFirst
  by_cases h : ops.any (registers id)
  · have hlength : (ops.takeWhile fun op => !registers id op).length ≠ ops.length := by
      intro he
      obtain ⟨op', hop', hr⟩ := List.any_eq_true.mp h
      have hall := List.takeWhile_eq_self_iff.mp ((List.takeWhile_prefix _).eq_of_length he)
      have hnot := hall op' hop'
      rw [hr] at hnot
      cases hnot
    simp [h, List.takeWhile_append, hlength]
  · have hnone : ∀ op ∈ ops, registers id op = false := by simpa using h
    have hall : (ops.takeWhile fun op => !registers id op) = ops :=
      List.takeWhile_eq_self_iff.mpr fun op hop => by simp [hnone op hop]
    by_cases hr : registers id op
    · simp [h, List.takeWhile_append, hall, hr]
    · simp [h, hr]

def verdict (policy : BindingPolicy) (id : Bytes) : Option Bool :=
  (policy.clients.lookup id).map ClientBindingRecord.allowed

theorem isClientAllowed_eq (policy : BindingPolicy) (id : Bytes) :
    policy.isClientAllowed id = (!policy.enabled || (policy.verdict id).getD false) := by
  unfold isClientAllowed verdict
  cases policy.enabled
  · rfl
  · cases policy.clients.lookup id <;> rfl

theorem verdict_insert (policy : BindingPolicy) (id id' : Bytes) (rec : ClientBindingRecord) :
    verdict { policy with clients := policy.clients.insert id' rec } id =
      if id' = id then some rec.allowed else policy.verdict id := by
  unfold verdict
  by_cases h : id' = id
  · subst h
    simp
  · simp [h, AList.lookup_insert_ne (Ne.symm h)]

theorem verdict_registered (policy : BindingPolicy) (id id' label : Bytes) (now : Int) :
    (policy.registered id' label now).verdict id =
      if id' = id then some ((policy.verdict id).getD !policy.enabled) else policy.verdict id := by
  rw [registered, verdict_insert]
  by_cases h : id' = id
  · subst h
    unfold verdict
    cases policy.clients.lookup id' <;> simp
  · simp [h]

def Leaves (policy : BindingPolicy) (op : Op) (policy' : BindingPolicy) : Prop :=
  policy'.enabled = (switch op).getD policy.enabled ∧
    ∀ id, policy'.verdict id = (decision id op <|>
      if registers id op then some ((policy.verdict id).getD !policy.enabled) else policy.verdict id)

theorem op_leaves {W : Type} {env : Env W ServerCall ServerCall.Reply} (policy : BindingPolicy)
    (op : Op) (w : W) :
    wp env (fun policy' _ => Leaves policy op policy') (fun _ => True) (op.run policy) w := by
  cases op with
  | register req =>
    refine ⟨trivial, fun now w₁ _ => ⟨trivial, fun _ w₂ _ => ⟨trivial, rfl, fun id => ?_⟩⟩⟩
    simp [decision, registers, verdict_registered]
  | adminSetBinding req => exact ⟨trivial, fun _ w₁ _ => ⟨trivial, rfl, fun id => rfl⟩⟩
  | adminSetClientAllowed req =>
    by_cases hid : req.get (bytes "client_id") = []
    · rw [Op.run, if_pos hid]
      exact ⟨trivial, rfl, fun id => by simp [decision, registers, hid]⟩
    · have hleaves : ∀ rec : ClientBindingRecord,
          Leaves policy (.adminSetClientAllowed req) { policy with
            clients := policy.clients.insert (req.get (bytes "client_id"))
              { rec with allowed := isYes (req.get (bytes "allowed")) } } := by
        refine fun rec => ⟨rfl, fun id => ?_⟩
        rw [verdict_insert]
        by_cases h : req.get (bytes "client_id") = id
        · subst h
          simp [decision, hid]
        · simp [decision, registers, h]
      rw [Op.run, if_neg hid, setClientAllowed]
      dsimp only
      by_cases hzero : ((policy.clients.lookup (req.get (bytes "client_id"))).getD {}).firstSeenTs = 0
      · rw [if_pos hzero]
        exact ⟨trivial, fun now w₁ _ => ⟨trivial, fun _ w₂ _ => ⟨trivial, hleaves _⟩⟩⟩
      · rw [if_neg hzero]
        exact ⟨trivial, fun _ w₁ _ => ⟨trivial, hleaves _⟩⟩

/-! ## The whole history -/

theorem ran_verdict {start : Bool} {ops : List Op} {policy : BindingPolicy}
    (h : Ran start ops policy) : policy.enabled = bindingOn start ops ∧
      ∀ id, policy.verdict id = (lastDecision id ops <|> (flagAtFirst start id ops).map not) := by
  induction h with
  | nil => exact ⟨rfl, fun id => rfl⟩
  | snoc op _ hr ih =>
    obtain ⟨henabled, hverdict⟩ := ih
    obtain ⟨henabled', hverdict'⟩ := runs_of_wp (op_leaves _ op _) hr
    refine ⟨by rw [henabled', henabled, bindingOn_snoc], fun id => ?_⟩
    rw [hverdict', hverdict, henabled, lastDecision_snoc, flagAtFirst_snoc]
    cases decision id op with
    | some b => rfl
    | none =>
      by_cases hreg : registers id op
      · -- the first registration decides, unless something is recorded already
        simp only [hreg, if_true]
        cases lastDecision id _ <;> cases flagAtFirst start id _ <;> rfl
      · simp [hreg]

/-- **The policy is its history.** With binding off every client is let in. With
binding on the last decision about a client counts, without one the flag at its
first registration, and a client that was in no operation is refused. -/
theorem allowed_of_history {start : Bool} {ops : List Op} {policy : BindingPolicy}
    (h : Ran start ops policy) (id : Bytes) :
    (bindingOn start ops = false → policy.isClientAllowed id = true) ∧
    (bindingOn start ops = true →
      (∀ allowed, lastDecision id ops = some allowed → policy.isClientAllowed id = allowed) ∧
      (lastDecision id ops = none →
        (policy.isClientAllowed id = true ↔ flagAtFirst start id ops = some false)) ∧
      ((∀ op ∈ ops, decision id op = none ∧ registers id op = false) →
        policy.isClientAllowed id = false)) := by
  obtain ⟨henabled, hverdict⟩ := ran_verdict h
  rw [isClientAllowed_eq, henabled, hverdict]
  refine ⟨fun hoff => by simp [hoff], fun hon => ⟨fun allowed hlast => ?_, fun hlast => ?_, fun hseen => ?_⟩⟩
  · simp [hon, hlast]
  · cases hfirst : flagAtFirst start id ops <;> simp [hon, hlast]
  · have hlast : lastDecision id ops = none := by
      have hnone : ops.filterMap (decision id) = [] :=
        List.filterMap_eq_nil_iff.mpr fun op hop => (hseen op hop).1
      simp [lastDecision, hnone]
    have hfirst : flagAtFirst start id ops = none := by
      have hany : ops.any (registers id) = false := by simpa using fun op hop => (hseen op hop).2
      simp [flagAtFirst, hany]
    simp [hon, hlast, hfirst]

/-! ## A client that is refused first -/

def officePc : Header :=
  (Header.set {} (bytes "client_id") (bytes "office-pc")).set (bytes "allowed") (bytes "1")

def afterOp (op : Op) (policy : BindingPolicy) : BindingPolicy :=
  (exec (fun _ (c : ServerCall) => (c.plain 0, ())) (op.run policy) ()).1

theorem ran_afterOp {start : Bool} {ops : List Op} {policy : BindingPolicy} (h : Ran start ops policy)
    (op : Op) : Ran start (ops ++ [op]) (afterOp op policy) :=
  @Ran.snoc start ops policy _ op Unit (fun _ c r _ => r = c.plain 0) () _ h
    (runs_exec (fun _ _ => rfl) (op.run policy) ())

/-- Its request is refused, and the decision then lets it in. -/
theorem allowed_of_history_sample :
    (afterOp (.adminSetClientAllowed officePc) (afterOp (.register officePc) { enabled := true })).isClientAllowed
      (bytes "office-pc") = true :=
  ((allowed_of_history (ran_afterOp (ran_afterOp (.nil : Ran true [] _) (.register officePc))
    (.adminSetClientAllowed officePc)) (bytes "office-pc")).2 (by decide)).1 true (by decide)

end EncoderNext.BindingPolicy
