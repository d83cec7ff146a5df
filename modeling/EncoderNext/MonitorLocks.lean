import EncoderNext.MonitorEffect

/-!
# Locks over whole runs

A lock that is taken is at least a second long, and only ends early when its account
is unlocked. Whether any lock is taken depends on the rules alone; the lengths in
the configuration do not turn them off.
-/

namespace EncoderNext.SecurityMonitor

open Program

variable {cfg : MonitorConfig} {now hour : Int}

/-! ## The locks of one event -/

theorem lockLadderSec_pos (strike : UInt32) : 0 < lockLadderSec strike := by
  have hall : ∀ i ≤ 5, 0 < lockLadder.getD i 7200 := by decide
  exact hall _ (Nat.min_le_right _ 5)

theorem chooseLockDuration_pos (s : UserStats) (sec : Int) : 0 < (chooseLockDuration s sec).2 := by
  unfold chooseLockDuration
  by_cases hs : sec > 0
  · simp [hs]
  · simp [hs, lockLadderSec_pos]

theorem withLock_until (s : UserStats) (sec : Int) :
    (withLock s sec now).lockUntilTs = max s.lockUntilTs (now + (chooseLockDuration s sec).2) := by
  unfold withLock
  rw [(chooseLockDuration_counts s sec).2]

theorem applyRules_until : ∀ {rs : List Rule}, (∀ r ∈ rs, r.Modest) → ∀ s,
    s.lockUntilTs ≤ (applyRules now rs s).1.lockUntilTs ∧
      ∀ d ∈ (applyRules now rs s).2, now + d ≤ (applyRules now rs s).1.lockUntilTs
  | [], _, s => by simp [applyRules]
  | r :: rs, h, s => by
    have ih := applyRules_until fun r' hr' => h r' (List.mem_cons_of_mem _ hr')
    rw [applyRules]
    by_cases hf : r.fires s = true
    · rw [if_pos hf]
      obtain ⟨hle, htaken⟩ := ih (withLock (r.note s) r.sec now)
      rw [withLock_until, (h r (List.mem_cons_self ..) s).2] at hle
      refine ⟨(le_max_left _ _).trans hle, fun d hd => ?_⟩
      rcases List.mem_cons.mp hd with rfl | hd
      · exact (le_max_right _ _).trans hle
      · exact htaken d hd
    · rw [if_neg hf]
      exact ih s

theorem applyRules_quiet {rs : List Rule} {s : UserStats} (h : ∀ r ∈ rs, ¬ r.fires s = true) :
    applyRules now rs s = (s, []) := by
  induction rs with
  | nil => rfl
  | cons r rs ih =>
    rw [applyRules, if_neg (h r (by simp))]
    exact ih fun r' hr' => h r' (by simp [hr'])

/-- The first rule that fires on the counted statistics takes a lock. -/
theorem applyRules_fires {rs : List Rule} {s : UserStats} (h : ∃ r ∈ rs, r.fires s = true) :
    ∃ d ∈ (applyRules now rs s).2, 0 < d := by
  induction rs with
  | nil => simp at h
  | cons r rs ih =>
    rw [applyRules]
    by_cases hf : r.fires s = true
    · rw [if_pos hf]
      exact ⟨_, List.mem_cons_self .., chooseLockDuration_pos (r.note s) r.sec⟩
    · rw [if_neg hf]
      apply ih
      obtain ⟨r', hr', hf'⟩ := h
      rcases List.mem_cons.mp hr' with rfl | hr'
      · exact absurd hf' hf
      · exact ⟨r', hr', hf'⟩

theorem counted_until (s : UserStats) {op : Op} (hop : ∀ who, op ≠ .unlock who) :
    (counted cfg now hour s op).lockUntilTs = s.lockUntilTs := by
  cases op with
  | failure who | success who => rfl
  | unlock who => exact absurd rfl (hop who)
  | fileOp who op count size =>
    unfold counted
    dsimp only
    by_cases hd : op = bytes "decrypt"
    · rw [if_pos hd]
      rfl
    · rw [if_neg hd]
      rfl

theorem recorded_until (s : UserStats) (op : Op) :
    (counted cfg now hour s op).lockUntilTs ≤ (recorded cfg now hour s op).1.lockUntilTs ∧
      ∀ d ∈ (recorded cfg now hour s op).2, now + d ≤ (recorded cfg now hour s op).1.lockUntilTs :=
  applyRules_until (modest_rules s op) _

/-! ## One call -/

section
variable {table table' : Table UserStats} {call : Call} {log : List ServerCall}
  (h : Runs (moment now hour) (call.run cfg table) [] table' log)
include h

theorem lookup_other {name : Bytes} (hn : ∀ op, call = .record op → name ≠ op.who) :
    table'.lookup name = table.lookup name := by
  rcases call_cases h with ⟨op, rfl, rfl, -⟩ | ⟨rfl, -⟩
  · exact AList.lookup_insert_ne (hn op rfl)
  · rfl

theorem until_grows {name : Bytes} (hn : call ≠ .record (.unlock name)) :
    (lookup table name).lockUntilTs ≤ (lookup table' name).lockUntilTs := by
  rcases call_cases h with ⟨op, rfl, rfl, -⟩ | ⟨rfl, -⟩
  · by_cases hw : name = op.who
    · subst hw
      have hop : ∀ who, op ≠ .unlock who := by
        rintro who rfl
        exact hn rfl
      have hle := (@recorded_until cfg now hour (lookup table op.who) op).1
      rw [counted_until _ hop] at hle
      simpa [SecurityMonitor.lookup] using hle
    · simp [SecurityMonitor.lookup, AList.lookup_insert_ne hw]
  · exact le_rfl

end

theorem lockDetail_sec {t t' d d' : Int} {reason reason' : Bytes}
    (h : lockDetail t reason d = lockDetail t' reason' d') : d = d' := by
  have hcut (t d : Int) (reason : Bytes) : splitAt? (byte '=') (lockDetail t reason d).reverse =
      some ((decimalInt d).reverse,
        (bytes "locked_until=" ++ decimalInt t ++ bytes " reason=" ++ reason ++ bytes " lock_sec").reverse) := by
    have hsplit : lockDetail t reason d = bytes "locked_until=" ++ decimalInt t ++ bytes " reason=" ++
        reason ++ bytes " lock_sec" ++ byte '=' :: decimalInt d := by
      unfold lockDetail
      simp only [List.append_assoc]
      rfl
    rw [hsplit, List.reverse_append, List.reverse_cons, List.append_assoc]
    apply splitAt?_append
    rw [List.mem_reverse]
    exact not_numeral rfl (decimalInt_numeral d)
  have hsame := hcut t d reason
  rw [h, hcut] at hsame
  simp only [Option.some.injEq, Prod.mk.injEq, List.reverse_inj] at hsame
  exact (decimalInt_injective hsame.1).symm

section
variable {table table' : Table UserStats} {call : Call} {log : List ServerCall}

theorem until_of_locks (h : Runs (moment now hour) (call.run cfg table) [] table' log) {name : Bytes}
    {d : Int} (hl : ∃ c ∈ log, Locks name d c) : now + d ≤ (lookup table' name).lockUntilTs := by
  obtain ⟨c, hc, t, reason, rfl⟩ := hl
  rcases call_cases h with ⟨op, rfl, rfl, new, hlog, hnew⟩ | ⟨-, hquiet, -⟩
  · rw [List.nil_append] at hlog
    obtain ⟨d', hd', t', reason', he⟩ := hnew _ (hlog ▸ hc) ⟨_, _, rfl⟩
    injection he with _ hwho hdetail
    subst hwho
    obtain rfl := lockDetail_sec hdetail
    have hle := (@recorded_until cfg now hour (lookup table op.who) op).2 d hd'
    simpa [SecurityMonitor.lookup] using hle
  · exact absurd ⟨_, _, rfl⟩ (hquiet _ hc)

end

/-! ## Runs -/

theorem isLocked_reads {table : Table UserStats} {who : Bytes} {r : Option Int} {log : List ServerCall}
    (h : Runs (moment now hour) (isLocked table who) [] r log) : r = lockedAt table who now := by
  have hspec : wp (moment now hour) (fun r (_ : List ServerCall) => r = lockedAt table who now)
      (fun _ => True) (isLocked table who) [] := by
    refine ⟨trivial, fun (t : Int) l h₁ => ⟨trivial, ?_⟩⟩
    obtain rfl : t = now := h₁.2
    rfl
  exact runs_of_wp (Q := fun r _ => r = lockedAt table who now) hspec h

theorem locked_iff_until (table : Table UserStats) (who : Bytes) (t : Int) :
    (lockedAt table who t).isSome = true ↔
      (table.lookup who).isSome = true ∧ t < (lookup table who).lockUntilTs := by
  unfold lockedAt SecurityMonitor.lookup
  cases table.lookup who with
  | none => simp
  | some stats =>
    by_cases hle : stats.lockUntilTs ≤ t
    · simp [hle]
    · simp [hle]
      omega

section
variable {first last : Table UserStats} {steps : List Step}

theorem known_stays (h : Trace cfg first steps last) {name : Bytes}
    (hf : (first.lookup name).isSome = true) : (last.lookup name).isSome = true := by
  induction h with
  | nil => exact hf
  | snoc call now hour _ hr ih =>
    rcases call_cases hr with ⟨op, rfl, rfl, -⟩ | ⟨rfl, -⟩
    · by_cases hn : name = op.who
      · subst hn
        rw [AList.lookup_insert]
        rfl
      · rwa [AList.lookup_insert_ne hn]
    · exact ih

theorem until_run (h : Trace cfg first steps last) {name : Bytes}
    (hno : ∀ s ∈ steps, s.call ≠ .record (.unlock name)) :
    (lookup first name).lockUntilTs ≤ (lookup last name).lockUntilTs := by
  induction h with
  | nil => exact le_rfl
  | snoc call now hour _ hr ih =>
    have hstep := until_grows hr (hno _ (List.mem_append_right _ (List.mem_singleton_self _)))
    exact (ih fun s hs => hno s (List.mem_append_left _ hs)).trans hstep

end

/-- **Locks are kept.** A call changes the statistics of no other name; only its own
unlocking ends a name's lock earlier; and after a call that logs a lock of some
length, in every run without that, `is_locked` reports the name until that long
after the time the call read. -/
theorem locks_kept {table table' : Table UserStats} {call : Call} {log : List ServerCall}
    (h : Runs (moment now hour) (call.run cfg table) [] table' log) :
    (∀ name, (∀ op, call = .record op → name ≠ op.who) → table'.lookup name = table.lookup name) ∧
    (∀ name, call ≠ .record (.unlock name) →
      (lookup table name).lockUntilTs ≤ (lookup table' name).lockUntilTs) ∧
    ∀ name d, (∃ c ∈ log, Locks name d c) → ∀ steps last, Trace cfg table' steps last →
      (∀ s ∈ steps, s.call ≠ .record (.unlock name)) → ∀ t < now + d, ∀ hour r log',
        Runs (moment t hour) (isLocked last name) [] r log' → r.isSome = true := by
  refine ⟨fun name => lookup_other h, fun name => until_grows h, ?_⟩
  intro name d hlog steps last hrun hno t ht hour r log' hasked
  rw [isLocked_reads hasked, locked_iff_until]
  have huntil := until_of_locks h hlog
  have hlast := until_run hrun hno
  refine ⟨?_, by omega⟩
  apply known_stays hrun
  obtain ⟨c, hc, _, _, rfl⟩ := hlog
  rcases call_cases h with ⟨op, rfl, rfl, new, hnew, hlocks⟩ | ⟨-, hquiet, -⟩
  · obtain ⟨_, -, _, _, he⟩ := hlocks _ (hnew ▸ hc) ⟨_, _, rfl⟩
    injection he with _ hwho
    subst hwho
    rw [AList.lookup_insert]
    rfl
  · exact absurd ⟨_, _, rfl⟩ (hquiet _ hc)

/-! ## Alerts without locks -/

def Step.Alerts (cfg : MonitorConfig) (s : Step) : Prop :=
  match s.call with
  | .record op => ∃ r ∈ rules cfg s.now s.hour (lookup s.before op.who) op,
      r.fires (counted cfg s.now s.hour (lookup s.before op.who) op) = true
  | .isLocked _ => False

section
variable {first last : Table UserStats} {steps : List Step}

def Free (table : Table UserStats) (m : Int) : Prop :=
  ∀ who t, m ≤ t → ¬ Locked table who t

theorem free_of_start (h : ∀ who, ¬ Locked first who now) : Free first now := by
  intro who t ht hl
  have hiff := locked_iff_until first who
  obtain ⟨hsome, hlt⟩ := (hiff t).mp hl
  exact h who ((hiff now).mpr ⟨hsome, by omega⟩)

theorem free_iff (table : Table UserStats) (m : Int) :
    Free table m ↔ ∀ who, (table.lookup who).isSome = true → (lookup table who).lockUntilTs ≤ m := by
  constructor
  · intro h who hsome
    by_contra hlt
    exact h who m le_rfl ((locked_iff_until table who m).mpr ⟨hsome, by omega⟩)
  · intro h who t ht hl
    obtain ⟨hsome, hlt⟩ := (locked_iff_until table who t).mp hl
    have := h who hsome
    omega

theorem recorded_quiet {s : UserStats} {op : Op}
    (h : ¬ ∃ r ∈ rules cfg now hour s op, r.fires (counted cfg now hour s op) = true) :
    recorded cfg now hour s op = (counted cfg now hour s op, []) :=
  applyRules_quiet fun r hr hf => h ⟨r, hr, hf⟩

def Step.Known (m : Int) (s : Step) : Prop :=
  match s.call with
  | .record op => 0 ≤ m ∨ (s.before.lookup op.who).isSome = true
  | .isLocked _ => True

section
variable {m : Int} {table table' : Table UserStats} {call : Call} {log : List ServerCall}

theorem free_step (hm : m ≤ now) (hfree : Free table m) (hno : ∀ who, call ≠ .record (.unlock who))
    (h : Runs (moment now hour) (call.run cfg table) [] table' log) :
    Free table' m ↔ ¬ Step.Alerts cfg ⟨call, now, hour, table, log⟩ ∧
      Step.Known m ⟨call, now, hour, table, log⟩ := by
  rcases call_cases h with ⟨op, rfl, rfl, -⟩ | ⟨rfl, -, hcall⟩
  · have hop : ∀ who, op ≠ .unlock who := by
      rintro who rfl
      exact hno who rfl
    have hown : (lookup (table.insert op.who (recorded cfg now hour (lookup table op.who) op).1)
        op.who) = (recorded cfg now hour (lookup table op.who) op).1 := lookup_insert ..
    obtain ⟨hgrows, htaken⟩ := @recorded_until cfg now hour (lookup table op.who) op
    rw [counted_until _ hop] at hgrows
    rw [free_iff] at hfree ⊢
    constructor
    · intro hafter
      have hle := hafter op.who (by rw [AList.lookup_insert]; rfl)
      rw [hown] at hle
      refine ⟨fun hfires => ?_, ?_⟩
      · obtain ⟨d, hd, hpos⟩ := @applyRules_fires now _ _ hfires
        have := htaken d hd
        omega
      -- a name that is not in the table starts with a lock that ended in 1970
      · by_contra hnew
        simp only [Step.Known, not_or] at hnew
        have hnone : table.lookup op.who = none := by simpa using hnew.2
        have hzero : (lookup table op.who).lockUntilTs = 0 := by rw [lookup_none hnone]
        omega
    · rintro ⟨hquiet, hknown⟩ who hsome
      by_cases hw : who = op.who
      · subst hw
        rw [hown, recorded_quiet hquiet]
        show (counted cfg now hour (lookup table op.who) op).lockUntilTs ≤ m
        rw [counted_until _ hop]
        cases hl : table.lookup op.who with
        | some stats => exact hfree op.who (by simp [hl])
        | none =>
          rw [lookup_none hl]
          have hm0 : 0 ≤ m ∨ (table.lookup op.who).isSome = true := hknown
          rw [hl] at hm0
          simpa using hm0
      · rw [AList.lookup_insert_ne hw] at hsome
        rw [lookup_insert_ne hw]
        exact hfree who hsome
  · rcases hcall with ⟨who, rfl⟩ | ⟨who, rfl, -⟩
    · exact ⟨fun _ => ⟨id, trivial⟩, fun _ => hfree⟩
    · exact absurd rfl (hno who)

theorem free_before (hno : ∀ who, call ≠ .record (.unlock who))
    (h : Runs (moment now hour) (call.run cfg table) [] table' log) (hfree : Free table' m) :
    Free table m := by
  have hrun : Trace cfg table [⟨call, now, hour, table, log⟩] table' := .snoc call now hour .nil h
  rw [free_iff] at hfree ⊢
  intro who hsome
  exact (until_grows h (hno who)).trans (hfree who (known_stays hrun hsome))

end

/-- **When the monitor only alerts.** In every run without an unlocking, whatever
lengths are configured, nobody is locked at any time from the earliest reading on
exactly when no call fires a rule; before 1970 no call may bring a new name either. -/
theorem only_alerts_iff {m : Int} (hfirst : ∀ who, ¬ Locked first who m)
    (h : Trace cfg first steps last) (hclock : ∀ s ∈ steps, m ≤ s.now)
    (hno : ∀ s ∈ steps, ∀ who, s.call ≠ .record (.unlock who)) :
    (∀ who t, m ≤ t → ¬ Locked last who t) ↔ ∀ s ∈ steps, ¬ s.Alerts cfg ∧ s.Known m := by
  show Free last m ↔ _
  induction h with
  | nil => simp [free_of_start hfirst]
  | @snoc steps table table' log call now hour hrun hr ih =>
    have hown := List.mem_append_right steps
      (List.mem_singleton_self (⟨call, now, hour, table, log⟩ : Step))
    have hbefore : ∀ s ∈ steps, s ∈ steps ++ [⟨call, now, hour, table, log⟩] := fun s hs =>
      List.mem_append_left _ hs
    have ih := ih (fun s hs => hclock s (hbefore s hs)) fun s hs => hno s (hbefore s hs)
    constructor
    · intro hfree s hs
      have hfree' := free_before (hno _ hown) hr hfree
      rcases List.mem_append.mp hs with hs | hs
      · exact ih.mp hfree' s hs
      · obtain rfl := List.mem_singleton.mp hs
        exact (free_step (hclock _ hown) hfree' (hno _ hown) hr).mp hfree
    · intro hall
      have hfree' := ih.mpr fun s hs => hall s (hbefore s hs)
      exact (free_step (hclock _ hown) hfree' (hno _ hown) hr).mpr (hall _ hown)

end

/-! ## Three failed logins -/

def momentAnswer (now hour : Int) (l : List ServerCall) (c : ServerCall) : c.Reply × List ServerCall :=
  let r : c.Reply := match c with
    | .now => now
    | .localHour _ => hour
    | c => c.plain now
  (r, l ++ [c])

theorem moment_answer (now hour : Int) (l : List ServerCall) (c : ServerCall) :
    moment now hour l c (momentAnswer now hour l c).1 (momentAnswer now hour l c).2 := by
  refine ⟨rfl, ?_⟩
  cases c with
  | now | localHour t => exact rfl
  | _ => exact trivial

def eve : Bytes := bytes "eve"

def callAt (table : Table UserStats) (op : Op) (now : Int) : Table UserStats × List ServerCall :=
  exec (momentAnswer now 12) (Call.run {} table (.record op)) []

def ran : List (Op × Int) → Table UserStats
  | [] => ∅
  | o :: os => (callAt (ran os) o.1 o.2).1

def ranSteps : List (Op × Int) → List Step
  | [] => []
  | o :: os => ranSteps os ++ [⟨.record o.1, o.2, 12, ran os, (callAt (ran os) o.1 o.2).2⟩]

theorem runs_callAt (table : Table UserStats) (op : Op) (now : Int) :
    Runs (moment now 12) (Call.run {} table (.record op)) [] (callAt table op now).1
      (callAt table op now).2 :=
  runs_exec (moment_answer now 12) _ _

theorem trace_ran : ∀ os : List (Op × Int), Trace {} ∅ (ranSteps os) (ran os)
  | [] => .nil
  | o :: os => .snoc _ o.2 12 (trace_ran os) (runs_callAt (ran os) o.1 o.2)

theorem ranSteps_spec {P : Step → Prop} {os : List (Op × Int)}
    (h : ∀ op t table log, (op, t) ∈ os → P ⟨.record op, t, 12, table, log⟩) :
    ∀ s ∈ ranSteps os, P s := by
  induction os with
  | nil => simp [ranSteps]
  | cons o os ih =>
    intro s hs
    rcases List.mem_append.mp hs with hs | hs
    · exact ih (fun op t table log ho => h op t table log (List.mem_cons_of_mem _ ho)) s hs
    · obtain rfl := List.mem_singleton.mp hs
      exact h o.1 o.2 _ _ (List.mem_cons_self ..)

def failures (ts : List Int) : List (Op × Int) := ts.map fun t => (.failure eve, t)

theorem failures_spec {op : Op} {t : Int} {ts : List Int} (h : (op, t) ∈ failures ts) :
    op = .failure eve ∧ t ∈ ts := by
  obtain ⟨t', ht', he⟩ := List.mem_map.mp h
  cases he
  exact ⟨rfl, ht'⟩

theorem locked_empty (who : Bytes) (t : Int) : ¬ Locked ∅ who t := by
  simp [Locked, lockedAt]

instance (cfg : MonitorConfig) : DecidablePred (Step.Alerts cfg)
  | ⟨.record op, now, hour, before, _⟩ =>
    inferInstanceAs (Decidable (∃ r ∈ rules cfg now hour (lookup before op.who) op,
      r.fires (counted cfg now hour (lookup before op.who) op) = true))
  | ⟨.isLocked _, _, _, _, _⟩ => isFalse id

theorem only_alerts_two : ¬ Locked (ran (failures [1000002, 1000001])) eve 1000002 := by
  have hquiet : ∀ s ∈ ranSteps (failures [1000002, 1000001]), ¬ s.Alerts {} := by decide
  refine (only_alerts_iff (m := 1000001) (fun who => locked_empty who _) (trace_ran _) ?_ ?_).mpr
    (fun s hs => ⟨hquiet s hs, ?_⟩) eve 1000002 (by decide)
  · apply ranSteps_spec
    intro op t _ _ ho
    have ht := (failures_spec ho).2
    simp only [List.mem_cons, List.not_mem_nil, or_false] at ht
    show 1000001 ≤ t
    omega
  · apply ranSteps_spec
    rintro op t _ _ ho who he
    rw [(failures_spec ho).1] at he
    cases he
  · revert s
    apply ranSteps_spec
    intro _ _ _ _ _
    exact .inl (by decide)

/-- **Zero does not turn the locks off**: the third failure locks for a minute. -/
theorem zero_locks : ∃ (cfg : MonitorConfig) (steps : List Step) (last : Table UserStats),
    cfg.lockFailedLoginSec = 0 ∧ cfg.lockBulkFilesSec = 0 ∧ cfg.lockSuspiciousTimeSec = 0 ∧
      Trace cfg ∅ steps last ∧ (∀ s ∈ steps, ∃ who, s.call = .record (.failure who)) ∧
      Locked last eve 1000003 := by
  refine ⟨{}, _, _, rfl, rfl, rfl, trace_ran (failures [1000003, 1000002, 1000001]), ?_, ?_⟩
  · apply ranSteps_spec
    intro op _ _ _ ho
    exact ⟨eve, congrArg Call.record (failures_spec ho).1⟩
  · unfold Locked
    decide

theorem locks_kept_third : (exec (momentAnswer 1000062 12)
    (isLocked (ran (failures [1000003, 1000002, 1000001])) eve) []).1.isSome = true := by
  have hlog : (callAt (ran (failures [1000002, 1000001])) (.failure eve) 1000003).2[2]? =
      some (.logEvent (bytes "user_locked") eve (lockDetail 1000063 (bytes "failed_logins") 60)) := rfl
  exact (locks_kept (runs_callAt (ran (failures [1000002, 1000001])) (.failure eve) 1000003)).2.2 eve 60
    ⟨_, List.mem_of_getElem? hlog, _, _, rfl⟩ [] _ .nil (by simp) 1000062 (by decide) 12 _ _
    (runs_exec (moment_answer 1000062 12) _ _)

end EncoderNext.SecurityMonitor
