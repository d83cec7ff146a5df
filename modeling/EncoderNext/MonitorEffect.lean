import EncoderNext.LockSound
import EncoderNext.Window

/-!
# What one event does

An event counts something for its name and then goes through its rules in order. A
rule that fires notes its alert and takes a lock, and later rules see that. Nothing
else in the table changes.
-/

namespace EncoderNext.SecurityMonitor

open Program

/-- When a rule fires, what it notes of its alert, and the configured length of its lock. -/
structure Rule where
  fires : UserStats → Bool
  note : UserStats → UserStats
  sec : Int

def withLock (stats : UserStats) (sec now : Int) : UserStats :=
  { (chooseLockDuration stats sec).1 with
    lockUntilTs := max (chooseLockDuration stats sec).1.lockUntilTs
      (now + (chooseLockDuration stats sec).2) }

/-- The statistics after the rules, and how long the locks are that they took. -/
def applyRules (now : Int) : List Rule → UserStats → UserStats × List Int
  | [], s => (s, [])
  | r :: rs, s =>
    if r.fires s then
      let after := applyRules now rs (withLock (r.note s) r.sec now)
      (after.1, (chooseLockDuration (r.note s) r.sec).2 :: after.2)
    else applyRules now rs s

/-- A clock that shows one time, in an hour of the day. The world is the calls so far. -/
def moment (now hour : Int) : Env (List ServerCall) ServerCall ServerCall.Reply := fun l c r l' =>
  l' = l ++ [c] ∧
    match c, r with
    | .now, (r : Int) => r = now
    | .localHour _, (r : Int) => r = hour
    | _, _ => True

/-! ## Locks in the audit log -/

def lockDetail (lockedUntil : Int) (reason : Bytes) (sec : Int) : Bytes :=
  bytes "locked_until=" ++ decimalInt lockedUntil ++ bytes " reason=" ++ reason ++
    bytes " lock_sec=" ++ decimalInt sec

def Locks (who : Bytes) (sec : Int) (c : ServerCall) : Prop :=
  ∃ lockedUntil reason, c = .logEvent (bytes "user_locked") who (lockDetail lockedUntil reason sec)

def IsLock (c : ServerCall) : Prop := ∃ who detail, c = .logEvent (bytes "user_locked") who detail

def Logs (who : Bytes) (taken : List Int) (l l' : List ServerCall) : Prop :=
  ∃ new, l' = l ++ new ∧ ∀ c ∈ new, IsLock c → ∃ d ∈ taken, Locks who d c

variable {who : Bytes} {l l' : List ServerCall} {cfg : MonitorConfig} {now hour : Int}

theorem Logs.nil : Logs who [] l l := ⟨[], by simp, by simp⟩

theorem Logs.snoc {c : ServerCall} (hc : ¬ IsLock c) : Logs who [] l (l ++ [c]) := by
  refine ⟨[c], rfl, fun c' hc' hl => ?_⟩
  obtain rfl := List.mem_singleton.mp hc'
  exact absurd hl hc

theorem Logs.append {ds ds' : List Int} {l'' : List ServerCall} (h : Logs who ds l l')
    (h' : Logs who ds' l' l'') : Logs who (ds ++ ds') l l'' := by
  obtain ⟨new, rfl, hnew⟩ := h
  obtain ⟨new', rfl, hnew'⟩ := h'
  refine ⟨new ++ new', by simp, fun c hc hl => ?_⟩
  rcases List.mem_append.mp hc with hc | hc
  · obtain ⟨d, hd, hdl⟩ := hnew c hc hl
    exact ⟨d, List.mem_append_left _ hd, hdl⟩
  · obtain ⟨d, hd, hdl⟩ := hnew' c hc hl
    exact ⟨d, List.mem_append_right _ hd, hdl⟩

/-! ## A rule in the program -/

def Follows (who : Bytes) (now hour : Int) (rs : List Rule) (s : UserStats)
    (p : ServerProgram UserStats) : Prop :=
  ∀ l, wp (moment now hour) (fun s' l' => s' = (applyRules now rs s).1 ∧
    Logs who (applyRules now rs s).2 l l') (fun _ => True) p l

theorem lock_eq (who reason : Bytes) (s : UserStats) (sec now : Int) :
    lock who reason s sec now = (act (.logEvent (bytes "user_locked") who
      (lockDetail (withLock s sec now).lockUntilTs reason (chooseLockDuration s sec).2)) >>= fun _ =>
        pure (withLock s sec now)) := rfl

theorem applyRules_one (r : Rule) (s : UserStats) : applyRules now [r] s =
    if r.fires s then (withLock (r.note s) r.sec now, [(chooseLockDuration (r.note s) r.sec).2])
    else (s, []) := rfl

theorem applyRules_cons (r : Rule) (rs : List Rule) (s : UserStats) : applyRules now (r :: rs) s =
    ((applyRules now rs (applyRules now [r] s).1).1,
      (applyRules now [r] s).2 ++ (applyRules now rs (applyRules now [r] s).1).2) := by
  rw [applyRules_one, applyRules]
  by_cases hf : r.fires s = true <;> simp [hf]

theorem follows_rule (r : Rule) (s : UserStats) (kind detail reason : Bytes) :
    Follows who now hour [r] s
      (if r.fires s then do act (.logAlert kind who detail); lock who reason (r.note s) r.sec now
        else return s) := by
  intro l
  rw [applyRules_one]
  by_cases hf : r.fires s = true
  · rw [if_pos hf, if_pos hf, lock_eq, wp_ask_bind]
    refine ⟨trivial, fun _ l₁ h₁ => ?_⟩
    rw [wp_ask_bind]
    refine ⟨trivial, fun _ l₂ h₂ => ⟨trivial, rfl, ?_⟩⟩
    obtain ⟨rfl, -⟩ := h₁
    obtain ⟨rfl, -⟩ := h₂
    refine ⟨[_, _], List.append_assoc .., fun c hc hl => ?_⟩
    simp only [List.mem_cons, List.not_mem_nil, or_false] at hc
    rcases hc with rfl | rfl
    · obtain ⟨_, _, he⟩ := hl
      cases he
    · exact ⟨_, List.mem_singleton_self _, _, reason, rfl⟩
  · rw [if_neg hf, if_neg hf]
    exact ⟨trivial, rfl, .nil⟩

theorem follows_bind {r : Rule} {rs : List Rule} {s : UserStats} {p : ServerProgram UserStats}
    {f : UserStats → ServerProgram UserStats} (hp : Follows who now hour [r] s p)
    (hf : ∀ s, Follows who now hour rs s (f s)) : Follows who now hour (r :: rs) s (p >>= f) := by
  intro l
  rw [wp_bind]
  refine wp_post (hp l) fun s₁ l₁ _ h₁ => ?_
  obtain ⟨rfl, h₁⟩ := h₁
  refine wp_post (hf _ l₁) fun s₂ l₂ _ h₂ => ?_
  obtain ⟨rfl, h₂⟩ := h₂
  rw [applyRules_cons r rs s]
  exact ⟨rfl, h₁.append h₂⟩

/-! ## The rules -/

section
variable (cfg : MonitorConfig) (now hour : Int)

def failedRule : Rule where
  fires s := s.failedLoginTimes.length ≥ cfg.failedLoginThreshold &&
    now - s.lastFailedAlertTs > cfg.alertCooldownSec
  note s := { s with lastFailedAlertTs := now }
  sec := cfg.lockFailedLoginSec

/-- The hour is judged by what was counted before this login. -/
def timeRule (before : UserStats) : Rule where
  fires s := isSuspiciousHour cfg before hour && now - s.lastTimeAlertTs > cfg.alertCooldownSec
  note s := { s with lastTimeAlertTs := now }
  sec := cfg.lockSuspiciousTimeSec

def bulkFilesRule : Rule where
  fires s := s.fileOpTimes.length ≥ cfg.bulkFilesThreshold &&
    now - s.lastBulkAlertTs > cfg.alertCooldownSec
  note s := { s with lastBulkAlertTs := now }
  sec := cfg.lockBulkFilesSec

def decryptBurstRule : Rule where
  fires s := s.decryptTimes.length ≥ cfg.decryptBurstThreshold &&
    now - s.lastDecryptRateAlertTs > cfg.alertCooldownSec
  note s := { s with lastDecryptRateAlertTs := now }
  sec := cfg.lockBulkFilesSec

def windowBytes (s : UserStats) : UInt64 :=
  s.decryptSizeTimes.foldl (fun sum item => sum + UInt64.ofNat item.2) 0

def decryptVolumeRule : Rule where
  fires s := cfg.decryptVolumeThresholdMb * 1024 * 1024 > 0 &&
    windowBytes s ≥ cfg.decryptVolumeThresholdMb * 1024 * 1024 &&
    now - s.lastDecryptVolumeAlertTs > cfg.alertCooldownSec
  note s := { s with lastDecryptVolumeAlertTs := now }
  sec := cfg.lockBulkFilesSec

def deviationRule (size : Nat) : Rule where
  fires s := s.totalDecryptOps.toNat ≥ cfg.profileMinDecryptSamples &&
    (rateAnomaly cfg s || bytesAnomaly cfg s size) &&
    now - s.lastDecryptRateAlertTs > cfg.alertCooldownSec
  note s := { s with lastDecryptRateAlertTs := now }
  sec := cfg.lockSuspiciousTimeSec

def decryptRules (size : Nat) : List Rule :=
  [decryptBurstRule cfg now, decryptVolumeRule cfg now, deviationRule cfg now size]

def rules (before : UserStats) : Op → List Rule
  | .failure _ => [failedRule cfg now]
  | .success _ => [timeRule cfg now hour before]
  | .fileOp _ op _ size =>
    bulkFilesRule cfg now :: if op = bytes "decrypt" then decryptRules cfg now size else []
  | .unlock _ => []

/-! ## What is counted -/

def countDecrypt (repeats size : Nat) (s : UserStats) : UserStats :=
  { s with
    totalDecryptOps := s.totalDecryptOps + UInt64.ofNat repeats
    totalDecryptBytes := s.totalDecryptBytes + UInt64.ofNat size
    decryptTimes := window cfg.decryptBurstWindowSec now (s.decryptTimes ++ List.replicate repeats now)
    decryptSizeTimes := (s.decryptSizeTimes ++ [(now, size)]).dropWhile fun item =>
      now - item.1 > cfg.decryptVolumeWindowSec }

def repeats (count : Nat) : Nat := if count = 0 then 1 else count

def countFiles (count : Nat) (s : UserStats) : UserStats :=
  { s with
    fileOpTimes := window cfg.bulkFilesWindowSec now
      (s.fileOpTimes ++ List.replicate (repeats count) now) }

def counted (s : UserStats) : Op → UserStats
  | .failure _ => { s with
      failedLoginTimes := window cfg.failedLoginWindowSec now (s.failedLoginTimes ++ [now]) }
  | .success _ => { s with
      totalLogins := s.totalLogins + 1
      hourCounts := if hour ≥ 0 ∧ hour < 24 then countHour s hour.toNat else s.hourCounts
      failedLoginTimes := []
      strikeLevel := if s.strikeLevel > 0 then s.strikeLevel - 1 else s.strikeLevel }
  | .fileOp _ op count size =>
    if op = bytes "decrypt" then countDecrypt cfg now (repeats count) size (countFiles cfg now count s)
    else countFiles cfg now count s
  | .unlock _ => { s with lockUntilTs := 0, strikeLevel := 0 }

def recorded (s : UserStats) (op : Op) : UserStats × List Int :=
  applyRules now (rules cfg now hour s op) (counted cfg now hour s op)

end

/-! ## The program does so -/

theorem follows_decrypt (size : Nat) (s : UserStats) :
    Follows who now hour (decryptRules cfg now size) s (do
      let s ← burstRule cfg who now s
      let s ← volumeRule cfg who now s
      profileRule cfg who size now s) := by
  apply follows_bind (follows_rule (decryptBurstRule cfg now) s _ _ _)
  intro s
  apply follows_bind (follows_rule (decryptVolumeRule cfg now) s _ _ _)
  intro s
  exact follows_rule (deviationRule cfg now size) s _ _ _

/-- The bulk rule does not look at what a decryption counts. -/
theorem bulk_countDecrypt (repeats size : Nat) (s : UserStats) :
    applyRules now [bulkFilesRule cfg now] (countDecrypt cfg now repeats size s) =
      (countDecrypt cfg now repeats size (applyRules now [bulkFilesRule cfg now] s).1,
        (applyRules now [bulkFilesRule cfg now] s).2) := by
  have hfires : (bulkFilesRule cfg now).fires (countDecrypt cfg now repeats size s) =
      (bulkFilesRule cfg now).fires s := rfl
  rw [applyRules_one, applyRules_one, hfires]
  by_cases hf : (bulkFilesRule cfg now).fires s = true
  · rw [if_pos hf, if_pos hf]
    unfold withLock chooseLockDuration
    by_cases hsec : (bulkFilesRule cfg now).sec > 0
    · rw [if_pos hsec, if_pos hsec]
      rfl
    · rw [if_neg hsec, if_neg hsec]
      by_cases hstrike : s.strikeLevel < 1000
      · simp only [bulkFilesRule, countDecrypt, hstrike, if_true]
      · simp only [bulkFilesRule, countDecrypt, hstrike, if_false]
  · rw [if_neg hf, if_neg hf]

variable {table : Table UserStats}

theorem lookup_insert (who : Bytes) (s : UserStats) : lookup (table.insert who s) who = s := by
  simp [lookup]

theorem lookup_insert_ne {who name : Bytes} (h : name ≠ who) (s : UserStats) :
    lookup (table.insert who s) name = lookup table name := by
  unfold lookup
  rw [AList.lookup_insert_ne h]

theorem lookup_none {who : Bytes} (h : table.lookup who = none) : lookup table who = {} := by
  simp [lookup, h]

def Leaves (cfg : MonitorConfig) (now hour : Int) (table : Table UserStats) (op : Op)
    (l : List ServerCall) (table' : Table UserStats) (l' : List ServerCall) : Prop :=
  table' = table.insert op.who (recorded cfg now hour (lookup table op.who) op).1 ∧
    Logs op.who (recorded cfg now hour (lookup table op.who) op).2 l l'

theorem keep_leaves (op : Op) {s : UserStats} {taken : List Int} {l₀ : List ServerCall}
    (hr : recorded cfg now hour (lookup table op.who) op = (s, taken)) (hl : Logs op.who taken l₀ l) :
    wp (moment now hour) (Leaves cfg now hour table op l₀) (fun _ => True) (keep table op.who s) l := by
  unfold Leaves
  rw [hr]
  refine ⟨trivial, fun _ l₁ h₁ => ⟨trivial, rfl, ?_⟩⟩
  obtain ⟨rfl, -⟩ := h₁
  have hsave (t : Table UserStats) : Logs op.who [] l (l ++ [ServerCall.saveStats t]) := by
    apply Logs.snoc
    rintro ⟨_, _, he⟩
    cases he
  simpa using hl.append (hsave _)

theorem rule_leaves (op : Op) {s : UserStats} {l₀ : List ServerCall} (hl : Logs op.who [] l₀ l)
    (hs : s = counted cfg now hour (lookup table op.who) op) {r : Rule}
    (hr : rules cfg now hour (lookup table op.who) op = [r]) (kind detail reason : Bytes) :
    wp (moment now hour) (Leaves cfg now hour table op l₀) (fun _ => True)
      (if r.fires s then do
        act (.logAlert kind op.who detail)
        keep table op.who (← lock op.who reason (r.note s) r.sec now)
      else keep table op.who s) l := by
  subst hs
  have h : wp (moment now hour) (Leaves cfg now hour table op l₀) (fun _ => True) (_ >>= _) l :=
    (wp_bind _ _ _).mpr <| wp_post (follows_rule r _ kind detail reason l) fun s₁ l₁ _ h₁ => by
      obtain ⟨rfl, h₁⟩ := h₁
      rw [← hr] at h₁ ⊢
      exact keep_leaves op rfl (hl.append h₁)
  by_cases hf : r.fires (counted cfg now hour (lookup table op.who) op) = true
  · rw [if_pos hf] at h ⊢
    exact h
  · rw [if_neg hf] at h ⊢
    exact h

theorem logs_clock (who : Bytes) (l : List ServerCall) : Logs who [] l (l ++ [.now]) := by
  apply Logs.snoc
  rintro ⟨_, _, he⟩
  cases he

theorem recordLoginFailure_leaves (who : Bytes) :
    wp (moment now hour) (Leaves cfg now hour table (.failure who) l) (fun _ => True)
      (recordLoginFailure cfg table who) l := by
  unfold recordLoginFailure
  rw [wp_ask_bind]
  refine ⟨trivial, fun (now' : Int) l₁ h₁ => ?_⟩
  obtain ⟨rfl, rfl⟩ := h₁
  exact rule_leaves (.failure who) (logs_clock who l) rfl rfl _ _ _

theorem recordLoginSuccess_leaves (who : Bytes) :
    wp (moment now hour) (Leaves cfg now hour table (.success who) l) (fun _ => True)
      (recordLoginSuccess cfg table who) l := by
  unfold recordLoginSuccess
  rw [wp_ask_bind]
  refine ⟨trivial, fun (now' : Int) l₁ h₁ => ?_⟩
  obtain ⟨rfl, rfl⟩ := h₁
  rw [wp_ask_bind]
  refine ⟨trivial, fun (hour' : Int) l₂ h₂ => ?_⟩
  obtain ⟨rfl, rfl⟩ := h₂
  have hhour : Logs who [] l (l ++ [.now] ++ [.localHour now']) := by
    apply (logs_clock who l).append
    apply Logs.snoc
    rintro ⟨_, _, he⟩
    cases he
  exact rule_leaves (.success who) hhour rfl rfl _ _ _

theorem recordFileOp_leaves (who op : Bytes) (count size : Nat) :
    wp (moment now hour) (Leaves cfg now hour table (.fileOp who op count size) l) (fun _ => True)
      (recordFileOp cfg table who op count size) l := by
  unfold recordFileOp
  rw [wp_ask_bind]
  refine ⟨trivial, fun (now' : Int) l₁ h₁ => ?_⟩
  obtain ⟨rfl, rfl⟩ := h₁
  dsimp only
  rw [wp_bind]
  let s₁ := countFiles cfg now' count (lookup table who)
  refine wp_post (follows_rule (bulkFilesRule cfg now') s₁ _ _ _ _) fun s₂ l₂ _ h₂ => ?_
  obtain ⟨rfl, h₂⟩ := h₂
  have hbulk := (logs_clock who l).append h₂
  by_cases hd : op = bytes "decrypt"
  · rw [if_pos hd, wp_bind]
    unfold recordDecrypt
    refine wp_post (follows_decrypt size (countDecrypt cfg now' (repeats count) size
      (applyRules now' [bulkFilesRule cfg now'] s₁).1) l₂) fun s₃ l₃ _ h₃ => ?_
    obtain ⟨rfl, h₃⟩ := h₃
    refine keep_leaves (.fileOp who op count size) ?_ (hbulk.append h₃)
    unfold recorded counted rules
    dsimp only
    rw [if_pos hd, if_pos hd, applyRules_cons, bulk_countDecrypt]
    simp only [List.nil_append]
    rfl
  · rw [if_neg hd]
    refine keep_leaves (.fileOp who op count size) ?_ hbulk
    unfold recorded counted rules
    dsimp only
    rw [if_neg hd, if_neg hd]
    rfl

theorem unlockUser_leaves (who : Bytes) :
    wp (moment now hour) (fun r l' => Leaves cfg now hour table (.unlock who) l r.2 l' ∨
        table.lookup who = none ∧ r.2 = table ∧ l' = l) (fun _ => True) (unlockUser table who) l := by
  unfold unlockUser
  cases hl : table.lookup who with
  | none => exact ⟨trivial, .inr ⟨rfl, rfl, rfl⟩⟩
  | some stats =>
    dsimp only
    rw [wp_ask_bind]
    refine ⟨trivial, fun _ l₁ h₁ => ?_⟩
    obtain ⟨rfl, -⟩ := h₁
    have hevent : Logs who [] l (l ++ [.logEvent (bytes "user_unlocked") who (bytes "admin_reset")]) := by
      apply Logs.snoc
      rintro ⟨_, _, he⟩
      injection he with hkind
      exact absurd hkind (by decide)
    have hstats : recorded cfg now hour (lookup table who) (.unlock who) =
        ({ stats with lockUntilTs := 0, strikeLevel := 0 }, []) := by
      simp [recorded, rules, counted, applyRules, SecurityMonitor.lookup, hl]
    rw [wp_bind]
    refine wp_post (keep_leaves (.unlock who) hstats hevent) fun table' l₂ _ h₂ => ?_
    exact ⟨trivial, .inl h₂⟩

theorem op_leaves (op : Op) :
    wp (moment now hour) (fun table' l' => Leaves cfg now hour table op l table' l' ∨
        (∃ who, op = .unlock who ∧ table.lookup who = none) ∧ table' = table ∧ l' = l)
      (fun _ => True) (op.run cfg table) l := by
  cases op with
  | failure who => exact wp_post (recordLoginFailure_leaves who) fun _ _ _ => .inl
  | success who => exact wp_post (recordLoginSuccess_leaves who) fun _ _ _ => .inl
  | fileOp who op count size => exact wp_post (recordFileOp_leaves who op count size) fun _ _ _ => .inl
  | unlock who =>
    show wp _ _ _ (Prod.snd <$> unlockUser table who) l
    rw [wp_map]
    refine wp_post (@unlockUser_leaves l cfg now hour table who) fun r l' _ h => ?_
    rcases h with h | ⟨hl, hr⟩
    · exact .inl h
    · exact .inr ⟨⟨who, rfl, hl⟩, hr⟩

/-! ## One call after another -/

inductive Call where
  | record (op : Op)
  | isLocked (who : Bytes)

def Call.run (cfg : MonitorConfig) (table : Table UserStats) : Call → ServerProgram (Table UserStats)
  | record op => op.run cfg table
  | isLocked who => do
    let _ ← SecurityMonitor.isLocked table who
    return table

structure Step where
  call : Call
  now : Int
  hour : Int
  before : Table UserStats
  log : List ServerCall

inductive Trace (cfg : MonitorConfig) (first : Table UserStats) : List Step → Table UserStats → Prop where
  | nil : Trace cfg first [] first
  | snoc {steps : List Step} {table table' : Table UserStats} {log : List ServerCall} (call : Call)
      (now hour : Int) : Trace cfg first steps table →
      Runs (moment now hour) (call.run cfg table) [] table' log →
      Trace cfg first (steps ++ [⟨call, now, hour, table, log⟩]) table'

theorem trace_snoc {first last : Table UserStats} {steps : List Step} {s : Step}
    (h : Trace cfg first (steps ++ [s]) last) : Trace cfg first steps s.before ∧
      Runs (moment s.now s.hour) (s.call.run cfg s.before) [] last s.log := by
  generalize hall : steps ++ [s] = all at h
  cases h with
  | nil => simp at hall
  | snoc call now hour hrun hr =>
    obtain ⟨rfl, hs⟩ := List.append_inj' hall rfl
    obtain rfl := List.singleton_inj.mp hs
    exact ⟨hrun, hr⟩

theorem call_cases {call : Call} {table' : Table UserStats} {log : List ServerCall}
    (h : Runs (moment now hour) (call.run cfg table) [] table' log) :
    (∃ op, call = .record op ∧ Leaves cfg now hour table op [] table' log) ∨
      table' = table ∧ (∀ c ∈ log, ¬ IsLock c) ∧
        ((∃ who, call = .isLocked who) ∨
          ∃ who, call = .record (.unlock who) ∧ table.lookup who = none) := by
  cases call with
  | record op =>
    rcases runs_of_wp (op_leaves op) h with h | ⟨⟨who, rfl, hl⟩, rfl, rfl⟩
    · exact .inl ⟨op, rfl, h⟩
    · exact .inr ⟨rfl, by simp, .inr ⟨who, rfl, hl⟩⟩
  | isLocked who =>
    have hspec : wp (moment now hour) (fun table' l => table' = table ∧ l = [.now]) (fun _ => True)
        (Call.run cfg table (.isLocked who)) [] :=
      ⟨trivial, fun _ _ h₁ => ⟨trivial, rfl, h₁.1⟩⟩
    obtain ⟨rfl, rfl⟩ := runs_of_wp hspec h
    refine .inr ⟨rfl, fun c hc => ?_, .inl ⟨who, rfl⟩⟩
    obtain rfl := List.mem_singleton.mp hc
    rintro ⟨_, _, he⟩
    cases he

/-! ## What no rule touches -/

structure SameCounts (s s' : UserStats) : Prop where
  failed : s'.failedLoginTimes = s.failedLoginTimes
  files : s'.fileOpTimes = s.fileOpTimes
  decrypts : s'.decryptTimes = s.decryptTimes
  sizes : s'.decryptSizeTimes = s.decryptSizeTimes
  logins : s'.totalLogins = s.totalLogins
  hours : s'.hourCounts = s.hourCounts

theorem SameCounts.refl (s : UserStats) : SameCounts s s := ⟨rfl, rfl, rfl, rfl, rfl, rfl⟩

theorem SameCounts.trans {s s' s'' : UserStats} (h : SameCounts s s') (h' : SameCounts s' s'') :
    SameCounts s s'' :=
  ⟨h'.failed.trans h.failed, h'.files.trans h.files, h'.decrypts.trans h.decrypts,
    h'.sizes.trans h.sizes, h'.logins.trans h.logins, h'.hours.trans h.hours⟩

theorem chooseLockDuration_counts (s : UserStats) (sec : Int) :
    SameCounts s (chooseLockDuration s sec).1 ∧ (chooseLockDuration s sec).1.lockUntilTs = s.lockUntilTs := by
  unfold chooseLockDuration
  by_cases hs : sec > 0
  · rw [if_pos hs]
    exact ⟨.refl s, rfl⟩
  · rw [if_neg hs]
    by_cases hl : s.strikeLevel < 1000
    · rw [if_pos hl]
      exact ⟨⟨rfl, rfl, rfl, rfl, rfl, rfl⟩, rfl⟩
    · rw [if_neg hl]
      exact ⟨.refl s, rfl⟩

def Rule.Modest (r : Rule) : Prop :=
  ∀ s, SameCounts s (r.note s) ∧ (r.note s).lockUntilTs = s.lockUntilTs

theorem modest_rules (before : UserStats) (op : Op) :
    ∀ r ∈ rules cfg now hour before op, r.Modest := by
  intro r hr
  cases op with
  | failure who =>
    obtain rfl := List.mem_singleton.mp hr
    exact fun s => ⟨⟨rfl, rfl, rfl, rfl, rfl, rfl⟩, rfl⟩
  | success who =>
    obtain rfl := List.mem_singleton.mp hr
    exact fun s => ⟨⟨rfl, rfl, rfl, rfl, rfl, rfl⟩, rfl⟩
  | unlock who => simp [rules] at hr
  | fileOp who op count size =>
    unfold rules at hr
    rcases List.mem_cons.mp hr with rfl | hr
    · exact fun s => ⟨⟨rfl, rfl, rfl, rfl, rfl, rfl⟩, rfl⟩
    by_cases hd : op = bytes "decrypt"
    · rw [if_pos hd] at hr
      simp only [decryptRules, List.mem_cons, List.not_mem_nil, or_false] at hr
      rcases hr with rfl | rfl | rfl <;> exact fun s => ⟨⟨rfl, rfl, rfl, rfl, rfl, rfl⟩, rfl⟩
    · simp [hd] at hr

theorem applyRules_counts : ∀ {rs : List Rule}, (∀ r ∈ rs, r.Modest) → ∀ s,
    SameCounts s (applyRules now rs s).1
  | [], _, s => .refl s
  | r :: rs, h, s => by
    have ih := applyRules_counts fun r' hr' => h r' (List.mem_cons_of_mem _ hr')
    rw [applyRules]
    by_cases hf : r.fires s = true
    · rw [if_pos hf]
      have hnote := (h r (List.mem_cons_self ..) s).1
      have hchosen := (chooseLockDuration_counts (r.note s) r.sec).1
      have hlock : SameCounts (r.note s) (withLock (r.note s) r.sec now) :=
        ⟨hchosen.failed, hchosen.files, hchosen.decrypts, hchosen.sizes, hchosen.logins, hchosen.hours⟩
      exact (hnote.trans hlock).trans (ih _)
    · rw [if_neg hf]
      exact ih s

theorem recorded_counts (s : UserStats) (op : Op) :
    SameCounts (counted cfg now hour s op) (recorded cfg now hour s op).1 :=
  applyRules_counts (modest_rules s op) _

end EncoderNext.SecurityMonitor
