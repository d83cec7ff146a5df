import EncoderNext.Monitor

/-!
# Locks after failed logins

The failures of a name since its last success form a window over time, which
the monitor keeps cut to the configured length. A failure that finds the window
full locks the account only where it also raises an alert.
-/

namespace EncoderNext.SecurityMonitor

open Program

/-- Nothing turns the clock back. The world is the time of the last reading. -/
def clockEnv : Env Int ServerCall ServerCall.Reply
  | t, .now, (r : Int), t' => t ≤ r ∧ t' = r
  | t, _, _, t' => t' = t

structure Event where
  op : Op
  time : Int

def failuresSince (who : Bytes) (past : List Event) : List Int :=
  past.foldl (fun times e =>
    match e.op with
    | .failure name => if name = who then times ++ [e.time] else times
    | .success name => if name = who then [] else times
    | _ => times) []

def recent (windowSec now : Int) (times : List Int) : Nat :=
  (times.filter fun t => now - t ≤ windowSec).length

/-- The tables, times and histories of the runs of a server from its start. -/
inductive Reach (cfg : MonitorConfig) : Table UserStats → Int → List Event → Prop where
  | start (table : Table UserStats) (t : Int) : Restarted table → Reach cfg table t []
  | step {table table' : Table UserStats} {t t' : Int} {past : List Event} (op : Op) :
      Reach cfg table t past → Runs clockEnv (op.run cfg table) t table' t' →
      Reach cfg table' t' (past ++ [⟨op, t'⟩])

variable {cfg : MonitorConfig} {table : Table UserStats} {t : Int} {K : Int → Prop}

/-! ## What one operation does to the failures of a name -/

def SameFailures (s s' : UserStats) : Prop :=
  s'.failedLoginTimes = s.failedLoginTimes ∧ s'.lastFailedAlertTs = s.lastFailedAlertTs

theorem SameFailures.refl (s : UserStats) : SameFailures s s := ⟨rfl, rfl⟩

theorem SameFailures.trans {s s' s'' : UserStats} (h : SameFailures s s') (h' : SameFailures s' s'') :
    SameFailures s s'' :=
  ⟨h'.1.trans h.1, h'.2.trans h.2⟩

theorem chooseLockDuration_same (stats : UserStats) (sec : Int) :
    SameFailures stats (chooseLockDuration stats sec).1 := by
  unfold chooseLockDuration
  by_cases hs : sec > 0
  · simp [hs, SameFailures]
  · by_cases hl : stats.strikeLevel < 1000 <;> simp [hs, hl, SameFailures]

theorem lock_spec (who reason : Bytes) (stats : UserStats) (sec now t : Int) :
    wp clockEnv (fun s t' => t' = t ∧ SameFailures stats s ∧
        s.lockUntilTs = max stats.lockUntilTs (now + (chooseLockDuration stats sec).2))
      (fun _ => True) (lock who reason stats sec now) t := by
  unfold lock
  refine ⟨trivial, fun _ t' ht' => ⟨trivial, ht', chooseLockDuration_same stats sec, ?_⟩⟩
  show max (chooseLockDuration stats sec).1.lockUntilTs _ = _
  congr 1
  unfold chooseLockDuration
  by_cases hs : sec > 0
  · simp [hs]
  · by_cases hl : stats.strikeLevel < 1000 <;> simp [hs, hl]

theorem keep_spec (who : Bytes) (stats : UserStats) (t : Int) :
    wp clockEnv (fun table' t' => t' = t ∧ table' = table.insert who stats) (fun _ => True)
      (keep table who stats) t :=
  ⟨trivial, fun _ _ ht' => ⟨trivial, ht', rfl⟩⟩

theorem rule_spec (stats alerted : UserStats) (hs : SameFailures stats alerted) (b : Bool)
    (kind who detail reason : Bytes) (sec now t : Int) :
    wp clockEnv (fun s t' => t' = t ∧ SameFailures stats s) (fun _ => True)
      (if b then do act (.logAlert kind who detail); lock who reason alerted sec now
        else return stats) t := by
  cases b with
  | false => exact ⟨trivial, rfl, .refl stats⟩
  | true =>
    refine ⟨trivial, fun _ t₁ ht₁ => ?_⟩
    obtain rfl : t₁ = t := ht₁
    refine wp_post (lock_spec who reason alerted sec now t₁) fun s t₂ _ h => ?_
    exact ⟨h.1, hs.trans h.2.1⟩

section
variable (who op : Bytes) (size : Nat) (now : Int) (stats : UserStats)

theorem bulkRule_spec : wp clockEnv (fun s t' => t' = t ∧ SameFailures stats s) (fun _ => True)
    (bulkRule cfg who op now stats) t :=
  rule_spec stats { stats with lastBulkAlertTs := now } ⟨rfl, rfl⟩ _ _ _ _ _ _ _ t

theorem burstRule_spec : wp clockEnv (fun s t' => t' = t ∧ SameFailures stats s) (fun _ => True)
    (burstRule cfg who now stats) t :=
  rule_spec stats { stats with lastDecryptRateAlertTs := now } ⟨rfl, rfl⟩ _ _ _ _ _ _ _ t

theorem volumeRule_spec : wp clockEnv (fun s t' => t' = t ∧ SameFailures stats s) (fun _ => True)
    (volumeRule cfg who now stats) t :=
  rule_spec stats { stats with lastDecryptVolumeAlertTs := now } ⟨rfl, rfl⟩ _ _ _ _ _ _ _ t

theorem profileRule_spec : wp clockEnv (fun s t' => t' = t ∧ SameFailures stats s) (fun _ => True)
    (profileRule cfg who size now stats) t :=
  rule_spec stats { stats with lastDecryptRateAlertTs := now } ⟨rfl, rfl⟩ _ _ _ _ _ _ _ t

theorem recordDecrypt_spec (repeats : Nat) :
    wp clockEnv (fun s t' => t' = t ∧ SameFailures stats s) (fun _ => True)
      (recordDecrypt cfg who repeats size now stats) t := by
  unfold recordDecrypt
  simp only [wp_bind]
  refine wp_post (burstRule_spec who now _) fun s₁ t₁ _ h₁ => ?_
  obtain ⟨rfl, h₁⟩ := h₁
  refine wp_post (volumeRule_spec who now s₁) fun s₂ t₂ _ h₂ => ?_
  obtain ⟨rfl, h₂⟩ := h₂
  refine wp_post (profileRule_spec who size now s₂) fun s₃ t₃ _ h₃ => ?_
  obtain ⟨rfl, h₃⟩ := h₃
  have h₀ : SameFailures stats s₁ := h₁
  exact ⟨rfl, (h₀.trans h₂).trans h₃⟩

end

def Keeps (table : Table UserStats) (who : Bytes) (P : UserStats → Prop) (table' : Table UserStats) :
    Prop := ∃ s, table' = table.insert who s ∧ P s

theorem recordFileOp_spec (who op : Bytes) (count size : Nat) :
    wp clockEnv (fun table' t' => t ≤ t' ∧ Keeps table who (SameFailures (lookup table who)) table')
      (fun _ => True) (recordFileOp cfg table who op count size) t := by
  unfold recordFileOp
  rw [wp_ask_bind]
  refine ⟨trivial, fun (now : Int) t₁ hnow => ?_⟩
  obtain ⟨hle, rfl⟩ : t ≤ now ∧ t₁ = now := hnow
  dsimp only
  rw [wp_bind]
  refine wp_post (bulkRule_spec who op t₁ _) fun s₁ t₂ _ h₁ => ?_
  obtain ⟨rfl, h₁⟩ := h₁
  have h₀ : SameFailures (lookup table who) s₁ := h₁
  by_cases hd : op = bytes "decrypt"
  · rw [if_pos hd, wp_bind]
    refine wp_post (recordDecrypt_spec who size t₂ s₁ _) fun s₂ t₃ _ h₂ => ?_
    obtain ⟨rfl, h₂⟩ := h₂
    refine wp_post (keep_spec who s₂ t₃) fun table' t₄ _ hk => ?_
    exact ⟨hk.1 ▸ hle, s₂, hk.2, h₀.trans h₂⟩
  · rw [if_neg hd]
    refine wp_post (keep_spec who s₁ t₂) fun table' t₄ _ hk => ?_
    exact ⟨hk.1 ▸ hle, s₁, hk.2, h₀⟩

theorem recordLoginSuccess_spec (who : Bytes) :
    wp clockEnv (fun table' t' => t ≤ t' ∧ Keeps table who (fun s => s.failedLoginTimes = []) table')
      (fun _ => True) (recordLoginSuccess cfg table who) t := by
  unfold recordLoginSuccess
  rw [wp_ask_bind]
  refine ⟨trivial, fun (now : Int) t₁ hnow => ?_⟩
  obtain ⟨hle, rfl⟩ : t ≤ now ∧ t₁ = now := hnow
  rw [wp_ask_bind]
  refine ⟨trivial, fun (hour : Int) t₂ ht₂ => ?_⟩
  obtain rfl : t₂ = t₁ := ht₂
  dsimp only
  split
  · rw [wp_ask_bind]
    refine ⟨trivial, fun _ t₃ ht₃ => ?_⟩
    obtain rfl : t₃ = t₂ := ht₃
    rw [wp_bind]
    refine wp_post (lock_spec who _ _ _ _ t₃) fun s t₄ _ h => ?_
    obtain ⟨rfl, h, -⟩ := h
    refine wp_post (keep_spec who s t₄) fun table' t₅ _ hk => ?_
    exact ⟨hk.1 ▸ hle, s, hk.2, h.1⟩
  · refine wp_post (keep_spec who _ t₂) fun table' t₅ _ hk => ?_
    exact ⟨hk.1 ▸ hle, _, hk.2, rfl⟩

def Alerts (cfg : MonitorConfig) (stats : UserStats) (times : List Int) (now : Int) : Prop :=
  cfg.failedLoginThreshold ≤ times.length ∧ now - stats.lastFailedAlertTs > cfg.alertCooldownSec

structure Failed (cfg : MonitorConfig) (stats : UserStats) (now : Int) (s : UserStats) : Prop where
  times : s.failedLoginTimes = window cfg.failedLoginWindowSec now (stats.failedLoginTimes ++ [now])
  alerted : Alerts cfg stats s.failedLoginTimes now →
    ∃ sec, (0 < cfg.lockFailedLoginSec → sec = cfg.lockFailedLoginSec) ∧
      s.lockUntilTs = max stats.lockUntilTs (now + sec)
  quiet : ¬ Alerts cfg stats s.failedLoginTimes now → s.lockUntilTs = stats.lockUntilTs

theorem recordLoginFailure_spec (who : Bytes) :
    wp clockEnv (fun table' t' => t ≤ t' ∧ Keeps table who (Failed cfg (lookup table who) t') table')
      (fun _ => True) (recordLoginFailure cfg table who) t := by
  unfold recordLoginFailure
  rw [wp_ask_bind]
  refine ⟨trivial, fun (now : Int) t₁ hnow => ?_⟩
  obtain ⟨hle, rfl⟩ : t ≤ now ∧ t₁ = now := hnow
  dsimp only
  split
  · rename_i hfull
    simp only [Bool.and_eq_true, decide_eq_true_eq] at hfull
    rw [wp_ask_bind]
    refine ⟨trivial, fun _ t₃ ht₃ => ?_⟩
    obtain rfl : t₃ = t₁ := ht₃
    rw [wp_bind]
    refine wp_post (lock_spec who _ _ _ _ t₃) fun s t₄ _ h => ?_
    obtain ⟨rfl, hsame, hlock⟩ := h
    refine wp_post (keep_spec who s t₄) fun table' t₅ _ hk => ?_
    obtain ⟨rfl, rfl⟩ := hk
    refine ⟨hle, s, rfl, hsame.1, fun _ => ⟨_, fun hpos => ?_, hlock⟩, fun hquiet => ?_⟩
    · simp [chooseLockDuration, hpos]
    · rw [hsame.1] at hquiet
      exact absurd hfull hquiet
  · rename_i hfull
    simp only [Bool.and_eq_true, decide_eq_true_eq] at hfull
    refine wp_post (keep_spec who _ t₁) fun table' t₅ _ hk => ?_
    obtain ⟨rfl, rfl⟩ := hk
    exact ⟨hle, _, rfl, rfl, fun h => absurd h hfull, fun _ => rfl⟩

theorem unlockUser_spec (who : Bytes) :
    wp clockEnv (fun r t' => t' = t ∧
        (r.2 = table ∨ Keeps table who (SameFailures (lookup table who)) r.2))
      (fun _ => True) (unlockUser table who) t := by
  unfold unlockUser
  cases hl : table.lookup who with
  | none => exact ⟨trivial, rfl, .inl rfl⟩
  | some stats =>
    dsimp only
    rw [wp_ask_bind]
    refine ⟨trivial, fun _ t₁ ht₁ => ?_⟩
    obtain rfl : t₁ = t := ht₁
    rw [wp_bind]
    refine wp_post (keep_spec who _ t₁) fun table' t₂ _ hk => ?_
    obtain ⟨rfl, rfl⟩ := hk
    refine ⟨trivial, rfl, .inr ⟨_, rfl, ?_⟩⟩
    simp [SecurityMonitor.lookup, hl, SameFailures]

/-! ## The window -/

def timesAfter (cfg : MonitorConfig) (op : Op) (now : Int) (name : Bytes) (times : List Int) :
    List Int :=
  match op with
  | .failure who => if who = name then window cfg.failedLoginWindowSec now (times ++ [now]) else times
  | .success who => if who = name then [] else times
  | _ => times

def times (table : Table UserStats) (name : Bytes) : List Int := (lookup table name).failedLoginTimes

theorem times_of_keeps {who name : Bytes} {P : UserStats → Prop} {table' : Table UserStats}
    {f : List Int → List Int} (hk : Keeps table who P table')
    (hp : ∀ s, P s → s.failedLoginTimes = f (times table who)) :
    times table' name = if who = name then f (times table name) else times table name := by
  obtain ⟨s, rfl, hs⟩ := hk
  by_cases hn : who = name
  · subst hn
    simp [times, SecurityMonitor.lookup, hp s hs]
  · simp [times, SecurityMonitor.lookup, hn, AList.lookup_insert_ne (Ne.symm hn)]

theorem op_spec (op : Op) :
    wp clockEnv (fun table' t' => t ≤ t' ∧
        ∀ name, times table' name = timesAfter cfg op t' name (times table name))
      (fun _ => True) (op.run cfg table) t := by
  cases op with
  | failure who =>
    refine wp_post (recordLoginFailure_spec who) fun table' t' _ h => ⟨h.1, fun name => ?_⟩
    exact times_of_keeps (f := fun x => window _ t' (x ++ [t'])) h.2 fun s hs => hs.times
  | success who =>
    refine wp_post (recordLoginSuccess_spec who) fun table' t' _ h => ⟨h.1, fun name => ?_⟩
    exact times_of_keeps (f := fun _ => []) h.2 fun s hs => hs
  | fileOp who op count size =>
    refine wp_post (recordFileOp_spec who op count size) fun table' t' _ h => ⟨h.1, fun name => ?_⟩
    have hsame := @times_of_keeps _ _ name _ _ id h.2 fun s hs => hs.1
    simpa [timesAfter] using hsame
  | unlock who =>
    show wp clockEnv _ _ (Prod.snd <$> unlockUser table who) t
    rw [wp_map]
    refine wp_post (unlockUser_spec who) fun r t' _ h => ⟨h.1.ge, fun name => ?_⟩
    rcases h.2 with hr | hr
    · rw [hr]
      rfl
    · have hsame := @times_of_keeps _ _ name _ _ id hr fun s hs => hs.1
      simpa [timesAfter] using hsame

/-! ## The kept failures are the recent ones -/

/-- The times go up, so nothing behind the first one kept is too old. -/
theorem window_recent {windowSec now : Int} : ∀ {ts : List Int}, ts.Pairwise (· ≤ ·) →
    ∀ x ∈ window windowSec now ts, now - x ≤ windowSec
  | [], _, x, hx => by simp [window] at hx
  | y :: ts, h, x, hx => by
    obtain ⟨hy, hts⟩ := List.pairwise_cons.mp h
    by_cases hold : now - y > windowSec
    · rw [window, List.dropWhile_cons_of_pos (by simpa using hold)] at hx
      exact window_recent hts x hx
    · rw [window, List.dropWhile_cons_of_neg (by simpa using hold)] at hx
      have hle : y ≤ x := by
        rcases List.mem_cons.mp hx with rfl | hx
        · exact le_rfl
        · exact hy x hx
      omega

def sinceAfter (op : Op) (now : Int) (name : Bytes) (times : List Int) : List Int :=
  match op with
  | .failure who => if who = name then times ++ [now] else times
  | .success who => if who = name then [] else times
  | _ => times

theorem failuresSince_snoc (name : Bytes) (past : List Event) (op : Op) (now : Int) :
    failuresSince name (past ++ [⟨op, now⟩]) = sinceAfter op now name (failuresSince name past) := by
  rw [failuresSince, List.foldl_append]
  rfl

/-- The failures of a name since its last success, in order; the monitor has
dropped some that no window will hold again. -/
structure Tracks (cfg : MonitorConfig) (t : Int) (kept since : List Int) : Prop where
  split : ∃ expired, since = expired ++ kept ∧ ∀ x ∈ expired, cfg.failedLoginWindowSec < t - x
  sorted : since.Pairwise (· ≤ ·)
  past : ∀ x ∈ since, x ≤ t

theorem Tracks.later {kept since : List Int} (h : Tracks cfg t kept since) {t' : Int} (ht : t ≤ t') :
    Tracks cfg t' kept since := by
  obtain ⟨⟨expired, hsplit, hold⟩, hsorted, hpast⟩ := h
  refine ⟨⟨expired, hsplit, fun x hx => ?_⟩, hsorted, fun x hx => (hpast x hx).trans ht⟩
  have := hold x hx
  omega

theorem Tracks.nil : Tracks cfg t [] [] := ⟨⟨[], rfl, by simp⟩, .nil, by simp⟩

theorem Tracks.failed {kept since : List Int} (h : Tracks cfg t kept since) :
    Tracks cfg t (window cfg.failedLoginWindowSec t (kept ++ [t])) (since ++ [t]) := by
  obtain ⟨⟨expired, hsplit, hold⟩, hsorted, hpast⟩ := h
  refine ⟨?_, ?_, ?_⟩
  · let gone := (kept ++ [t]).takeWhile fun x => t - x > cfg.failedLoginWindowSec
    refine ⟨expired ++ gone, ?_, ?_⟩
    · rw [hsplit, List.append_assoc, List.append_assoc]
      exact congrArg _ (List.takeWhile_append_dropWhile).symm
    · intro x hx
      rcases List.mem_append.mp hx with hx | hx
      · exact hold x hx
      · simpa using List.mem_takeWhile_imp hx
  · rw [List.pairwise_append]
    refine ⟨hsorted, by simp, fun x hx y hy => ?_⟩
    obtain rfl := List.mem_singleton.mp hy
    exact hpast x hx
  · intro x hx
    rcases List.mem_append.mp hx with hx | hx
    · exact hpast x hx
    · exact (List.mem_singleton.mp hx).le

theorem tracks_step {kept since : List Int} (h : Tracks cfg t kept since) (op : Op) {t' : Int}
    (ht : t ≤ t') (name : Bytes) :
    Tracks cfg t' (timesAfter cfg op t' name kept) (sinceAfter op t' name since) := by
  cases op with
  | failure who =>
    by_cases hn : who = name
    · simpa [timesAfter, sinceAfter, hn] using (h.later ht).failed
    · simpa [timesAfter, sinceAfter, hn] using h.later ht
  | success who =>
    by_cases hn : who = name
    · simpa [timesAfter, sinceAfter, hn] using Tracks.nil
    · simpa [timesAfter, sinceAfter, hn] using h.later ht
  | fileOp | unlock => exact h.later ht

theorem times_restarted (h : Restarted table) (name : Bytes) : times table name = [] := by
  unfold times SecurityMonitor.lookup
  cases hl : table.lookup name with
  | none => rfl
  | some stats =>
    have hs := congrArg UserStats.failedLoginTimes (h name stats hl)
    simpa [restarted] using hs.symm

theorem tracks_reach {past : List Event} (h : Reach cfg table t past) (name : Bytes) :
    Tracks cfg t (times table name) (failuresSince name past) := by
  induction h with
  | start table t hr =>
    rw [times_restarted hr]
    exact .nil
  | step op _ hs ih =>
    obtain ⟨hle, htimes⟩ := runs_of_wp (op_spec op) hs
    rw [htimes, failuresSince_snoc]
    exact tracks_step ih op hle name

theorem recent_of_tracks {kept since : List Int} (h : Tracks cfg t kept since)
    (hcut : ∀ x ∈ kept, t - x ≤ cfg.failedLoginWindowSec) :
    recent cfg.failedLoginWindowSec t since = kept.length := by
  obtain ⟨⟨expired, rfl, hold⟩, -, -⟩ := h
  have hgone : (expired.filter fun x => t - x ≤ cfg.failedLoginWindowSec) = [] := by
    rw [List.filter_eq_nil_iff]
    intro x hx
    have := hold x hx
    simp only [decide_eq_true_eq]
    omega
  have hkept : (kept.filter fun x => t - x ≤ cfg.failedLoginWindowSec) = kept := by
    rw [List.filter_eq_self]
    intro x hx
    simpa using hcut x hx
  rw [recent, List.filter_append, hgone, hkept, List.nil_append]

/-! ## The lock -/

def Locked (table : Table UserStats) (who : Bytes) (now : Int) : Prop :=
  (lockedAt table who now).isSome = true

theorem locked_insert (who : Bytes) (s : UserStats) (now : Int) :
    Locked (table.insert who s) who now ↔ now < s.lockUntilTs := by
  by_cases h : s.lockUntilTs ≤ now
  · simp [Locked, lockedAt, h]
  · simp [Locked, lockedAt, h]
    omega

/-- **When a burst of failures locks.** In every run, after a failure that leaves
the threshold of failures in the window, the account is locked exactly when the
last alert for failures is longer ago than the cooldown or an earlier lock still
holds. -/
theorem burst_locked_iff (hlock : 0 < cfg.lockFailedLoginSec) {past : List Event}
    (hreach : Reach cfg table t past) {who : Bytes} {table' : Table UserStats} {t' : Int}
    (hfail : Runs clockEnv (Op.run cfg table (.failure who)) t table' t')
    (hburst : cfg.failedLoginThreshold ≤
      recent cfg.failedLoginWindowSec t' (failuresSince who (past ++ [⟨.failure who, t'⟩]))) :
    Locked table' who t' ↔
      cfg.alertCooldownSec < t' - (lookup table who).lastFailedAlertTs ∨
        t' < (lookup table who).lockUntilTs := by
  obtain ⟨hle, s, rfl, hs⟩ := runs_of_wp (recordLoginFailure_spec who) hfail
  have htracks := (tracks_reach hreach who).later hle
  have hsorted : (times table who ++ [t']).Pairwise (· ≤ ·) := by
    obtain ⟨expired, hsplit, -⟩ := htracks.split
    have hall := htracks.failed.sorted
    rw [hsplit, List.append_assoc] at hall
    exact (List.pairwise_append.mp hall).2.1
  have hcount : s.failedLoginTimes.length =
      recent cfg.failedLoginWindowSec t' (failuresSince who (past ++ [⟨.failure who, t'⟩])) := by
    rw [failuresSince_snoc, sinceAfter, if_pos rfl, hs.times]
    exact (recent_of_tracks htracks.failed (window_recent hsorted)).symm
  rw [locked_insert]
  by_cases hcool : cfg.alertCooldownSec < t' - (lookup table who).lastFailedAlertTs
  · obtain ⟨sec, hsec, hlast⟩ := hs.alerted ⟨hcount ▸ hburst, hcool⟩
    rw [hlast, hsec hlock]
    simp only [hcool, true_or, iff_true]
    omega
  · have hquiet : ¬ Alerts cfg (lookup table who) s.failedLoginTimes t' := fun h => hcool h.2
    simp [hs.quiet hquiet, hcool]

/-! ## A guess that is not locked out -/

def burstConfig : MonitorConfig := { lockFailedLoginSec := 60 }

def clockAnswer (step t : Int) : (c : ServerCall) → c.Reply × Int
  | .now => (t + step, t + step)
  | c => (c.plain t, t)

theorem clockAnswer_env {step : Int} (hs : 0 ≤ step) (t : Int) (c : ServerCall) :
    clockEnv t c (clockAnswer step t c).1 (clockAnswer step t c).2 := by
  cases c with
  | now =>
    refine ⟨?_, rfl⟩
    show t ≤ t + step
    omega
  | _ => rfl

/-- Failures of one name from a first start on, each so many seconds after the
one before; the last comes first. -/
def burst (who : Bytes) : List Nat → Table UserStats × Int
  | [] => (∅, 1000000)
  | step :: steps =>
    exec (clockAnswer step) (Op.run burstConfig (burst who steps).1 (.failure who)) (burst who steps).2

def burstPast (who : Bytes) : List Nat → List Event
  | [] => []
  | step :: steps => burstPast who steps ++ [⟨.failure who, (burst who (step :: steps)).2⟩]

theorem runs_burst (who : Bytes) (step : Nat) (steps : List Nat) :
    Runs clockEnv (Op.run burstConfig (burst who steps).1 (.failure who)) (burst who steps).2
      (burst who (step :: steps)).1 (burst who (step :: steps)).2 :=
  runs_exec (clockAnswer_env (by omega)) _ _

theorem reach_burst (who : Bytes) : ∀ steps : List Nat,
    Reach burstConfig (burst who steps).1 (burst who steps).2 (burstPast who steps)
  | [] => .start ∅ 1000000 fun who stats h => by simp at h
  | step :: steps => .step (.failure who) (reach_burst who steps) (runs_burst who step steps)

theorem burst_locked_third : Locked (burst (bytes "eve") [1, 1, 1]).1 (bytes "eve") 1000003 := by
  have hruns := runs_burst (bytes "eve") 1 [1, 1]
  exact (burst_locked_iff (by decide) (reach_burst (bytes "eve") [1, 1]) hruns (by decide)).mpr
    (.inl (by decide))

/-- A lock of a minute is over long before the cooldown of the alert is, and so
are the next guesses: the fourth failure in the window locks nobody. -/
theorem fourth_guess_unlocked : ∃ (cfg : MonitorConfig) (table table' : Table UserStats) (t t' : Int)
    (past : List Event) (who : Bytes), 0 < cfg.lockFailedLoginSec ∧ Reach cfg table t past ∧
      Runs clockEnv (Op.run cfg table (.failure who)) t table' t' ∧
      cfg.failedLoginThreshold ≤
        recent cfg.failedLoginWindowSec t' (failuresSince who (past ++ [⟨.failure who, t'⟩])) ∧
      ¬ Locked table' who t' := by
  refine ⟨burstConfig, _, _, _, _, _, bytes "eve", by decide, reach_burst (bytes "eve") [1, 1, 1],
    runs_burst (bytes "eve") 100 [1, 1, 1], by decide, ?_⟩
  unfold Locked
  decide

end EncoderNext.SecurityMonitor
