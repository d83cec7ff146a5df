import EncoderNext.AuditWorld
import EncoderNext.MonitorLocks

/-!
# States that short requests leave

The names in the tables come from headers, and the numbers beside them have few digits:
the clock is far from its end, settings have thirty-two bits, and a list of times grows by
one at most with every event.
-/

namespace EncoderNext

open Program Program.Stateful AuditWorld

def Int32Range (n : Int) : Prop := -2 ^ 31 ≤ n ∧ n < 2 ^ 31

structure MonitorConfig.Loaded (cfg : MonitorConfig) : Prop where
  failedWindow : Int32Range cfg.failedLoginWindowSec
  bulkWindow : Int32Range cfg.bulkFilesWindowSec
  burstWindow : Int32Range cfg.decryptBurstWindowSec
  volumeWindow : Int32Range cfg.decryptVolumeWindowSec
  failedLock : Int32Range cfg.lockFailedLoginSec
  bulkLock : Int32Range cfg.lockBulkFilesSec
  suspiciousLock : Int32Range cfg.lockSuspiciousTimeSec

/-! ## Statistics -/

namespace SecurityMonitor

structure Small (n : Nat) (stats : UserStats) : Prop where
  failed : stats.failedLoginTimes.length ≤ n
  files : stats.fileOpTimes.length ≤ n
  decrypts : stats.decryptTimes.length ≤ n
  locked : 0 ≤ stats.lockUntilTs ∧ stats.lockUntilTs < 2 ^ 63

def SmallTable (n : Nat) (table : Table UserStats) : Prop :=
  ∀ who stats, table.lookup who = some stats → who.length ≤ shortHeader ∧ Small n stats

theorem Small.mono {n m : Nat} {stats : UserStats} (h : Small n stats) (hnm : n ≤ m) : Small m stats :=
  ⟨h.failed.trans hnm, h.files.trans hnm, h.decrypts.trans hnm, h.locked⟩

theorem SmallTable.mono {n m : Nat} {table : Table UserStats} (h : SmallTable n table) (hnm : n ≤ m) :
    SmallTable m table := fun who stats hl => ⟨(h who stats hl).1, (h who stats hl).2.mono hnm⟩

theorem small_lookup {n : Nat} {table : Table UserStats} (h : SmallTable n table) (who : Bytes) :
    Small n (lookup table who) := by
  unfold lookup
  cases hl : table.lookup who with
  | none => exact ⟨Nat.zero_le _, Nat.zero_le _, Nat.zero_le _, by decide⟩
  | some stats => exact (h who stats hl).2

theorem smallTable_insert {n : Nat} {table : Table UserStats} (h : SmallTable n table) {who : Bytes}
    (hwho : who.length ≤ shortHeader) {stats : UserStats} (hs : Small n stats) :
    SmallTable n (table.insert who stats) := by
  intro name stats' hl
  by_cases hn : name = who
  · subst hn
    rw [AList.lookup_insert, Option.some.injEq] at hl
    exact hl ▸ ⟨hwho, hs⟩
  · rw [AList.lookup_insert_ne hn] at hl
    exact h name stats' hl

theorem length_window_le (windowSec now : Int) (times : List Int) :
    (window windowSec now times).length ≤ times.length := (List.dropWhile_suffix _).length_le

theorem chooseLockDuration_range (stats : UserStats) {sec : Int} (h : Int32Range sec) :
    0 < (chooseLockDuration stats sec).2 ∧ (chooseLockDuration stats sec).2 < 2 ^ 31 := by
  refine ⟨chooseLockDuration_pos stats sec, ?_⟩
  have hladder : ∀ i ≤ 5, lockLadder.getD i 7200 < 2 ^ 31 := by decide
  unfold chooseLockDuration
  split
  · exact h.2
  · exact hladder _ (Nat.min_le_right _ _)

theorem small_chooseLockDuration {n : Nat} {stats : UserStats} (h : Small n stats) (sec : Int) :
    Small n (chooseLockDuration stats sec).1 := by
  unfold chooseLockDuration
  split
  · exact h
  · dsimp only
    split
    · exact ⟨h.failed, h.files, h.decrypts, h.locked⟩
    · exact h

variable {n : Nat} {who : Bytes} {w : AuditWorld}

theorem lock_small {reason : Bytes} {stats : UserStats} {sec now : Int} (hs : Small n stats)
    (hsec : Int32Range sec) (hnow : Clock now) (hwho : who.length ≤ shortHeader)
    (hreason : reason.length ≤ 30) (hw : w.Short) :
    wp Answers (fun stats' u => Small n stats' ∧ u.Short) (fun _ => True)
      (lock who reason stats sec now) w := by
  obtain ⟨hpos, hlt⟩ := chooseLockDuration_range stats hsec
  have hc := small_chooseLockDuration hs sec
  unfold lock
  generalize chooseLockDuration stats sec = chosen at hpos hlt hc ⊢
  obtain ⟨stats', lockSec⟩ := chosen
  have huntil : 0 ≤ max stats'.lockUntilTs (now + lockSec) ∧
      max stats'.lockUntilTs (now + lockSec) < 2 ^ 63 := by
    have hlocked : 0 ≤ stats'.lockUntilTs ∧ stats'.lockUntilTs < 2 ^ 63 := hc.locked
    unfold Clock at hnow
    omega
  dsimp only at hpos hlt ⊢
  rw [wp_ask_bind]
  refine ⟨trivial, fun _ u hu => ⟨trivial, ⟨hc.failed, hc.files, hc.decrypts, huntil⟩, ?_⟩⟩
  refine short_call hw ?_ hu
  have huntil' : Int64Range (max stats'.lockUntilTs (now + lockSec)) := by
    unfold Int64Range
    omega
  have hsec' : Int64Range lockSec := by
    unfold Int64Range
    omega
  have hlen := length_decimalInt huntil'
  have hlen' := length_decimalInt hsec'
  unfold shortHeader at hwho
  simp only [ServerCall.Fits, List.length_append, bytes, String.reduceToList, List.length_map,
    List.length_cons, List.length_nil]
  omega

theorem keep_small {table : Table UserStats} {stats : UserStats} (ht : SmallTable n table)
    (hwho : who.length ≤ shortHeader) (hs : Small n stats) (hw : w.Short) :
    wp Answers (fun table' u => SmallTable n table' ∧ u.Short) (fun _ => True) (keep table who stats) w := by
  refine ⟨trivial, fun _ u hu => ⟨trivial, smallTable_insert ht hwho hs, ?_⟩⟩
  exact short_call (c := .saveStats _) hw trivial hu

theorem rule_small {b : Bool} {kind detail reason : Bytes} {stats stats' : UserStats} {sec now : Int}
    (hs : Small n stats) (hs' : Small n stats') (hsec : Int32Range sec) (hnow : Clock now)
    (hwho : who.length ≤ shortHeader) (hreason : reason.length ≤ 30)
    (hdetail : kind.length + detail.length ≤ 300) (hw : w.Short) :
    wp Answers (fun stats u => Small n stats ∧ u.Short) (fun _ => True)
      (if b = true then do
          act (.logAlert kind who detail)
          lock who reason stats sec now
        else return stats' : ServerProgram UserStats) w := by
  split
  · rw [wp_ask_bind]
    refine ⟨trivial, fun _ u hu => lock_small hs hsec hnow hwho hreason ?_⟩
    refine short_call hw ?_ hu
    unfold shortHeader at hwho
    unfold ServerCall.Fits
    omega
  · exact ⟨trivial, hs', hw⟩

theorem ruled_small {table : Table UserStats} {b : Bool} {kind detail reason : Bytes}
    {stats stats' : UserStats} {sec now : Int} (ht : SmallTable n table) (hs : Small n stats)
    (hs' : Small n stats') (hsec : Int32Range sec) (hnow : Clock now) (hwho : who.length ≤ shortHeader)
    (hreason : reason.length ≤ 30) (hdetail : kind.length + detail.length ≤ 300) (hw : w.Short) :
    wp Answers (fun table' u => SmallTable n table' ∧ u.Short) (fun _ => True)
      (if b = true then do
          act (.logAlert kind who detail)
          keep table who (← lock who reason stats sec now)
        else keep table who stats' : ServerProgram (Table UserStats)) w := by
  have hrule := rule_small (b := b) hs hs' hsec hnow hwho hreason hdetail hw
  split at hrule
  · rename_i hb
    rw [if_pos hb]
    rw [wp_ask_bind] at hrule ⊢
    refine ⟨trivial, fun r u hu => ?_⟩
    rw [wp_bind]
    exact wp_post (hrule.2 r u hu) fun stats₁ u₁ _ h₁ => keep_small ht hwho h₁.1 h₁.2
  · rename_i hb
    rw [if_neg hb]
    exact keep_small ht hwho hs' hw

theorem Small.length_count {n k : Nat} (hk : k ≤ n) (hn : n < 2 ^ 64) : (decimal k).length ≤ 20 :=
  length_decimal_word (lt_of_le_of_lt hk hn)

theorem length_setting {n : Int} (h : Int32Range n) : (decimalInt n).length ≤ 20 := by
  refine length_decimalInt ?_
  unfold Int32Range at h
  unfold Int64Range
  omega

section
variable {cfg : MonitorConfig} (hcfg : cfg.Loaded) {table : Table UserStats} (ht : SmallTable n table)
  (hn : n + 1 < 2 ^ 64) (hwho : who.length ≤ shortHeader) (hw : w.Short)
include hcfg ht hwho hw

include hn in
theorem recordLoginFailure_small : wp Answers (fun table' u => SmallTable (n + 1) table' ∧ u.Short)
    (fun _ => True) (recordLoginFailure cfg table who) w := by
  have hs := small_lookup ht who
  unfold recordLoginFailure
  rw [wp_ask_bind]
  refine ⟨trivial, fun (now : Int) u hu => ?_⟩
  have hu' : u = w := hu.2
  subst hu'
  have hcount := length_window_le cfg.failedLoginWindowSec now
    ((lookup table who).failedLoginTimes ++ [now])
  rw [List.length_append, List.length_singleton] at hcount
  have hfailed := hs.failed
  have hnew : Small (n + 1) { lookup table who with
      failedLoginTimes := window cfg.failedLoginWindowSec now
        ((lookup table who).failedLoginTimes ++ [now]) } :=
    ⟨by dsimp only; omega, hs.files.trans (Nat.le_succ n), hs.decrypts.trans (Nat.le_succ n), hs.locked⟩
  refine ruled_small (ht.mono (Nat.le_succ n)) ⟨hnew.failed, hnew.files, hnew.decrypts, hnew.locked⟩ hnew
    hcfg.failedLock hu.1 hwho (by simp [bytes]) ?_ hw
  have hlen := Small.length_count hnew.failed hn
  have hwindow := length_setting hcfg.failedWindow
  dsimp only at hlen ⊢
  simp only [List.length_append, bytes, String.reduceToList, List.length_map, List.length_cons,
    List.length_nil]
  omega

theorem recordLoginSuccess_small : wp Answers (fun table' u => SmallTable n table' ∧ u.Short)
    (fun _ => True) (recordLoginSuccess cfg table who) w := by
  have hs := small_lookup ht who
  unfold recordLoginSuccess
  rw [wp_ask_bind]
  refine ⟨trivial, fun (now : Int) u hu => ?_⟩
  have hu' : u = w := hu.2
  subst hu'
  rw [wp_ask_bind]
  refine ⟨trivial, fun (hour : Int) u hhour => ?_⟩
  obtain ⟨hfirst, hlast, rfl⟩ : 0 ≤ hour ∧ hour < 24 ∧ u = _ := hhour
  have hhour : Int64Range hour := by
    unfold Int64Range
    omega
  dsimp only
  refine ruled_small ht ⟨Nat.zero_le _, hs.files, hs.decrypts, hs.locked⟩
    ⟨Nat.zero_le _, hs.files, hs.decrypts, hs.locked⟩ hcfg.suspiciousLock hu.1 hwho (by simp [bytes]) ?_ hw
  have hlen := length_decimalInt hhour
  have hlogins := length_decimal_count ((lookup table who).totalLogins + 1)
  simp only [List.length_append, bytes, String.reduceToList, List.length_map, List.length_cons,
    List.length_nil]
  omega

end

/-! ## File operations -/

section
variable {cfg : MonitorConfig} (hcfg : cfg.Loaded) {now : Int} (hnow : Clock now) (hn : n < 2 ^ 64)
  (hwho : who.length ≤ shortHeader) (hw : w.Short) {stats : UserStats} (hs : Small n stats)
include hcfg hnow hwho hw hs

include hn in
theorem bulkRule_small {op : Bytes} (hop : op.length ≤ 30) :
    wp Answers (fun stats u => Small n stats ∧ u.Short) (fun _ => True)
      (bulkRule cfg who op now stats) w := by
  refine rule_small ⟨hs.failed, hs.files, hs.decrypts, hs.locked⟩ hs hcfg.bulkLock hnow hwho
    (by simp [bytes]) ?_ hw
  have hlen := Small.length_count hs.files hn
  have hwindow := length_setting hcfg.bulkWindow
  simp only [List.length_append, bytes, String.reduceToList, List.length_map, List.length_cons,
    List.length_nil]
  omega

include hn in
theorem burstRule_small : wp Answers (fun stats u => Small n stats ∧ u.Short) (fun _ => True)
    (burstRule cfg who now stats) w := by
  refine rule_small ⟨hs.failed, hs.files, hs.decrypts, hs.locked⟩ hs hcfg.bulkLock hnow hwho
    (by simp [bytes]) ?_ hw
  have hlen := Small.length_count hs.decrypts hn
  have hwindow := length_setting hcfg.burstWindow
  simp only [List.length_append, bytes, String.reduceToList, List.length_map, List.length_cons,
    List.length_nil]
  omega

theorem volumeRule_small : wp Answers (fun stats u => Small n stats ∧ u.Short) (fun _ => True)
    (volumeRule cfg who now stats) w := by
  refine rule_small ⟨hs.failed, hs.files, hs.decrypts, hs.locked⟩ hs hcfg.bulkLock hnow hwho
    (by simp [bytes]) ?_ hw
  have hbytes := length_decimal_word (windowBytes stats).toNat_lt
  have hwindow := length_setting hcfg.volumeWindow
  unfold windowBytes at hbytes
  simp only [List.length_append, bytes, String.reduceToList, List.length_map, List.length_cons,
    List.length_nil]
  omega

theorem profileRule_small {size : Nat} (hsize : size < 2 ^ 64) :
    wp Answers (fun stats u => Small n stats ∧ u.Short) (fun _ => True)
      (profileRule cfg who size now stats) w := by
  have hflag : ∀ b, (flag b).length = 1 := by decide
  refine rule_small ⟨hs.failed, hs.files, hs.decrypts, hs.locked⟩ hs hcfg.suspiciousLock hnow hwho
    (by simp [bytes]) ?_ hw
  have hlen := length_decimal_word hsize
  have havg := length_decimal_word (avgBytes stats).toUInt64.toNat_lt
  simp only [List.length_append, hflag, bytes, String.reduceToList, List.length_map, List.length_cons,
    List.length_nil]
  omega

end

section
variable {cfg : MonitorConfig} (hcfg : cfg.Loaded) {table : Table UserStats} (ht : SmallTable n table)
  (hn : n + 2 < 2 ^ 64) (hwho : who.length ≤ shortHeader) (hw : w.Short)
include ht hwho hw

theorem unlockUser_small : wp Answers (fun r u => SmallTable n r.2 ∧ u.Short) (fun _ => True)
    (unlockUser table who) w := by
  unfold unlockUser
  cases hl : table.lookup who with
  | none => exact ⟨trivial, ht, hw⟩
  | some stats =>
    dsimp only
    rw [wp_ask_bind]
    refine ⟨trivial, fun _ u hu => ?_⟩
    have hfits : ServerCall.Fits (.logEvent (bytes "user_unlocked") who (bytes "admin_reset")) := by
      unfold shortHeader at hwho
      simp only [ServerCall.Fits, bytes, String.reduceToList, List.length_map, List.length_cons,
        List.length_nil]
      omega
    have hs := (ht who stats hl).2
    rw [wp_bind]
    refine wp_post (keep_small ht hwho ⟨hs.failed, hs.files, hs.decrypts, le_rfl, Int.pow_pos (by decide)⟩
      (short_call hw hfits hu)) fun table' u' _ h' => ⟨trivial, h'⟩

include hcfg hn

/-- A decryption is counted twice. -/
theorem recordFileOp_small {op : Bytes} (hop : op.length ≤ 30) {size : Nat} (hsize : size < 2 ^ 64) :
    wp Answers (fun table' u => SmallTable (n + 2) table' ∧ u.Short) (fun _ => True)
      (recordFileOp cfg table who op 1 size) w := by
  have hs := small_lookup ht who
  unfold recordFileOp
  rw [wp_ask_bind]
  refine ⟨trivial, fun (now : Int) u hu => ?_⟩
  have hu' : u = w := hu.2
  subst hu'
  have hcount := length_window_le cfg.bulkFilesWindowSec now
    ((lookup table who).fileOpTimes ++ List.replicate 1 now)
  rw [List.length_append, List.length_replicate] at hcount
  have hfiles := hs.files
  have hnew : Small (n + 1) { lookup table who with
      fileOpTimes := window cfg.bulkFilesWindowSec now
        ((lookup table who).fileOpTimes ++ List.replicate 1 now) } :=
    ⟨hs.failed.trans (Nat.le_succ n), by dsimp only; omega, hs.decrypts.trans (Nat.le_succ n), hs.locked⟩
  dsimp only
  rw [if_neg Nat.one_ne_zero, wp_bind]
  refine wp_post (bulkRule_small hcfg hu.1 (by omega) hwho hw hnew hop) fun stats u₁ _ h₁ => ?_
  obtain ⟨hs₁, hw₁⟩ := h₁
  split
  · have hdecrypts := length_window_le cfg.decryptBurstWindowSec now
      (stats.decryptTimes ++ List.replicate 1 now)
    rw [List.length_append, List.length_replicate] at hdecrypts
    have hold := hs₁.decrypts
    unfold recordDecrypt
    dsimp only
    rw [wp_bind, wp_bind]
    -- sums may wrap, only the lengths of the windows matter
    have hcounted : ∀ ops size sizes, Small (n + 2) { stats with
        totalDecryptOps := ops
        totalDecryptBytes := size
        decryptTimes := window cfg.decryptBurstWindowSec now (stats.decryptTimes ++ List.replicate 1 now)
        decryptSizeTimes := sizes } := fun _ _ _ =>
      ⟨hs₁.failed.trans (Nat.le_succ _), hs₁.files.trans (Nat.le_succ _), by dsimp only; omega, hs₁.locked⟩
    refine wp_post (burstRule_small hcfg hu.1 hn hwho hw₁ (hcounted _ _ _)) fun stats₂ u₂ _ h₂ => ?_
    rw [wp_bind]
    refine wp_post (volumeRule_small hcfg hu.1 hwho h₂.2 h₂.1) fun stats₃ u₃ _ h₃ => ?_
    refine wp_post (profileRule_small hcfg hu.1 hwho h₃.2 h₃.1 hsize) fun stats₄ u₄ _ h₄ => ?_
    exact keep_small (ht.mono (Nat.le_add_right n 2)) hwho h₄.1 h₄.2
  · exact keep_small (ht.mono (Nat.le_add_right n 2)) hwho (hs₁.mono (Nat.le_succ _)) hw₁

end

end SecurityMonitor

/-! ## Clients -/

namespace BindingPolicy

/-- A client and its label come from one header, but for two words that stand for a missing one. -/
def SmallClients (policy : BindingPolicy) : Prop :=
  ∀ id rec, policy.clients.lookup id = some rec → id.length + rec.label.length ≤ shortHeader + 14 ∧
    Int64Range rec.firstSeenTs ∧ Int64Range rec.lastSeenTs

theorem smallClients_insert {policy : BindingPolicy} (h : SmallClients policy) {enabled : Bool}
    {id : Bytes} {rec : ClientBindingRecord} (hlen : id.length + rec.label.length ≤ shortHeader + 14)
    (hfirst : Int64Range rec.firstSeenTs) (hlast : Int64Range rec.lastSeenTs) :
    SmallClients ⟨enabled, policy.clients.insert id rec⟩ := by
  intro id' rec' hl
  by_cases hid : id' = id
  · subst hid
    rw [AList.lookup_insert, Option.some.injEq] at hl
    exact hl ▸ ⟨hlen, hfirst, hlast⟩
  · rw [AList.lookup_insert_ne hid] at hl
    exact h id' rec' hl

theorem registered_small {policy : BindingPolicy} (h : SmallClients policy) {id label : Bytes}
    (hlen : id.length + label.length ≤ shortHeader + 14) {now : Int} (hnow : Int64Range now) :
    SmallClients (policy.registered id label now) := by
  have hlabel : (sanitizeLabel label).length = label.length := List.length_map _
  unfold registered
  cases hl : policy.clients.lookup id with
  | none => exact smallClients_insert h (hlabel.symm ▸ hlen) hnow hnow
  | some found =>
    obtain ⟨hold, hfirst, -⟩ := h id found hl
    refine smallClients_insert h ?_ hfirst hnow
    dsimp only
    split
    · exact hold
    · rw [hlabel]
      exact hlen

variable {policy : BindingPolicy} (h : SmallClients policy) {w : AuditWorld} (hw : w.Short)
include h hw

theorem registerClient_small {id label : Bytes} (hlen : id.length + label.length ≤ shortHeader + 14) :
    wp Answers (fun policy' u => SmallClients policy' ∧ u.Short) (fun _ => True)
      (policy.registerClient id label) w := by
  unfold registerClient
  rw [wp_ask_bind]
  refine ⟨trivial, fun (now : Int) u hu => ?_⟩
  refine ⟨trivial, fun _ u' hu' => ⟨trivial, registered_small h hlen hu.1.range, ?_⟩⟩
  exact short_call (c := .savePolicy _) (short_call (c := .now) hw trivial hu) trivial hu'

theorem setBinding_small (enabled : Bool) :
    wp Answers (fun policy' u => SmallClients policy' ∧ u.Short) (fun _ => True)
      (policy.setBinding enabled) w :=
  ⟨trivial, fun _ _ hu => ⟨trivial, h, short_call (c := .savePolicy _) hw trivial hu⟩⟩

theorem setClientAllowed_small {id : Bytes} (hlen : id.length ≤ shortHeader) (allowed : Bool) :
    wp Answers (fun policy' u => SmallClients policy' ∧ u.Short) (fun _ => True)
      (policy.setClientAllowed id allowed) w := by
  have hmanual : (bytes "manual").length = 6 := by simp [bytes]
  have hfound : (policy.clients.lookup id).getD {} = {} ∨
      policy.clients.lookup id = some ((policy.clients.lookup id).getD {}) := by
    cases policy.clients.lookup id with
    | none => exact .inl rfl
    | some found => exact .inr rfl
  have hold : id.length + ((policy.clients.lookup id).getD {}).label.length ≤ shortHeader + 14 ∧
      Int64Range ((policy.clients.lookup id).getD {}).firstSeenTs ∧
      Int64Range ((policy.clients.lookup id).getD {}).lastSeenTs := by
    rcases hfound with hnew | hl
    · rw [hnew]
      exact ⟨by simp; omega, by decide, by decide⟩
    · exact h id _ hl
  unfold setClientAllowed
  generalize (policy.clients.lookup id).getD {} = found at hold ⊢
  dsimp only
  split
  · rw [wp_ask_bind]
    refine ⟨trivial, fun (now : Int) u hu => ⟨trivial, fun _ u' hu' => ⟨trivial, ?_, ?_⟩⟩⟩
    · exact smallClients_insert h (by dsimp only; omega) hu.1.range hu.1.range
    · exact short_call (c := .savePolicy _) (short_call (c := .now) hw trivial hu) trivial hu'
  · refine ⟨trivial, fun _ u' hu' => ⟨trivial, ?_, ?_⟩⟩
    · exact smallClients_insert h hold.1 hold.2.1 hold.2.2
    · exact short_call (c := .savePolicy _) hw trivial hu'

end BindingPolicy

end EncoderNext
