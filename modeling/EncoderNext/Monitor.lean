import EncoderNext.Decimal
import EncoderNext.ServerCall

/-!
# The security monitor

Counts logins, failures and file operations of each name over sliding windows,
raises alerts with a cooldown and locks accounts for a while.
-/

namespace EncoderNext

open Program

structure MonitorConfig where
  failedLoginThreshold : Nat := 3
  failedLoginWindowSec : Int := 600
  bulkFilesThreshold : Nat := 20
  bulkFilesWindowSec : Int := 300
  timeMinSamples : Nat := 5
  timeHourFraction : Float := 0.2
  alertCooldownSec : Int := 600
  workHoursStart : Int := -1
  workHoursEnd : Int := -1
  lockFailedLoginSec : Int := 0
  lockBulkFilesSec : Int := 0
  lockSuspiciousTimeSec : Int := 0
  decryptBurstThreshold : Nat := 20
  decryptBurstWindowSec : Int := 60
  decryptVolumeThresholdMb : UInt64 := 256
  decryptVolumeWindowSec : Int := 300
  profileMinDecryptSamples : Nat := 20
  profileDecryptRateFactor : Float := 3.0
  profileDecryptBytesFactor : Float := 4.0

namespace SecurityMonitor

def lockLadder : List Int := [60, 300, 600, 1800, 3600, 7200]

def lockLadderSec (strikeLevel : UInt32) : Int :=
  lockLadder.getD (min (strikeLevel.toNat - 1) 5) 7200

/-- The seconds of a new lock; without a configured length the ladder climbs. -/
def chooseLockDuration (stats : UserStats) (configuredSec : Int) : UserStats × Int :=
  if configuredSec > 0 then (stats, configuredSec)
  else
    let stats :=
      if stats.strikeLevel < 1000 then { stats with strikeLevel := stats.strikeLevel + 1 } else stats
    (stats, lockLadderSec stats.strikeLevel)

variable (cfg : MonitorConfig)

def isOutsideWorkHours (hour : Int) : Bool :=
  if cfg.workHoursStart < 0 ∨ cfg.workHoursEnd < 0 then false
  else if hour < 0 ∨ hour > 23 then false
  else if cfg.workHoursStart ≤ cfg.workHoursEnd then
    hour < cfg.workHoursStart || hour > cfg.workHoursEnd
  else hour > cfg.workHoursEnd && hour < cfg.workHoursStart

def isSuspiciousHour (stats : UserStats) (hour : Int) : Bool :=
  if isOutsideWorkHours cfg hour then true
  else if stats.totalLogins.toNat < cfg.timeMinSamples then false
  else if hour < 0 ∨ hour > 23 then false
  else
    (stats.hourCounts.toList.getD hour.toNat 0).toNat.toFloat <
      stats.totalLogins.toNat.toFloat * cfg.timeHourFraction

/-- Locks the account from `now` on for the chosen time, and never shortens a lock. -/
def lock (who reason : Bytes) (stats : UserStats) (configuredSec now : Int) :
    ServerProgram UserStats := do
  let (stats, lockSec) := chooseLockDuration stats configuredSec
  let stats := { stats with lockUntilTs := max stats.lockUntilTs (now + lockSec) }
  act (.logEvent (bytes "user_locked") who (bytes "locked_until=" ++ decimalInt stats.lockUntilTs ++
    bytes " reason=" ++ reason ++ bytes " lock_sec=" ++ decimalInt lockSec))
  return stats

def lookup (table : Table UserStats) (who : Bytes) : UserStats := (table.lookup who).getD {}

def keep (table : Table UserStats) (who : Bytes) (stats : UserStats) :
    ServerProgram (Table UserStats) := do
  let table := table.insert who stats
  act (.saveStats table)
  return table

def window (windowSec now : Int) (times : List Int) : List Int :=
  times.dropWhile fun t => now - t > windowSec

def countHour (stats : UserStats) (hour : Nat) : Vector UInt32 24 :=
  stats.hourCounts.setIfInBounds hour (stats.hourCounts.toList.getD hour 0 + 1)

def recordLoginSuccess (table : Table UserStats) (who : Bytes) :
    ServerProgram (Table UserStats) := do
  let now ← act .now
  let hour ← act (.localHour now)
  let stats := lookup table who
  -- judged by the counts from before this login
  let suspicious := isSuspiciousHour cfg stats hour
  let stats := { stats with
    totalLogins := stats.totalLogins + 1
    hourCounts := if hour ≥ 0 ∧ hour < 24 then countHour stats hour.toNat else stats.hourCounts
    failedLoginTimes := []
    strikeLevel := if stats.strikeLevel > 0 then stats.strikeLevel - 1 else stats.strikeLevel }
  if suspicious && now - stats.lastTimeAlertTs > cfg.alertCooldownSec then
    let stats := { stats with lastTimeAlertTs := now }
    act (.logAlert (bytes "suspicious_time") who (bytes "suspicious-hour=" ++ decimalInt hour ++
      bytes " total=" ++ decimal stats.totalLogins.toNat))
    keep table who (← lock who (bytes "suspicious_time") stats cfg.lockSuspiciousTimeSec now)
  else keep table who stats

def recordLoginFailure (table : Table UserStats) (who : Bytes) :
    ServerProgram (Table UserStats) := do
  let now ← act .now
  let stats := lookup table who
  let stats := { stats with
    failedLoginTimes := window cfg.failedLoginWindowSec now (stats.failedLoginTimes ++ [now]) }
  if stats.failedLoginTimes.length ≥ cfg.failedLoginThreshold &&
      now - stats.lastFailedAlertTs > cfg.alertCooldownSec then
    let stats := { stats with lastFailedAlertTs := now }
    act (.logAlert (bytes "failed_logins") who (bytes "failed-logins=" ++
      decimal stats.failedLoginTimes.length ++ bytes " window=" ++
      decimalInt cfg.failedLoginWindowSec ++ bytes "s"))
    keep table who (← lock who (bytes "failed_logins") stats cfg.lockFailedLoginSec now)
  else keep table who stats

/-! ## File operations -/

def bulkRule (who op : Bytes) (now : Int) (stats : UserStats) : ServerProgram UserStats := do
  if stats.fileOpTimes.length ≥ cfg.bulkFilesThreshold &&
      now - stats.lastBulkAlertTs > cfg.alertCooldownSec then
    let stats := { stats with lastBulkAlertTs := now }
    act (.logAlert (bytes "bulk_files") who (bytes "op=" ++ op ++ bytes " count=" ++
      decimal stats.fileOpTimes.length ++ bytes " window=" ++
      decimalInt cfg.bulkFilesWindowSec ++ bytes "s"))
    lock who (bytes "bulk_files") stats cfg.lockBulkFilesSec now
  else return stats

def burstRule (who : Bytes) (now : Int) (stats : UserStats) : ServerProgram UserStats := do
  if stats.decryptTimes.length ≥ cfg.decryptBurstThreshold &&
      now - stats.lastDecryptRateAlertTs > cfg.alertCooldownSec then
    let stats := { stats with lastDecryptRateAlertTs := now }
    act (.logAlert (bytes "decrypt_burst") who (bytes "decrypt-burst=" ++
      decimal stats.decryptTimes.length ++ bytes " window=" ++
      decimalInt cfg.decryptBurstWindowSec ++ bytes "s"))
    lock who (bytes "decrypt_burst") stats cfg.lockBulkFilesSec now
  else return stats

def volumeRule (who : Bytes) (now : Int) (stats : UserStats) : ServerProgram UserStats := do
  let windowBytes : UInt64 :=
    stats.decryptSizeTimes.foldl (fun sum item => sum + UInt64.ofNat item.2) 0
  let thresholdBytes := cfg.decryptVolumeThresholdMb * 1024 * 1024
  if thresholdBytes > 0 && windowBytes ≥ thresholdBytes &&
      now - stats.lastDecryptVolumeAlertTs > cfg.alertCooldownSec then
    let stats := { stats with lastDecryptVolumeAlertTs := now }
    act (.logAlert (bytes "decrypt_volume") who (bytes "decrypt-volume-bytes=" ++
      decimal windowBytes.toNat ++ bytes " window=" ++
      decimalInt cfg.decryptVolumeWindowSec ++ bytes "s"))
    lock who (bytes "decrypt_volume") stats cfg.lockBulkFilesSec now
  else return stats

def avgBytes (stats : UserStats) : Float :=
  stats.totalDecryptBytes.toFloat / (max 1 stats.totalDecryptOps).toFloat

def avgRate (stats : UserStats) : Float :=
  stats.totalDecryptOps.toFloat / (max 1 stats.totalLogins).toFloat

def rateAnomaly (stats : UserStats) : Bool :=
  stats.decryptTimes.length.toFloat > avgRate stats * cfg.profileDecryptRateFactor

def bytesAnomaly (stats : UserStats) (size : Nat) : Bool :=
  size.toFloat > avgBytes stats * cfg.profileDecryptBytesFactor

def flag (b : Bool) : Bytes := if b then bytes "1" else bytes "0"

def profileRule (who : Bytes) (size : Nat) (now : Int) (stats : UserStats) :
    ServerProgram UserStats := do
  if stats.totalDecryptOps.toNat ≥ cfg.profileMinDecryptSamples &&
      (rateAnomaly cfg stats || bytesAnomaly cfg stats size) &&
      now - stats.lastDecryptRateAlertTs > cfg.alertCooldownSec then
    let alerted := { stats with lastDecryptRateAlertTs := now }
    -- the source also prints the two rates, which are no whole numbers
    act (.logAlert (bytes "behavior_deviation") who (bytes "rate_anomaly=" ++
      flag (rateAnomaly cfg stats) ++ bytes " bytes_anomaly=" ++ flag (bytesAnomaly cfg stats size) ++
      bytes " bytes=" ++ decimal size ++ bytes " avg_bytes=" ++
      decimal (avgBytes stats).toUInt64.toNat))
    lock who (bytes "behavior_deviation") alerted cfg.lockSuspiciousTimeSec now
  else return stats

def recordDecrypt (who : Bytes) (repeats size : Nat) (now : Int) (stats : UserStats) :
    ServerProgram UserStats := do
  let stats := { stats with
    totalDecryptOps := stats.totalDecryptOps + UInt64.ofNat repeats
    totalDecryptBytes := stats.totalDecryptBytes + UInt64.ofNat size
    decryptTimes :=
      window cfg.decryptBurstWindowSec now (stats.decryptTimes ++ List.replicate repeats now)
    decryptSizeTimes := (stats.decryptSizeTimes ++ [(now, size)]).dropWhile fun item =>
      now - item.1 > cfg.decryptVolumeWindowSec }
  let stats ← burstRule cfg who now stats
  let stats ← volumeRule cfg who now stats
  profileRule cfg who size now stats

def recordFileOp (table : Table UserStats) (who op : Bytes) (count size : Nat) :
    ServerProgram (Table UserStats) := do
  let now ← act .now
  -- no files are counted as one
  let repeats := if count = 0 then 1 else count
  let stats := lookup table who
  let stats := { stats with
    fileOpTimes :=
      window cfg.bulkFilesWindowSec now (stats.fileOpTimes ++ List.replicate repeats now) }
  let stats ← bulkRule cfg who op now stats
  if op = bytes "decrypt" then keep table who (← recordDecrypt cfg who repeats size now stats)
  else keep table who stats

/-! ## Locks -/

def lockedAt (table : Table UserStats) (who : Bytes) (now : Int) : Option Int :=
  match table.lookup who with
  | none => none
  | some stats => if stats.lockUntilTs ≤ now then none else some (stats.lockUntilTs - now)

def isLocked (table : Table UserStats) (who : Bytes) : ServerProgram (Option Int) := do
  let now ← act .now
  return lockedAt table who now

def unlockUser (table : Table UserStats) (who : Bytes) :
    ServerProgram (Bool × Table UserStats) := do
  match table.lookup who with
  | none => return (false, table)
  | some stats =>
    act (.logEvent (bytes "user_unlocked") who (bytes "admin_reset"))
    return (true, ← keep table who { stats with lockUntilTs := 0, strikeLevel := 0 })

/-! ## One operation after another -/

inductive Op where
  | failure (who : Bytes)
  | success (who : Bytes)
  | fileOp (who op : Bytes) (count size : Nat)
  | unlock (who : Bytes)

def Op.who : Op → Bytes
  | failure who | success who | fileOp who .. | unlock who => who

def Op.run (table : Table UserStats) : Op → ServerProgram (Table UserStats)
  | failure who => recordLoginFailure cfg table who
  | success who => recordLoginSuccess cfg table who
  | fileOp who op count size => recordFileOp cfg table who op count size
  | unlock who => Prod.snd <$> unlockUser table who

/-- What is left of an account's statistics after a restart. -/
def restarted (stats : UserStats) : UserStats :=
  { hourCounts := stats.hourCounts, totalLogins := stats.totalLogins
    lockUntilTs := stats.lockUntilTs }

def Restarted (table : Table UserStats) : Prop :=
  ∀ who stats, table.lookup who = some stats → restarted stats = stats

end SecurityMonitor

end EncoderNext
