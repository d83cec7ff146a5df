import EncoderNext.WifiDraft
import EncoderNext.WifiJournal

/-!
# The managed Netplan file and the recovery worker

The one managed file is read and replaced only in the exact form this program
writes. Recovery puts back what the journal keeps and applies it; a commit
checks the file, the live network and the clock again under the journal's lock.
-/

namespace EncoderNext

open Program

variable (sha256 : Sha256) (kdf : Pbkdf2)

namespace NetplanFiles

def maximum : Nat := 4096

def canonical (contents : Bytes) : Bool :=
  contents != [] && contents.length ≤ maximum && (WifiDraft.read kdf contents).isOk

def open_ : Fallible Unit := do
  ensure (← sys .openNetplan) "Unsafe Netplan directory"

def backup : Fallible (Option Bytes) := do
  match ← sys (.read .netplan) with
  | .absent => return none
  | .fault message => throw message
  | .bytes contents =>
    ensure (contents != [] && contents.length ≤ maximum) "Unsafe managed Wi-Fi configuration"
    ensure (canonical kdf contents) "Refusing noncanonical Wi-Fi configuration"
    return some contents

def replace (contents : Bytes) : Fallible Unit := do
  ensure (canonical kdf contents) "Unsupported managed Wi-Fi configuration format or size"
  let _ ← backup kdf
  File.netplan.persist contents

def remove : Fallible Unit := do
  match ← backup kdf with
  | some _ => ensure (← sys (.unlink .netplan)) "Cannot remove managed Wi-Fi configuration"
  | none => pure ()
  ensure (← sys (.syncDirectory .netplan)) "Wi-Fi restoration durability uncertain"

def restore (existed : Bool) (contents : Bytes) : Fallible Unit :=
  if existed then replace kdf contents
  else do
    ensure (contents == []) "Unexpected backup for absent Wi-Fi configuration"
    remove kdf

end NetplanFiles

namespace WifiRecoveryWorker

def restoreManaged (record : RecoveryRecord) : SysProgram (Option Bool) := do
  let files ← (do NetplanFiles.open_; NetplanFiles.restore kdf record.previousExists record.previous :
    Fallible Unit).run
  match files with
  | .error _ => return some false
  | .ok () => return some (← sys .restoreNetwork)

def managedRecoveryTick : Fallible RecoveryOutcome := do
  WifiJournal.open_
  let (boot, now) ← recoveryClock
  WifiJournal.recoverDue sha256 boot now (restoreManaged kdf)

def managedCancel (transaction : Bytes) : Fallible RecoveryOutcome := do
  WifiJournal.open_
  let (boot, _) ← recoveryClock
  WifiJournal.cancel sha256 transaction boot (restoreManaged kdf)

def persisted (target : WifiProfile) (file : Option Bytes) : Bool :=
  file.isSome && WifiDraft.yaml target == file

/-- The checks of a commit, ending with a new reading of the clock: slow checks
must not extend the confirmation window. -/
def verifyCommit (transaction : Bytes) (target : WifiProfile) (verifyLive : SysProgram Bool) :
    Fallible (Bytes × UInt64) := do
  WifiJournal.open_
  let record ← WifiJournal.load sha256
  let (boot, now) ← recoveryClock
  ensure (record.any fun record => WifiJournal.committable record transaction boot now)
    "Pending Wi-Fi transaction cannot be confirmed"
  NetplanFiles.open_
  let file ← NetplanFiles.backup kdf
  ensure (persisted target file) "Persisted Wi-Fi profile does not match the confirmation target"
  ensure (← verifyLive) "Live Wi-Fi confirmation checks failed"
  let again ← NetplanFiles.backup kdf
  ensure (persisted target again) "Wi-Fi candidate changed during confirmation checks"
  recoveryClock

def managedCommit (transaction : Bytes) (target : WifiProfile) (verifyLive : SysProgram Bool) :
    Fallible Unit := do
  let (boot, now) ← verifyCommit sha256 kdf transaction target verifyLive
  WifiJournal.commit sha256 transaction boot now

end WifiRecoveryWorker

/-! ## What the parts do -/

section
variable {sha256 kdf} {K : World → Prop} {w : World}

theorem open_journal_spec {Q : Unit → World → Prop} (hK : K w) (hQ : Q () w) :
    wpOk (sysEnv sha256) Q K WifiJournal.open_ w := by
  unfold WifiJournal.open_
  rw [wpOk_ask]
  refine ⟨hK, fun opened w' h => ?_⟩
  subst h
  rw [wpOk_ensure_last]
  exact ⟨hK, fun _ => hQ⟩

theorem open_netplan_spec {Q : Unit → World → Prop} (hK : K w) (hQ : Q () w) :
    wpOk (sysEnv sha256) Q K NetplanFiles.open_ w := by
  unfold NetplanFiles.open_
  rw [wpOk_ask]
  refine ⟨hK, fun opened w' h => ?_⟩
  subst h
  rw [wpOk_ensure_last]
  exact ⟨hK, fun _ => hQ⟩

def World.read (w : World) (boot : Option Bytes) (time : Option UInt64) : World :=
  { w with boot := boot, time := time }

@[simp] theorem World.record?_read (boot : Option Bytes) (time : Option UInt64) :
    (w.read boot time).record? sha256 = w.record? sha256 := rfl

theorem clock_spec {Q : Bytes × UInt64 → World → Prop} (hK : ∀ b t, K (w.read b t))
    (hQ : ∀ boot now, bootValid boot = true → Q (boot, now) (w.read (some boot) (some now))) :
    wpOk (sysEnv sha256) Q K recoveryClock w := by
  unfold recoveryClock
  rw [wpOk_ask]
  refine ⟨hK w.boot w.time, fun boot w₁ h₁ => ?_⟩
  obtain rfl : w₁ = w.read boot w.time := h₁
  cases boot with
  | none => exact (wpOk_throw ..).mpr (hK _ _)
  | some boot =>
    simp only
    rw [wpOk_ensure]
    refine ⟨hK _ _, fun hb => ?_⟩
    rw [wpOk_ask]
    refine ⟨hK _ _, fun time w₂ h₂ => ?_⟩
    obtain rfl : w₂ = w.read (some boot) time := h₂
    cases time with
    | none => exact (wpOk_throw ..).mpr (hK _ _)
    | some now => exact (wpOk_pure ..).mpr ⟨hK _ _, hQ boot now hb⟩

theorem load_ok {Q : Option RecoveryRecord → World → Prop} (hK : K w)
    (hQ : Q (w.record? sha256) w) : wpOk (sysEnv sha256) Q K (WifiJournal.load sha256) w := by
  refine WifiJournal.load_spec hK (fun e a he => by cases he) ?_ ?_
  · intro hn a he
    cases he
    have hr : w.record? sha256 = none := by simp [World.record?, RecoveryRecord.ofFile, hn]
    exact hr ▸ hQ
  · intro record hr a he
    cases he
    exact hr ▸ hQ

theorem save_ok {Q : Unit → World → Prop} (record : RecoveryRecord) (hK : ∀ s, K (w.stage s))
    (hdone : ∀ s image, record.valid = true →
      RecoveryRecord.ofFile sha256 (some image) = some record →
      K ((w.stage s).recorded record image) ∧ Q () ((w.stage s).recorded record image)) :
    wpOk (sysEnv sha256) Q K (WifiJournal.save sha256 record) w := by
  refine WifiJournal.save_spec (fun _ _ _ _ h => h) record hK (fun s e a he => by cases he) ?_
  intro s image hv hd
  obtain ⟨hk, hq⟩ := hdone s image hv (RecoveryRecord.ofFile_of_decode hd)
  exact ⟨hk, fun _ _ => hq, fun _ _ _ he => by cases he⟩

theorem backup_ok {Q : Option Bytes → World → Prop} (hK : K w)
    (hQ : (∀ b, w.file .netplan = some b → NetplanFiles.canonical kdf b = true) →
      Q (w.file .netplan) w) :
    wpOk (sysEnv sha256) Q K (NetplanFiles.backup kdf) w := by
  unfold NetplanFiles.backup
  rw [wpOk_ask]
  refine ⟨hK, fun contents w' h => ?_⟩
  cases contents with
  | absent =>
    obtain ⟨rfl, hf⟩ := h
    have hq := hQ fun b hb => by rw [hf] at hb; cases hb
    exact (wpOk_pure ..).mpr ⟨hK, hf ▸ hq⟩
  | fault message =>
    subst h
    exact (wpOk_throw ..).mpr hK
  | bytes b =>
    obtain ⟨rfl, hf⟩ := h
    simp only
    rw [wpOk_ensure]
    refine ⟨hK, fun _ => ?_⟩
    rw [wpOk_ensure]
    refine ⟨hK, fun hc => ?_⟩
    have hq := hQ fun b' hb' => by
      rw [hf] at hb'
      cases hb'
      exact hc
    exact (wpOk_pure ..).mpr ⟨hK, hf ▸ hq⟩

theorem replace_ok {Q : Unit → World → Prop} {contents : Bytes} (hK : ∀ s, K (w.stage s))
    (hdone : ∀ s, K ((w.stage s).replaced .netplan (some contents)) ∧
      Q () ((w.stage s).replaced .netplan (some contents))) :
    wpOk (sysEnv sha256) Q K (NetplanFiles.replace kdf contents) w := by
  unfold NetplanFiles.replace
  rw [wpOk_ensure]
  refine ⟨hK w.staged, fun _ => ?_⟩
  rw [wpOk_bind]
  refine backup_ok (hK w.staged) fun _ => ?_
  refine persist_spec (fun _ _ _ _ h => h) .netplan contents hK (fun s e a he => by cases he) ?_
  intro s hs
  obtain rfl : s .netplan = contents := hs
  obtain ⟨hk, hq⟩ := hdone s
  exact ⟨hk, fun _ _ => hq, fun _ _ _ he => by cases he⟩

/-- Recovery puts the backup in the place of the file, at once or not at all. -/
theorem restore_ok {Q : Unit → World → Prop} {record : RecoveryRecord} (hK : ∀ s, K (w.stage s))
    (hdone : ∀ s, K ((w.stage s).replaced .netplan record.backup) ∧
      Q () ((w.stage s).replaced .netplan record.backup)) :
    wpOk (sysEnv sha256) Q K
      (NetplanFiles.restore kdf record.previousExists record.previous) w := by
  unfold NetplanFiles.restore
  by_cases he : record.previousExists = true
  · have hb : record.backup = some record.previous := by simp [RecoveryRecord.backup, he]
    rw [if_pos he]
    rw [hb] at hdone
    exact replace_ok hK hdone
  · have hb : record.backup = none := by simp [RecoveryRecord.backup, he]
    rw [if_neg he]
    rw [hb] at hdone
    rw [wpOk_ensure]
    refine ⟨hK w.staged, fun _ => ?_⟩
    unfold NetplanFiles.remove
    rw [wpOk_bind]
    refine backup_ok (hK w.staged) fun _ => ?_
    have hsync : ∀ w', K w' → Q () w' → wpOk (sysEnv sha256) Q K (do
        ensure (← sys (.syncDirectory .netplan)) "Wi-Fi restoration durability uncertain" :
          Fallible Unit) w' := by
      intro w' hk hq
      rw [wpOk_ask]
      refine ⟨hk, fun synced w'' h => ?_⟩
      subst h
      rw [wpOk_ensure_last]
      exact ⟨hk, fun _ => hq⟩
    cases hf : w.file .netplan with
    | none =>
      -- nothing to remove, and the same world
      have hsame : (w.stage w.staged).replaced .netplan none = w := by
        show { w with file := Function.update w.file .netplan none } = w
        rw [← hf, Function.update_eq_self]
      obtain ⟨hk, hq⟩ := hdone w.staged
      rw [hsame] at hk hq
      exact hsync w hk hq
    | some b =>
      simp only
      rw [wpOk_ask]
      refine ⟨hK w.staged, fun unlinked w' h => ?_⟩
      rw [wpOk_ensure]
      cases unlinked with
      | false =>
        subst h
        exact ⟨hK w'.staged, fun h => by cases h⟩
      | true =>
        subst h
        obtain ⟨hk, hq⟩ := hdone w.staged
        exact ⟨hk, fun _ => hsync _ hk hq⟩

theorem file_of_persisted {target : WifiProfile} {c : Bytes} {file : Option Bytes}
    (hc : WifiDraft.yaml target = some c) (h : WifiRecoveryWorker.persisted target file = true) :
    file = some c := by
  simp only [WifiRecoveryWorker.persisted, Bool.and_eq_true, beq_iff_eq] at h
  exact h.2.symm.trans hc

theorem verifyCommit_spec {Q : Bytes × UInt64 → World → Prop} {transaction : Bytes}
    {target : WifiProfile} {verifyLive : SysProgram Bool}
    (hlive : ∀ {Q' : Bool → World → Prop} {w' : World}, K w' → (∀ r, Q' r w') →
      wp (sysEnv sha256) Q' K verifyLive w')
    (hK : ∀ b t, K (w.read b t))
    (hQ : ∀ boot now, WifiRecoveryWorker.persisted target (w.file .netplan) = true →
      Q (boot, now) (w.read (some boot) (some now))) :
    wpOk (sysEnv sha256) Q K
      (WifiRecoveryWorker.verifyCommit sha256 kdf transaction target verifyLive) w := by
  have hK₀ : K w := hK w.boot w.time
  unfold WifiRecoveryWorker.verifyCommit
  rw [wpOk_bind]
  apply open_journal_spec hK₀
  rw [wpOk_bind]
  apply load_ok hK₀
  rw [wpOk_bind]
  apply clock_spec hK
  intro boot now _
  simp only
  rw [wpOk_ensure]
  refine ⟨hK _ _, fun _ => ?_⟩
  rw [wpOk_bind]
  apply open_netplan_spec (hK _ _)
  rw [wpOk_bind]
  apply backup_ok (hK _ _)
  intro _
  rw [wpOk_ensure]
  refine ⟨hK _ _, fun hp => ?_⟩
  rw [wpOk_bind, wpOk_lift]
  apply hlive (hK _ _)
  intro live
  rw [wpOk_ensure]
  refine ⟨hK _ _, fun _ => ?_⟩
  rw [wpOk_bind]
  apply backup_ok (hK _ _)
  intro _
  rw [wpOk_ensure]
  refine ⟨hK _ _, fun _ => ?_⟩
  -- the second reading is the one that is handed on
  apply clock_spec (w := w.read (some boot) (some now)) hK
  intro boot' now' _
  exact hQ boot' now' hp

theorem restoreManaged_ok {Q : Option Bool → World → Prop} {record : RecoveryRecord}
    (hK : ∀ s, K (w.stage s)) (hfail : ∀ w', K w' → Q (some false) w')
    (hdone : ∀ s, K ((w.stage s).replaced .netplan record.backup) ∧
      Q (some true) ((w.stage s).replaced .netplan record.backup)) :
    wp (sysEnv sha256) Q K (WifiRecoveryWorker.restoreManaged kdf record) w := by
  unfold WifiRecoveryWorker.restoreManaged
  rw [wp_bind]
  have hfiles : wpOk (sysEnv sha256)
      (fun _ w' => ∃ s, w' = (w.stage s).replaced .netplan record.backup) K
      (do NetplanFiles.open_; NetplanFiles.restore kdf record.previousExists record.previous) w := by
    rw [wpOk_bind]
    refine open_netplan_spec (hK w.staged) ?_
    exact restore_ok hK fun s => ⟨(hdone s).1, s, rfl⟩
  refine wp_post hfiles fun r w' hk hr => ?_
  cases r with
  | error e => exact ⟨hk, hfail _ hk⟩
  | ok u =>
    obtain ⟨s, rfl⟩ := hr u rfl
    rw [wp_ask_bind]
    refine ⟨hk, fun applied w'' h => ?_⟩
    subst h
    cases applied with
    | false => exact ⟨hk, hfail _ hk⟩
    | true => exact hdone s

/-- A restoration puts the backup back and then resolves the record. -/
theorem restorePending_ok {Q : RecoveryOutcome → World → Prop} {record : RecoveryRecord}
    (hK : ∀ s, K (w.stage s)) (hback : ∀ s, K ((w.stage s).replaced .netplan record.backup))
    (hdone : ∀ s image,
      RecoveryRecord.ofFile sha256 (some image) = some (record.resolved .restored) →
      K (((w.stage s).replaced .netplan record.backup).recorded (record.resolved .restored) image) ∧
      Q .restored
        (((w.stage s).replaced .netplan record.backup).recorded (record.resolved .restored) image)) :
    wpOk (sysEnv sha256) Q K
      (WifiJournal.restorePending sha256 record (WifiRecoveryWorker.restoreManaged kdf)) w := by
  unfold WifiJournal.restorePending
  rw [wpOk_bind, wpOk_lift]
  apply restoreManaged_ok hK
  · intro w' hk
    rw [wpOk_ensure]
    exact ⟨hk, nofun⟩
  · intro s
    refine ⟨hback s, ?_⟩
    rw [wpOk_ensure]
    refine ⟨hback s, fun _ => ?_⟩
    rw [wpOk_bind]
    apply save_ok
    · exact hback
    · intro s' image _ hd
      obtain ⟨hk, hq⟩ := hdone s' image hd
      exact ⟨hk, (wpOk_pure ..).mpr ⟨hk, hq⟩⟩

theorem managedCancel_ok {Q : RecoveryOutcome → World → Prop} {transaction : Bytes}
    (hread : ∀ b t, K (w.read b t))
    (hown : ∀ record b t, w.record? sha256 = some record → record.transaction = transaction →
      (record.phase = .restored → Q .nothing (w.read b t)) ∧
      (record.phase = .pending → wpOk (sysEnv sha256) Q K (WifiJournal.restorePending sha256 record
        (WifiRecoveryWorker.restoreManaged kdf)) (w.read b t))) :
    wpOk (sysEnv sha256) Q K (WifiRecoveryWorker.managedCancel sha256 kdf transaction) w := by
  have hK : K w := hread w.boot w.time
  unfold WifiRecoveryWorker.managedCancel
  rw [wpOk_bind]
  apply open_journal_spec hK
  rw [wpOk_bind]
  apply clock_spec hread
  intro boot now _
  simp only
  unfold WifiJournal.cancel
  rw [wpOk_ensure]
  refine ⟨hread _ _, fun _ => ?_⟩
  rw [wpOk_bind]
  apply load_ok (hread _ _)
  cases hr : w.record? sha256 with
  | none =>
    simp only [World.record?_read, hr]
    exact (wpOk_throw ..).mpr (hread _ _)
  | some record =>
    simp only [World.record?_read, hr]
    rw [wpOk_ensure]
    refine ⟨hread _ _, fun hmatch => ?_⟩
    simp only [Bool.and_eq_true, beq_iff_eq, bne_iff_ne] at hmatch
    obtain ⟨hnothing, hpending⟩ := hown record (some boot) (some now) hr hmatch.1.1
    by_cases hrestored : record.phase = .restored
    · rw [if_pos hrestored]
      exact (wpOk_pure ..).mpr ⟨hread _ _, hnothing hrestored⟩
    · rw [if_neg hrestored]
      apply hpending
      cases hp : record.phase <;> simp_all

end

end EncoderNext
