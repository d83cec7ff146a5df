import EncoderNext.NetplanFiles

/-!
# The managed backend

The backend of a Wi-Fi change over the journal and the managed file: prepare
keeps the file it found, activate installs the candidate, commit and rollback
leave the decision to the journal.
-/

namespace EncoderNext

open Program

structure WifiManagedBackend where
  transaction : Bytes := []
  error : String := ""
  target : Option WifiProfile := none
  candidate : Bytes := []
  attempted : Bool := false
  prepared : Bool := false
  activated : Bool := false
  committed : Bool := false
  restored : Bool := false

namespace WifiManagedBackend

open WifiRecoveryWorker

variable (sha256 : Sha256) (kdf : Pbkdf2)

def fail (b : WifiManagedBackend) (message : String) : Bool × WifiManagedBackend :=
  (false, { b with error := message })

def forgetTarget (b : WifiManagedBackend) : WifiManagedBackend :=
  { b with target := none, candidate := [] }

def conclude {α : Type} (b : WifiManagedBackend) (x : Fallible α) (success : α → WifiManagedBackend) :
    SysProgram (Bool × WifiManagedBackend) := do
  match ← x.run with
  | .ok a => return (true, success a)
  | .error message => return b.fail message

/-- `silent` is the error text that stays when the record is just not current. -/
def current (transaction : Bytes) (silent : String) (record : RecoveryRecord) : Fallible Unit := do
  let (boot, now) ← recoveryClock
  ensure (WifiJournal.committable record transaction boot now) silent

/-- Ethernet, target and supervisor, each asked only if the one before agreed. -/
def safe (target : WifiProfile) : SysProgram Bool := do
  if !(← sys .ethernetReady) then return false
  else if !(← sys (.preflight target)) then return false
  else sys .watchdogReady

/-! ## Prepare -/

/-- The file to come back to, while no other transaction is pending. -/
def previousFile (target : WifiProfile) : Fallible (Option Bytes) := do
  ensure (← safe target) "Wi-Fi preparation safety checks failed"
  WifiJournal.open_
  let record ← WifiJournal.load sha256
  ensure (!record.any (·.phase == .pending)) "Another Wi-Fi transaction is pending"
  NetplanFiles.open_
  NetplanFiles.backup kdf

/-- The target and its rendering under the DHCPv6 option of the previous file. -/
def inherit (target : WifiProfile) (candidate : Bytes) :
    Option Bytes → Except String (WifiProfile × Bytes)
  | none => .ok (target, candidate)
  | some previous =>
    match WifiDraft.read kdf previous with
    | .error message => .error message
    | .ok found =>
      -- the file that was found decides about DHCPv6
      let target := { target with dhcp6 := found.dhcp6 }
      match WifiDraft.make target with
      | .error message => .error message
      | .ok inherited => .ok (target, inherited.netplanYaml)

def identify (previous : Option Bytes) (lifetime : Int) : Fallible RecoveryRecord := do
  let (boot, now) ← recoveryClock
  match ← sys .transactionId with
  | none => throw "Cannot create Wi-Fi transaction identity"
  | some random =>
    return { phase := .pending
             previousExists := previous.isSome
             transaction := toHex random.toList
             bootId := boot
             deadlineMs := now + UInt64.ofInt lifetime * 1000
             previous := previous.getD [] }

def beginRecord (record : RecoveryRecord) : Fallible Unit := do
  WifiJournal.begin sha256 record
  ensure (← sys .watchdogReady) "Recovery supervisor or transaction is not ready"
  withError "Recovery supervisor or transaction is not ready" (current record.transaction "" record)

def prepare (b : WifiManagedBackend) (profile : WifiProfile) (lifetime : Int) :
    SysProgram (Bool × WifiManagedBackend) :=
  if b.attempted then return b.fail "Wi-Fi backend is single use"
  else
    let b := { b with attempted := true }
    if lifetime ≤ 0 ∨ lifetime > 90 then return b.fail "Invalid recovery lifetime"
    else
      match WifiDraft.make profile with
      | .error message => return b.fail message
      | .ok draft =>
        let b := { b with candidate := draft.netplanYaml, error := "" }
        match WifiDraft.read kdf draft.netplanYaml with
        | .error message => return b.fail message
        | .ok target => do
          let b := { b with target := some target }
          match ← (previousFile sha256 kdf target).run with
          | .error message => return b.fail message
          | .ok previous =>
            match inherit kdf target draft.netplanYaml previous with
            | .error message => return b.fail message
            | .ok (target, candidate) =>
              let b := { b with target := some target, candidate := candidate }
              match ← (identify previous lifetime).run with
              | .error message => return b.fail message
              | .ok record =>
                -- ownership is noted before the journal is touched
                let b := { b with transaction := record.transaction }
                b.conclude (beginRecord sha256 record) fun _ => { b with prepared := true }

/-! ## Activate, probe, commit, rollback -/

/-- The candidate on disk and applied, checked before and after. -/
def install (b : WifiManagedBackend) (target : WifiProfile) : Fallible Unit := do
  WifiJournal.open_
  match ← WifiJournal.load sha256 with
  | none => throw b.error
  | some record =>
    current b.transaction b.error record
    ensure (← safe target) "Wi-Fi activation safety checks failed"
    NetplanFiles.open_
    let before ← NetplanFiles.backup kdf
    ensure (before.isSome == record.previousExists && before.getD [] == record.previous)
      "Wi-Fi configuration changed after backup"
    current b.transaction b.error record
    NetplanFiles.replace kdf b.candidate
    ensure (← sys (.applyTarget target)) "Wi-Fi target application failed"
    withError "Wi-Fi activation did not preserve the pending candidate" do
      let after ← NetplanFiles.backup kdf
      ensure (after == some b.candidate) ""
      current b.transaction "" record

def activate (b : WifiManagedBackend) : SysProgram (Bool × WifiManagedBackend) :=
  match b.target with
  | none => return b.fail "Wi-Fi activation is not prepared"
  | some target =>
    if !b.prepared || b.activated || b.committed || b.restored then
      return b.fail "Wi-Fi activation is not prepared"
    else b.conclude (install sha256 kdf b target) fun _ => { b with activated := true }

def probe (b : WifiManagedBackend) : SysProgram WifiLink :=
  match b.target with
  | none => return .failed
  | some target => do
    if !b.activated || b.committed || b.restored then return .failed
    else if !(← sys .watchdogReady) then return .failed
    else sys (.probeTarget target)

def verifyLive (target : WifiProfile) : SysProgram Bool := do
  if !(← safe target) then return false
  else return (← sys (.probeTarget target)) == .ready

def commit (b : WifiManagedBackend) : SysProgram (Bool × WifiManagedBackend) :=
  match b.target with
  | none => return b.fail "Wi-Fi confirmation is not pending"
  | some target =>
    if !b.activated || b.committed || b.restored then
      return b.fail "Wi-Fi confirmation is not pending"
    else
      b.conclude (managedCommit sha256 kdf b.transaction target (verifyLive target)) fun _ =>
        { b with committed := true }.forgetTarget

def rollback (b : WifiManagedBackend) : SysProgram (Bool × WifiManagedBackend) := do
  if b.committed then return b.fail "Committed Wi-Fi transaction cannot be rolled back"
  else if b.transaction = [] ∨ b.restored then return (true, b.forgetTarget)
  else
    match ← (managedCancel sha256 kdf b.transaction).run with
    | .ok .restored | .ok .nothing => return (true, { b with restored := true }.forgetTarget)
    | .ok .waiting => return (false, b)
    | .error message => return b.fail message

/-! ## What the parts do -/

section
variable {sha256 kdf} {w : World}

theorem safe_spec {K : World → Prop} {Q : Bool → World → Prop} (target : WifiProfile) (hK : K w)
    (hQ : ∀ r, Q r w) : wp (sysEnv sha256) Q K (safe target) w := by
  unfold safe
  rw [wp_ask_bind]
  refine ⟨hK, fun ethernet w₁ h₁ => ?_⟩
  subst h₁
  cases ethernet with
  | false => exact ⟨hK, hQ _⟩
  | true =>
    simp only [Bool.not_true, Bool.false_eq_true, if_false]
    rw [wp_ask_bind]
    refine ⟨hK, fun preflight w₂ h₂ => ?_⟩
    subst h₂
    cases preflight with
    | false => exact ⟨hK, hQ _⟩
    | true =>
      refine ⟨hK, fun ready w₃ h₃ => ?_⟩
      subst h₃
      exact ⟨hK, hQ _⟩

theorem verifyLive_spec {K : World → Prop} {Q : Bool → World → Prop} (target : WifiProfile)
    (hK : K w) (hQ : ∀ r, Q r w) : wp (sysEnv sha256) Q K (verifyLive target) w := by
  unfold verifyLive
  rw [wp_bind]
  apply safe_spec target hK
  intro r
  cases r with
  | false => exact ⟨hK, hQ _⟩
  | true =>
    simp only [Bool.not_true, Bool.false_eq_true, if_false]
    rw [wp_ask_bind]
    refine ⟨hK, fun link w₁ h₁ => ?_⟩
    subst h₁
    exact ⟨hK, hQ _⟩

theorem current_spec {K : World → Prop} {Q : Unit → World → Prop} {transaction : Bytes}
    {silent : String} {record : RecoveryRecord} (hK : ∀ b t, K (w.read b t))
    (hQ : ∀ boot now, WifiJournal.committable record transaction boot now = true →
      Q () (w.read (some boot) (some now))) :
    wpOk (sysEnv sha256) Q K (current transaction silent record) w := by
  unfold current
  rw [wpOk_bind]
  apply clock_spec hK
  intro boot now _
  simp only
  rw [wpOk_ensure_last]
  exact ⟨hK _ _, hQ boot now⟩

theorem conclude_spec {α : Type} {env : Env World SysCall SysCall.Reply} {K : World → Prop}
    {Q : Bool × WifiManagedBackend → World → Prop} {b : WifiManagedBackend} {x : Fallible α}
    {success : α → WifiManagedBackend} (hfail : ∀ message w', K w' → Q (b.fail message) w')
    (h : wpOk env (fun a w' => Q (true, success a) w') K x w) :
    wp env Q K (b.conclude x success) w := by
  unfold conclude
  rw [wp_bind]
  refine wp_post h fun r w' hk hr => ?_
  cases r with
  | ok a => exact ⟨hk, hr a rfl⟩
  | error message => exact ⟨hk, hfail message w' hk⟩

theorem previousFile_spec {K : World → Prop} {Q : Option Bytes → World → Prop}
    (target : WifiProfile) (hK : K w) (hQ : Q (w.file .netplan) w) :
    wpOk (sysEnv sha256) Q K (previousFile sha256 kdf target) w := by
  unfold previousFile
  rw [wpOk_bind, wpOk_lift]
  apply safe_spec target hK
  intro ready
  rw [wpOk_ensure]
  refine ⟨hK, fun _ => ?_⟩
  rw [wpOk_bind]
  apply open_journal_spec hK
  rw [wpOk_bind]
  apply load_ok hK
  rw [wpOk_ensure]
  refine ⟨hK, fun _ => ?_⟩
  rw [wpOk_bind]
  apply open_netplan_spec hK
  exact backup_ok hK fun _ => hQ

theorem identify_spec {env : Env World SysCall SysCall.Reply} {K : World → Prop}
    {Q : RecoveryRecord → World → Prop} {previous : Option Bytes} {lifetime : Int}
    (henv : ∀ w c r w', env w c r w' → sysEnv sha256 w c r w') (hK : ∀ b t, K (w.read b t))
    (hQ : ∀ record b t d w', env (w.read b t) .transactionId (some d) w' →
      record.transaction = toHex d.toList → record.backup = previous → Q record (w.read b t)) :
    wpOk env Q K (identify previous lifetime) w := by
  have hrest : ∀ boot now, wpOk env Q K (do
      match ← sys .transactionId with
      | none => throw "Cannot create Wi-Fi transaction identity"
      | some random =>
        return { phase := .pending
                 previousExists := previous.isSome
                 transaction := toHex random.toList
                 bootId := boot
                 deadlineMs := now + UInt64.ofInt lifetime * 1000
                 previous := previous.getD [] } : Fallible RecoveryRecord)
      (w.read (some boot) (some now)) := by
    intro boot now
    rw [wpOk_ask]
    refine ⟨hK _ _, fun random w' h => ?_⟩
    have hsame : w' = w.read (some boot) (some now) := henv _ _ _ _ h
    subst hsame
    cases random with
    | none => exact (wpOk_throw ..).mpr (hK _ _)
    | some random =>
      rw [wpOk_pure]
      refine ⟨hK _ _, hQ _ _ _ random _ h rfl ?_⟩
      cases previous <;> rfl
  unfold identify
  rw [wpOk_bind]
  refine wp_env henv ?_
  apply clock_spec hK
  intro boot now _
  exact hrest boot now

/-- An activation reads, and replaces the file by the candidate while its own
transaction is pending. -/
theorem install_spec {K : World → Prop} {b : WifiManagedBackend} {target : WifiProfile}
    (hkeep : ∀ bt t s, K ((w.read bt t).stage s))
    (hnext : ∀ record bt t s, w.record? sha256 = some record → record.phase = .pending →
      record.transaction = b.transaction →
      K (((w.read bt t).stage s).replaced .netplan (some b.candidate))) :
    wpOk (sysEnv sha256) (fun _ _ => True) K (install sha256 kdf b target) w := by
  have hread : ∀ bt t, K (w.read bt t) := fun bt t => hkeep bt t w.staged
  have hnow : K w := hread w.boot w.time
  unfold install
  rw [wpOk_bind]
  apply open_journal_spec hnow
  rw [wpOk_bind]
  apply load_ok hnow
  cases hr : w.record? sha256 with
  | none => exact (wpOk_throw ..).mpr hnow
  | some record =>
    simp only
    rw [wpOk_bind]
    apply current_spec hread
    intro boot now hcurrent
    simp only [WifiJournal.committable, Bool.and_eq_true, beq_iff_eq] at hcurrent
    -- the journal is pending on this transaction, so the candidate may stand
    have hafter : ∀ bt t s, K (((w.read bt t).stage s).replaced .netplan (some b.candidate)) :=
      fun bt t s => hnext record bt t s hr hcurrent.1.1.1 hcurrent.1.1.2
    rw [wpOk_bind, wpOk_lift]
    apply safe_spec target (hread _ _)
    intro ready
    rw [wpOk_ensure]
    refine ⟨hread _ _, fun _ => ?_⟩
    rw [wpOk_bind]
    apply open_netplan_spec (hread _ _)
    rw [wpOk_bind]
    apply backup_ok (hread _ _)
    intro _
    rw [wpOk_ensure]
    refine ⟨hread _ _, fun _ => ?_⟩
    rw [wpOk_bind]
    apply current_spec (w := w.read (some boot) (some now)) hread
    intro boot' now' _
    rw [wpOk_bind]
    apply replace_ok
    · intro s
      exact hkeep _ _ s
    · intro s
      refine ⟨hafter _ _ s, ?_⟩
      rw [wpOk_ask]
      refine ⟨hafter _ _ s, fun applied w' happlied => ?_⟩
      subst happlied
      rw [wpOk_ensure]
      refine ⟨hafter _ _ s, fun _ => ?_⟩
      apply wpOk_withError
      rw [wpOk_bind]
      apply backup_ok (hafter _ _ s)
      intro _
      rw [wpOk_ensure]
      refine ⟨hafter _ _ s, fun _ => ?_⟩
      apply current_spec
      · intro bt t
        exact hafter bt t s
      · intros
        trivial

/-- The journal takes the new record; the checks after it only read. -/
theorem beginRecord_spec {K : World → Prop} {record : RecoveryRecord} (hkeep : ∀ s, K (w.stage s))
    (hbegun : ∀ s image bt t, record.phase = .pending →
      RecoveryRecord.ofFile sha256 (some image) = some record →
      K (((w.stage s).recorded record image).read bt t)) :
    wpOk (sysEnv sha256) (fun _ w' => record.phase = .pending ∧ ∃ s image bt t,
        RecoveryRecord.ofFile sha256 (some image) = some record ∧
        w' = ((w.stage s).recorded record image).read bt t) K (beginRecord sha256 record) w := by
  have hK : K w := hkeep w.staged
  unfold beginRecord WifiJournal.begin
  simp only [bind_assoc]
  rw [wpOk_bind]
  apply load_ok hK
  rw [wpOk_ensure]
  refine ⟨hK, fun _ => ?_⟩
  rw [wpOk_ensure]
  refine ⟨hK, fun hp => ?_⟩
  rw [beq_iff_eq] at hp
  rw [wpOk_bind]
  apply save_ok record hkeep
  intro s image _ hd
  have hnow : K ((w.stage s).recorded record image) := hbegun s image w.boot w.time hp hd
  refine ⟨hnow, ?_⟩
  rw [wpOk_ask]
  refine ⟨hnow, fun ready w' hready => ?_⟩
  subst hready
  rw [wpOk_ensure]
  refine ⟨hnow, fun _ => ?_⟩
  apply wpOk_withError
  apply current_spec
  · intro bt t
    exact hbegun s image bt t hp hd
  · intro boot now _
    exact ⟨hp, s, image, _, _, hd, rfl⟩

/-- A preparation only reads until it holds a record of its own; then all that
is left is to begin that record. -/
theorem prepare_spec {env : Env World SysCall SysCall.Reply} {K : World → Prop}
    {Q : Bool × WifiManagedBackend → World → Prop} {b : WifiManagedBackend} {profile : WifiProfile}
    {lifetime : Int} (henv : ∀ w c r w', env w c r w' → sysEnv sha256 w c r w')
    (hK : ∀ bt t, K (w.read bt t)) (hused : b.attempted = true → ∀ message, Q (b.fail message) w)
    (hearly : b.attempted = false → ∀ target candidate message bt t,
      Q ({ b with attempted := true, target := target, candidate := candidate }.fail message)
        (w.read bt t))
    (hbegin : b.attempted = false → ∀ draft target candidate (record : RecoveryRecord) bt t d w',
      WifiDraft.yaml profile = some draft →
      inherit kdf profile draft (w.file .netplan) = .ok (target, candidate) →
      env (w.read bt t) .transactionId (some d) w' → record.transaction = toHex d.toList →
      record.backup = w.file .netplan →
      ∀ b', b' = { b with attempted := true, error := "", target := some target,
                          candidate := candidate, transaction := record.transaction } →
      wp env Q K (b'.conclude (beginRecord sha256 record) fun _ => { b' with prepared := true })
        (w.read bt t)) :
    wp env Q K (b.prepare sha256 kdf profile lifetime) w := by
  have hnow : K w := hK w.boot w.time
  unfold prepare
  by_cases hattempted : b.attempted = true
  · rw [if_pos hattempted]
    exact ⟨hnow, hused hattempted _⟩
  rw [if_neg hattempted]
  rw [Bool.not_eq_true] at hattempted
  -- whatever stops it early leaves a backend that has only read
  have hstop : ∀ target candidate message w', (∃ bt t, w' = w.read bt t) → K w' ∧
      Q ({ b with attempted := true, target := target, candidate := candidate }.fail message) w' := by
    intro target candidate message w' hw
    obtain ⟨bt, t, rfl⟩ := hw
    exact ⟨hK bt t, hearly hattempted target candidate message bt t⟩
  have hhere : ∃ bt t, w = w.read bt t := ⟨w.boot, w.time, rfl⟩
  have hcrash : ∀ w', (∃ bt t, w' = w.read bt t) → K w' := by
    rintro w' ⟨bt, t, rfl⟩
    exact hK bt t
  by_cases hl : lifetime ≤ 0 ∨ lifetime > 90
  · simp only [if_pos hl]
    exact hstop _ _ _ w hhere
  simp only [if_neg hl]
  cases hmake : WifiDraft.make profile with
  | error e => exact hstop _ _ _ w hhere
  | ok draft =>
    simp only
    cases hread : WifiDraft.read kdf draft.netplanYaml with
    | error e => exact hstop _ _ _ w hhere
    | ok target =>
      obtain rfl := WifiDraft.read_make hmake hread
      have hyaml : WifiDraft.yaml target = some draft.netplanYaml := by simp [WifiDraft.yaml, hmake]
      simp only
      rw [wp_bind]
      have hprevious : wpOk (sysEnv sha256) (fun previous w' => w' = w ∧ previous = w.file .netplan)
          (fun w' => ∃ bt t, w' = w.read bt t) (previousFile sha256 kdf target) w :=
        previousFile_spec target hhere ⟨rfl, rfl⟩
      refine wp_mono ?_ hcrash (wp_env henv hprevious)
      intro r w' hw hr
      cases r with
      | error e => exact hstop _ _ _ w' hw
      | ok previous =>
        obtain ⟨rfl, rfl⟩ := hr previous rfl
        simp only
        cases hinherit : inherit kdf target draft.netplanYaml (w'.file .netplan) with
        | error e => exact hstop _ _ _ w' hhere
        | ok pair =>
          obtain ⟨target', c⟩ := pair
          simp only
          rw [wp_bind]
          have hidentify : wpOk env (fun record w'' => record.backup = w'.file .netplan ∧
              ∃ bt t d w₁, w'' = w'.read bt t ∧ env w'' .transactionId (some d) w₁ ∧
                record.transaction = toHex d.toList)
              (fun w'' => ∃ bt t, w'' = w'.read bt t) (identify (w'.file .netplan) lifetime) w' :=
            identify_spec henv (fun bt t => ⟨bt, t, rfl⟩) fun record bt t d w₁ hd ht hb =>
              ⟨hb, bt, t, d, w₁, rfl, hd, ht⟩
          refine wp_mono ?_ hcrash hidentify
          intro r w'' hw hr
          cases r with
          | error e => exact hstop _ _ _ w'' hw
          | ok record =>
            obtain ⟨hb, bt, t, d, w₁, rfl, hd, ht⟩ := hr record rfl
            exact hbegin hattempted _ _ _ record bt t d w₁ hyaml hinherit hd ht hb _ rfl

end

end WifiManagedBackend

end EncoderNext
