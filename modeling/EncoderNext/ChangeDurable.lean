import EncoderNext.ChangeSound
import EncoderNext.ManagedBackend

/-!
# A change over the managed backend

The transaction in memory over the journal on disk, where every call may fail
and a directory may fail to sync after the rename that it should make durable.
While a change is pending so is its journal, which keeps the original file; a
change that is over reports what the journal holds, unless the sync after the
rename of a commit failed.
-/

namespace EncoderNext

open Program

namespace ManagedChange

open WifiRecoveryWorker

variable (sha256 : Sha256) (kdf : Pbkdf2)

/-! ## The system -/

def handle (b : WifiManagedBackend) : (c : WifiCall) → SysProgram (c.Reply × WifiManagedBackend)
  | .ethernetRecoveryAvailable => do return (← sys .ethernetReady, b)
  | .prepare profile lifetime => b.prepare sha256 kdf profile lifetime
  | .activate => b.activate sha256 kdf
  | .probe => do return (← b.probe, b)
  | .commit => b.commit sha256 kdf
  | .rollback => b.rollback sha256 kdf
  | .random => do return (← sys .ticketBytes, b)
  | .now => do return (← sys .steadyClock, b)
  | .factory => return (true, {})

structure Session where
  change : WifiChange := {}
  backend : WifiManagedBackend := {}
  world : World
  destroyed : Bool := false

inductive Step (env : Env World SysCall SysCall.Reply) : Session → Session → Prop where
  | op {o : WifiChange.Op} {s : Session} {ch : WifiChange} {b : WifiManagedBackend} {w : World} :
      s.destroyed = false →
      Runs env (interp (handle sha256 kdf) (o.run s.change) s.backend) s.world (ch, b) w →
      Step env s ⟨ch, b, w, false⟩
  | destroy {s : Session} {ch : WifiChange} {b : WifiManagedBackend} {w : World} :
      s.destroyed = false →
      Runs env (interp (handle sha256 kdf) s.change.destroy s.backend) s.world (ch, b) w →
      Step env s ⟨ch, b, w, true⟩

def Reach (env : Env World SysCall SysCall.Reply) (w₀ : World) : Session → Prop :=
  Relation.ReflTransGen (Step sha256 kdf env) { world := w₀ }

/-- Fresh identities, and directories that sync once the journal is committed. -/
def Calm (w : World) : (c : SysCall) → c.Reply → Prop
  | .syncDirectory .journal, false =>
    ∀ record, w.record? sha256 = some record → record.phase ≠ .committed
  | .transactionId, some drawn =>
    ∀ record, w.record? sha256 = some record → record.transaction ≠ toHex drawn.toList
  | _, _ => True

def calmEnv : Env World SysCall SysCall.Reply :=
  fun w c r w' => sysEnv sha256 w c r w' ∧ Calm sha256 w c r

/-! ## What the disk holds -/

def Pends (w₀ : World) (transaction : Bytes) (w : World) : Prop :=
  ∃ record, w.record? sha256 = some record ∧ record.phase = .pending ∧
    record.transaction = transaction ∧ record.backup = w₀.file .netplan

def Untouched (w₀ : World) (transaction : Bytes) (w : World) : Prop :=
  w.file = w₀.file ∧ ∀ record, w.record? sha256 = some record → record.transaction ≠ transaction

def Committed (transaction : Bytes) (w : World) : Prop :=
  ∃ record, w.record? sha256 = some record ∧ record.phase = .committed ∧
    record.transaction = transaction

def RolledBack (w₀ : World) (transaction : Bytes) (w : World) : Prop :=
  w.file .netplan = w₀.file .netplan ∧ ∀ record, w.record? sha256 = some record →
    record.transaction = transaction → record.phase = .restored

def Uncommitted (w₀ : World) (transaction : Bytes) (w : World) : Prop :=
  ∀ record, w.record? sha256 = some record → record.phase = .committed →
    w₀.record? sha256 = some record ∧ record.transaction ≠ transaction

def Reversible (w₀ : World) (b : WifiManagedBackend) (w : World) : Prop :=
  b.committed = false ∧ b.restored = false ∧
    (Pends sha256 w₀ b.transaction w ∨ Untouched sha256 w₀ b.transaction w)

def Live (w₀ : World) (b : WifiManagedBackend) (w : World) : Prop :=
  b.committed = false ∧ b.restored = false ∧ Pends sha256 w₀ b.transaction w

/-- The invariant: what the state of the change says about the disk. -/
def Agrees (w₀ : World) (ch : WifiChange) (b : WifiManagedBackend) (w : World) : Prop :=
  match ch.state with
  | .idle => b = {} ∧ w.file = w₀.file
  | .connecting | .awaitingConfirmation => Live sha256 w₀ b w
  | .committed => Committed sha256 b.transaction w
  | .rolledBack => RolledBack sha256 w₀ b.transaction w ∧ Uncommitted sha256 w₀ b.transaction w
  | .recoveryRequired => Uncommitted sha256 w₀ b.transaction w

section
variable {sha256 kdf} {w₀ w : World} {b : WifiManagedBackend}

theorem calm_sys : ∀ w c r w', calmEnv sha256 w c r w' → sysEnv sha256 w c r w' :=
  fun _ _ _ _ h => h.1

theorem record?_of_file {w' : World} (h : w.file = w'.file) :
    w.record? sha256 = w'.record? sha256 := by
  simp [World.record?, h]

theorem uncommitted_of_pends {transaction : Bytes} (h : Pends sha256 w₀ transaction w) :
    Uncommitted sha256 w₀ transaction w := by
  obtain ⟨record, hr, hp, -, -⟩ := h
  intro record' hr' hp'
  obtain rfl := Option.some.inj (hr.symm.trans hr')
  rw [hp] at hp'
  cases hp'

theorem uncommitted_of_untouched {transaction : Bytes} (h : Untouched sha256 w₀ transaction w) :
    Uncommitted sha256 w₀ transaction w := by
  intro record hr _
  exact ⟨(record?_of_file h.1).symm.trans hr, h.2 record hr⟩

theorem uncommitted_of_reversible (h : Reversible sha256 w₀ b w) :
    Uncommitted sha256 w₀ b.transaction w := by
  rcases h.2.2 with hp | hu
  · exact uncommitted_of_pends hp
  · exact uncommitted_of_untouched hu

theorem untouched_nil (h : w.file = w₀.file) : Untouched sha256 w₀ [] w :=
  ⟨h, fun _ hr => RecoveryRecord.transaction_ne_nil hr⟩

theorem reversible_of_live (h : Live sha256 w₀ b w) : Reversible sha256 w₀ b w :=
  ⟨h.1, h.2.1, .inl h.2.2⟩

theorem own_of_reversible {record : RecoveryRecord} (h : Reversible sha256 w₀ b w)
    (hr : w.record? sha256 = some record) (ht : record.transaction = b.transaction) :
    record.phase = .pending ∧ record.backup = w₀.file .netplan := by
  rcases h.2.2 with ⟨record', hr', hp, _, hb⟩ | hu
  · obtain rfl := Option.some.inj (hr'.symm.trans hr)
    exact ⟨hp, hb⟩
  · exact absurd ht (hu.2 record hr)

/-! ## Rolling back -/

theorem restorePending_rolledBack {record : RecoveryRecord} (hr : w.record? sha256 = some record)
    (hp : record.phase = .pending) (ht : record.transaction = b.transaction)
    (hb : record.backup = w₀.file .netplan) :
    wpOk (sysEnv sha256) (fun _ w' => RolledBack sha256 w₀ b.transaction w')
      (Uncommitted sha256 w₀ b.transaction)
      (WifiJournal.restorePending sha256 record (restoreManaged kdf)) w := by
  have hpends : ∀ w', w'.record? sha256 = some record → Uncommitted sha256 w₀ b.transaction w' :=
    fun w' hr' => uncommitted_of_pends ⟨record, hr', hp, ht, hb⟩
  apply restorePending_ok
  · intro s
    exact hpends _ hr
  · intro s
    apply hpends
    simpa using hr
  · intro s image hd
    have hnow : (((w.stage s).replaced .netplan record.backup).recorded
        (record.resolved .restored) image).record? sha256 = some (record.resolved .restored) := by
      simpa using hd
    constructor
    · intro record' hr' hp'
      obtain rfl := Option.some.inj (hnow.symm.trans hr')
      cases hp'
    · refine ⟨?_, ?_⟩
      · simp [World.recorded, World.replaced, World.stage, hb]
      · intro record' hr' _
        obtain rfl := Option.some.inj (hnow.symm.trans hr')
        rfl

theorem rollback_spec (h : Reversible sha256 w₀ b w) :
    wp (sysEnv sha256) (fun r w' => r.2.transaction = b.transaction ∧
        (r.1 = true → RolledBack sha256 w₀ b.transaction w'))
      (Uncommitted sha256 w₀ b.transaction) (b.rollback sha256 kdf) w := by
  have hun := uncommitted_of_reversible h
  unfold WifiManagedBackend.rollback
  rw [if_neg (by simp [h.1])]
  by_cases ht : b.transaction = []
  · rw [if_pos (.inl ht)]
    refine ⟨hun, rfl, fun _ => ?_⟩
    rcases h.2.2 with ⟨record, hr, _, ht', _⟩ | hu
    · exact absurd (ht'.trans ht) (RecoveryRecord.transaction_ne_nil hr)
    · exact ⟨congrFun hu.1 _, fun record hr ht' => absurd ht' (hu.2 record hr)⟩
  · rw [if_neg (by simp [ht, h.2.1]), wp_bind]
    have hcancel : wpOk (sysEnv sha256) (fun _ w' => RolledBack sha256 w₀ b.transaction w')
        (Uncommitted sha256 w₀ b.transaction) (managedCancel sha256 kdf b.transaction) w := by
      apply managedCancel_ok
      · intro bt t
        exact hun
      · intro record bt t hr ht'
        obtain ⟨hp, hb⟩ := own_of_reversible h hr ht'
        refine ⟨fun hrestored => ?_, fun _ => ?_⟩
        · rw [hp] at hrestored
          cases hrestored
        · exact restorePending_rolledBack (w := w.read bt t) hr hp ht' hb
    refine wp_post hcancel fun r w' hk hr => ?_
    cases r with
    | error message => exact ⟨hk, rfl, nofun⟩
    | ok outcome =>
      have hback := hr outcome rfl
      cases outcome with
      | restored => exact ⟨hk, rfl, fun _ => hback⟩
      | nothing => exact ⟨hk, rfl, fun _ => hback⟩
      | waiting => exact ⟨hk, rfl, nofun⟩

/-! ## Preparing, activating, probing, committing -/

theorem prepare_spec {profile : WifiProfile} {lifetime : Int} (h : w.file = w₀.file) :
    wp (calmEnv sha256) (fun r w' => Reversible sha256 w₀ r.2 w' ∧
        (r.1 = true → Pends sha256 w₀ r.2.transaction w')) (fun _ => True)
      (WifiManagedBackend.prepare sha256 kdf {} profile lifetime) w := by
  apply WifiManagedBackend.prepare_spec calm_sys
  · intro bt t
    trivial
  · exact nofun
  · intro _ target candidate message bt t
    exact ⟨⟨rfl, rfl, .inr (untouched_nil h)⟩, nofun⟩
  · intro _ draft target candidate record bt t d w' _ _ hdrawn ht hb b' hb'
    -- a failed begin leaves either the old journal, of another transaction, or the new one
    have hfresh : Untouched sha256 w₀ record.transaction (w.read bt t) :=
      ⟨h, fun record' hr' => ht ▸ hdrawn.2 record' hr'⟩
    have hpends : ∀ s image bt' t', record.phase = .pending →
        RecoveryRecord.ofFile sha256 (some image) = some record →
        Pends sha256 w₀ record.transaction
          ((((w.read bt t).stage s).recorded record image).read bt' t') := by
      intro s image bt' t' hp hd
      refine ⟨record, ?_, hp, rfl, hb.trans (congrFun h _)⟩
      simpa using hd
    have hbegin : wpOk (sysEnv sha256) (fun _ w' => Pends sha256 w₀ record.transaction w')
        (fun w' => Pends sha256 w₀ record.transaction w' ∨
          Untouched sha256 w₀ record.transaction w')
        (WifiManagedBackend.beginRecord sha256 record) (w.read bt t) := by
      refine wpOk_post (WifiManagedBackend.beginRecord_spec ?_ ?_) ?_
      · intro s
        exact .inr hfresh
      · intro s image bt' t' hp hd
        exact .inl (hpends s image bt' t' hp hd)
      · intro _ w' _ hbegun
        obtain ⟨hp, s, image, bt', t', hd, rfl⟩ := hbegun
        exact hpends s image bt' t' hp hd
    subst hb'
    refine wp_env calm_sys (wp_mono (fun _ _ _ hq => hq) (fun _ _ => trivial)
      (WifiManagedBackend.conclude_spec ?_ (wpOk_post hbegin ?_)))
    · intro message w' hk
      exact ⟨⟨rfl, rfl, hk⟩, nofun⟩
    · intro _ w' _ hp
      exact ⟨⟨rfl, rfl, .inl hp⟩, fun _ => hp⟩

theorem activate_spec (h : Live sha256 w₀ b w) :
    wp (sysEnv sha256) (fun r w' => Live sha256 w₀ r.2 w') (fun _ => True)
      (b.activate sha256 kdf) w := by
  have hinstall : ∀ target, wpOk (sysEnv sha256) (fun _ _ => True)
      (Pends sha256 w₀ b.transaction) (WifiManagedBackend.install sha256 kdf b target) w := by
    intro target
    apply WifiManagedBackend.install_spec
    · intro bt t s
      exact h.2.2
    · intro record bt t s _ _ _
      obtain ⟨record', hr, hrest⟩ := h.2.2
      refine ⟨record', ?_, hrest⟩
      simpa using hr
  unfold WifiManagedBackend.activate
  cases b.target with
  | none => exact ⟨trivial, h⟩
  | some target =>
    simp only
    split
    · exact ⟨trivial, h⟩
    · refine wp_mono (fun _ _ _ hq => hq) (fun _ _ => trivial)
        (WifiManagedBackend.conclude_spec ?_ (wpOk_post (hinstall target) ?_))
      · intro message w' hk
        exact ⟨h.1, h.2.1, hk⟩
      · intro _ w' hk _
        exact ⟨h.1, h.2.1, hk⟩

theorem probe_spec : wp (sysEnv sha256) (fun _ w' => w' = w) (fun w' => w' = w) b.probe w := by
  unfold WifiManagedBackend.probe
  cases b.target with
  | none => exact ⟨rfl, rfl⟩
  | some target =>
    simp only
    split
    · exact ⟨rfl, rfl⟩
    · rw [wp_ask_bind]
      refine ⟨rfl, fun ready w₁ h₁ => ?_⟩
      subst h₁
      cases ready with
      | false => exact ⟨rfl, rfl⟩
      | true => exact ⟨rfl, fun link w₂ h₂ => ⟨h₂, h₂⟩⟩

/-- Once a commit has renamed the journal, the calm sync makes it a success. -/
theorem journal_commit_spec {transaction boot : Bytes} {now : UInt64} :
    wp (calmEnv sha256) (fun r w' => match r with
        | .ok _ => Committed sha256 transaction w'
        | .error _ => w'.record? sha256 = w.record? sha256) (fun _ => True)
      (WifiJournal.commit sha256 transaction boot now).run w := by
  unfold WifiJournal.commit
  rw [wp_run_bind]
  apply wp_env calm_sys
  apply WifiJournal.load_spec trivial
  · intro e
    rfl
  · intro _
    exact ⟨trivial, rfl⟩
  · intro record hr
    simp only
    rw [wp_run_ensure]
    split
    swap
    · exact ⟨trivial, rfl⟩
    rename_i hc
    simp only [WifiJournal.committable, Bool.and_eq_true, beq_iff_eq] at hc
    apply WifiJournal.save_spec calm_sys
    · intro s
      trivial
    · intro s e
      rfl
    · intro s image _ hd
      have hnow : ((w.stage s).recorded (record.resolved .committed) image).record? sha256 =
          some (record.resolved .committed) := by
        simpa using RecoveryRecord.ofFile_of_decode hd
      refine ⟨trivial, ⟨_, hnow, rfl, hc.1.1.2⟩, fun w' hsync => ?_⟩
      exact absurd rfl (hsync.2 _ hnow)

theorem commit_spec (h : Live sha256 w₀ b w) :
    wp (calmEnv sha256) (fun r w' => if r.1 then Committed sha256 r.2.transaction w'
        else Live sha256 w₀ r.2 w') (fun _ => True) (b.commit sha256 kdf) w := by
  have hpends : ∀ w', w'.record? sha256 = w.record? sha256 →
      Pends sha256 w₀ b.transaction w' := by
    intro w' hr'
    obtain ⟨record, hr, hrest⟩ := h.2.2
    exact ⟨record, hr'.trans hr, hrest⟩
  unfold WifiManagedBackend.commit
  cases b.target with
  | none => exact ⟨trivial, h⟩
  | some target =>
    simp only
    split
    · exact ⟨trivial, h⟩
    unfold WifiManagedBackend.conclude managedCommit
    rw [wp_bind, wp_run_bind]
    have hverify : wpOk (sysEnv sha256) (fun _ w' => w'.record? sha256 = w.record? sha256)
        (fun w' => w'.record? sha256 = w.record? sha256)
        (verifyCommit sha256 kdf b.transaction target (WifiManagedBackend.verifyLive target)) w := by
      apply verifyCommit_spec
      · intro Q' w' hk hq
        exact WifiManagedBackend.verifyLive_spec target hk hq
      · intro bt t
        rfl
      · intro boot now _
        rfl
    refine wp_mono ?_ (fun _ _ => trivial) (wp_env calm_sys hverify)
    intro r w' hk hr
    cases r with
    | error e => exact ⟨trivial, h.1, h.2.1, hpends w' hk⟩
    | ok reading =>
      refine wp_post journal_commit_spec fun r w'' _ hr' => ?_
      cases r with
      | error e => exact ⟨trivial, h.1, h.2.1, hpends w'' (hr'.trans hk)⟩
      | ok _ => exact ⟨trivial, hr'⟩

/-! ## The methods of the change -/

theorem revert_spec (ch : WifiChange) (reason : String) (h : Reversible sha256 w₀ b w) :
    wp (calmEnv sha256) (fun r w' => Agrees sha256 w₀ r.1 r.2 w') (fun _ => True)
      (interp (handle sha256 kdf) (ch.revert reason) b) w := by
  unfold WifiChange.revert
  rw [wp_interp_ask]
  refine wp_env calm_sys (wp_mono ?_ (fun _ _ => trivial) (rollback_spec h))
  intro r w' hun hr
  obtain ⟨restored, b'⟩ := r
  obtain ⟨ht, hback⟩ := hr
  rw [← ht] at hun hback
  cases restored with
  | false => exact ⟨trivial, hun⟩
  | true => exact ⟨trivial, hback rfl, hun⟩

theorem revert_false_spec (ch : WifiChange) (reason : String) (h : Reversible sha256 w₀ b w) :
    wp (calmEnv sha256) (fun r w' => Agrees sha256 w₀ r.1.2 r.2 w') (fun _ => True)
      (interp (handle sha256 kdf) (do return (false, ← ch.revert reason)) b) w := by
  rw [interp_bind, wp_bind]
  exact wp_post (revert_spec ch reason h) fun r w' _ hr => ⟨trivial, hr⟩

theorem prepareAndActivate_spec {ch : WifiChange} (profile : WifiProfile)
    (hs : ch.state = .connecting) (h : w.file = w₀.file) :
    wp (calmEnv sha256) (fun r w' => Agrees sha256 w₀ r.1.2 r.2 w') (fun _ => True)
      (interp (handle sha256 kdf) (ch.prepareAndActivate profile) {}) w := by
  unfold WifiChange.prepareAndActivate
  rw [wp_interp_ask]
  refine wp_post (prepare_spec h) fun r w₁ _ hr => ?_
  obtain ⟨prepared, b₁⟩ := r
  obtain ⟨hrev, hpends⟩ := hr
  cases prepared with
  | false => exact revert_false_spec ch _ hrev
  | true =>
    rw [Bool.not_true, if_neg Bool.false_ne_true, wp_interp_ask]
    have hlive : Live sha256 w₀ b₁ w₁ := ⟨hrev.1, hrev.2.1, hpends rfl⟩
    refine wp_post (wp_env calm_sys (activate_spec hlive)) fun r w₂ _ hlive₂ => ?_
    obtain ⟨activated, b₂⟩ := r
    cases activated with
    | false => exact revert_false_spec ch _ (reversible_of_live hlive₂)
    | true =>
      rw [Bool.not_true, if_neg Bool.false_ne_true]
      refine ⟨trivial, ?_⟩
      simpa [Agrees, hs] using hlive₂

theorem start_spec {ch : WifiChange} (profile : WifiProfile) (now : Int)
    (h : Agrees sha256 w₀ ch b w) :
    wp (calmEnv sha256) (fun r w' => Agrees sha256 w₀ r.1.2 r.2 w') (fun _ => True)
      (interp (handle sha256 kdf) (ch.start profile now) b) w := by
  unfold WifiChange.start
  by_cases hs : ch.state = .idle
  swap
  · rw [if_pos hs]
    exact ⟨trivial, h⟩
  rw [if_neg (not_not.mpr hs)]
  have hidle := h
  simp only [Agrees, hs] at hidle
  obtain ⟨rfl, hfile⟩ := hidle
  split
  · exact ⟨trivial, h⟩
  rw [wp_interp_ask]
  refine ⟨trivial, fun ethernet w₁ h₁ => ?_⟩
  obtain rfl : w₁ = w := h₁.1
  refine ⟨trivial, ?_⟩
  cases ethernet with
  | false => exact ⟨trivial, h⟩
  | true =>
    rw [Bool.not_true, if_neg Bool.false_ne_true, wp_interp_ask]
    refine ⟨trivial, fun drawn w₂ h₂ => ?_⟩
    obtain rfl : w₂ = w₁ := h₂.1
    refine ⟨trivial, ?_⟩
    cases drawn with
    | none => exact ⟨trivial, h⟩
    | some drawn => exact prepareAndActivate_spec profile rfl hfile

theorem live_of_pending {ch : WifiChange} (h : Agrees sha256 w₀ ch b w) (hp : ch.pending = true) :
    Live sha256 w₀ b w := by
  unfold Agrees at h
  rcases WifiChange.pending_iff.mp hp with hs | hs
  · rwa [hs] at h
  · rwa [hs] at h

theorem tick_spec {ch : WifiChange} (now : Int) (h : Agrees sha256 w₀ ch b w) :
    wp (calmEnv sha256) (fun r w' => Agrees sha256 w₀ r.1 r.2 w') (fun _ => True)
      (interp (handle sha256 kdf) (ch.tick now) b) w := by
  unfold WifiChange.tick
  by_cases hp : ch.pending = true
  swap
  · rw [if_pos (by simp [hp])]
    exact ⟨trivial, h⟩
  rw [if_neg (by simp [hp])]
  have hlive := live_of_pending h hp
  split
  · exact revert_spec ch _ (reversible_of_live hlive)
  rw [wp_interp_ask]
  refine ⟨trivial, fun ethernet w₁ h₁ => ?_⟩
  obtain rfl : w₁ = w := h₁.1
  refine ⟨trivial, ?_⟩
  cases ethernet with
  | false => exact revert_spec ch _ (reversible_of_live hlive)
  | true =>
    rw [Bool.not_true, if_neg Bool.false_ne_true, wp_interp_ask]
    show wp _ _ _ (b.probe >>= fun link => pure (link, b)) w₁
    rw [wp_bind]
    refine wp_mono ?_ (fun _ _ => trivial) (wp_env calm_sys probe_spec)
    intro link w₂ h₂ _
    subst h₂
    refine ⟨trivial, ?_⟩
    cases link with
    | failed => exact revert_spec ch _ (reversible_of_live hlive)
    | pending => exact ⟨trivial, hlive⟩
    | ready => exact ⟨trivial, hlive⟩

theorem confirm_spec {ch : WifiChange} (ticket : Bytes) (now : Int)
    (h : Agrees sha256 w₀ ch b w) :
    wp (calmEnv sha256) (fun r w' => Agrees sha256 w₀ r.1.2 r.2 w') (fun _ => True)
      (interp (handle sha256 kdf) (ch.confirm ticket now) b) w := by
  unfold WifiChange.confirm
  rw [interp_bind, wp_bind]
  refine wp_post (tick_spec now h) fun r w₁ _ h₁ => ?_
  obtain ⟨ch₁, b₁⟩ := r
  simp only
  split
  · exact ⟨trivial, h₁⟩
  rename_i hready
  simp only [not_or, ne_eq, Decidable.not_not] at hready
  have hlive : Live sha256 w₀ b₁ w₁ := live_of_pending h₁ (by simp [WifiChange.pending, hready.1])
  rw [wp_interp_ask]
  refine wp_post (commit_spec hlive) fun r w₂ _ hr => ?_
  obtain ⟨stored, b₂⟩ := r
  cases stored with
  | false => exact revert_false_spec ch₁ _ (reversible_of_live hr)
  | true => exact ⟨trivial, hr⟩

theorem stop_spec {ch : WifiChange} (reason : String) (h : Agrees sha256 w₀ ch b w) :
    wp (calmEnv sha256) (fun r w' => Agrees sha256 w₀ r.1 r.2 w') (fun _ => True)
      (interp (handle sha256 kdf) (if ch.pending then ch.revert reason else return ch) b) w := by
  by_cases hp : ch.pending = true
  · rw [if_pos hp]
    exact revert_spec ch reason (reversible_of_live (live_of_pending h hp))
  · rw [if_neg hp]
    exact ⟨trivial, h⟩

theorem run_spec {ch : WifiChange} (o : WifiChange.Op) (h : Agrees sha256 w₀ ch b w) :
    wp (calmEnv sha256) (fun r w' => Agrees sha256 w₀ r.1 r.2 w') (fun _ => True)
      (interp (handle sha256 kdf) (o.run ch) b) w := by
  have second : ∀ p : WifiProgram (Bool × WifiChange),
      wp (calmEnv sha256) (fun r w' => Agrees sha256 w₀ r.1.2 r.2 w') (fun _ => True)
        (interp (handle sha256 kdf) p b) w →
      wp (calmEnv sha256) (fun r w' => Agrees sha256 w₀ r.1 r.2 w') (fun _ => True)
        (interp (handle sha256 kdf) (Prod.snd <$> p) b) w := by
    intro p hp
    rw [interp_map, wp_bind]
    exact wp_post hp fun r w' _ hr => ⟨trivial, hr⟩
  cases o with
  | start profile now => exact second _ (start_spec profile now h)
  | tick now => exact tick_spec now h
  | confirm ticket now => exact second _ (confirm_spec ticket now h)
  | cancel => exact stop_spec _ h

/-! ## Runs -/

theorem step_agrees {s s' : Session} (h : Agrees sha256 w₀ s.change s.backend s.world)
    (hs : Step sha256 kdf (calmEnv sha256) s s') :
    Agrees sha256 w₀ s'.change s'.backend s'.world := by
  cases hs with
  | op _ hr =>
    have ha := runs_of_wp (run_spec _ h) hr
    exact ha
  | destroy _ hr =>
    have ha := runs_of_wp (stop_spec "Connection owner closed" h) hr
    exact ha

theorem reach_agrees {s : Session} (h : Reach sha256 kdf (calmEnv sha256) w₀ s) :
    Agrees sha256 w₀ s.change s.backend s.world := by
  induction h with
  | refl => exact ⟨rfl, rfl⟩
  | tail _ hs ih => exact step_agrees ih hs

theorem uncommitted_of_agrees {ch : WifiChange} (h : Agrees sha256 w₀ ch b w)
    (hs : ch.state ≠ .committed) : Uncommitted sha256 w₀ b.transaction w := by
  unfold Agrees at h
  split at h
  · obtain ⟨rfl, hf⟩ := h
    exact uncommitted_of_untouched (untouched_nil hf)
  · exact uncommitted_of_pends h.2.2
  · exact uncommitted_of_pends h.2.2
  · contradiction
  · exact h.2
  · exact h

/-- **What a change reports is on the disk.** In every run whose identities are
fresh and whose directories sync after the rename of a commit, whatever else
fails: a change that reports committed has a committed journal of its own; one
that does not has none, and a committed journal is then the one that was found;
and one that reports rolled back has put the original file back, with no
pending or committed journal of its own. -/
theorem change_durable {s : Session} (h : Reach sha256 kdf (calmEnv sha256) w₀ s) :
    (s.change.state = .committed → ∃ record, s.world.record? sha256 = some record ∧
      record.phase = .committed ∧ record.transaction = s.backend.transaction) ∧
    (s.change.state ≠ .committed → ∀ record, s.world.record? sha256 = some record →
      record.phase = .committed →
      w₀.record? sha256 = some record ∧ record.transaction ≠ s.backend.transaction) ∧
    (s.change.state = .rolledBack → s.world.file .netplan = w₀.file .netplan ∧
      ∀ record, s.world.record? sha256 = some record →
        record.transaction = s.backend.transaction → record.phase = .restored) := by
  have ha := reach_agrees h
  refine ⟨?_, ?_, ?_⟩
  · intro hs
    unfold Agrees at ha
    rwa [hs] at ha
  · intro hs
    exact uncommitted_of_agrees ha hs
  · intro hs
    unfold Agrees at ha
    rw [hs] at ha
    exact ha.1

end

/-! ## Concrete runs -/

def runWith (synced : World → Bool) (s : Session) (o : WifiChange.Op) : Session :=
  let r := exec (World.answer zeroSha synced zeroBoot 1000)
    (interp (handle zeroSha noKdf) (o.run s.change) s.backend) s.world
  ⟨r.1.1, r.1.2, r.2, false⟩

theorem step_runWith {env : Env World SysCall SysCall.Reply} {synced : World → Bool}
    (henv : ∀ w c, env w c (w.answer zeroSha synced zeroBoot 1000 c).1
      (w.answer zeroSha synced zeroBoot 1000 c).2) {s : Session} (hs : s.destroyed = false)
    (o : WifiChange.Op) : Step zeroSha noKdf env s (runWith synced s o) :=
  .op hs (runs_exec henv _ _)

def confirmedWith (synced : World → Bool) : Session :=
  let s := runWith synced { world := .noFiles } (.start ⟨bytes "61", List.replicate 32 0, none⟩ 0)
  runWith synced s (.confirm s.change.ticket 0)

theorem reach_confirmedWith {env : Env World SysCall SysCall.Reply} {synced : World → Bool}
    (henv : ∀ w c, env w c (w.answer zeroSha synced zeroBoot 1000 c).1
      (w.answer zeroSha synced zeroBoot 1000 c).2) :
    Reach zeroSha noKdf env .noFiles (confirmedWith synced) :=
  (Relation.ReflTransGen.single (step_runWith henv rfl _)).tail (step_runWith henv rfl _)

theorem calm_answer (w : World) (c : SysCall) :
    calmEnv zeroSha w c (w.answer zeroSha (fun _ => true) zeroBoot 1000 c).1
      (w.answer zeroSha (fun _ => true) zeroBoot 1000 c).2 := by
  refine ⟨World.env_answer .., ?_⟩
  cases c with
  | transactionId => exact fun record hr => World.freshId_ne hr
  | syncDirectory f => cases f <;> trivial
  | _ => simp [Calm]

theorem change_durable_confirmed :
    (confirmedWith fun _ => true).change.state = .committed ∧
    ∃ record, (confirmedWith fun _ => true).world.record? zeroSha = some record ∧
      record.phase = .committed ∧
      record.transaction = (confirmedWith fun _ => true).backend.transaction := by
  have hs : (confirmedWith fun _ => true).change.state = .committed := by decide +kernel
  exact ⟨hs, (change_durable (reach_confirmedWith calm_answer)).1 hs⟩

def lostCommit : World → Bool :=
  fun w => !(w.record? zeroSha).any (·.phase == .committed)

theorem committed_unreported : ∃ s, Reach zeroSha noKdf (sysEnv zeroSha) .noFiles s ∧
    s.change.state = .recoveryRequired ∧
    ∃ record, s.world.record? zeroSha = some record ∧ record.phase = .committed ∧
      record.transaction = s.backend.transaction := by
  have hlost : (confirmedWith lostCommit).change.state = .recoveryRequired ∧
      ((confirmedWith lostCommit).world.record? zeroSha).any (fun record =>
        record.phase == .committed &&
        record.transaction == (confirmedWith lostCommit).backend.transaction) = true := by
    decide +kernel
  obtain ⟨hstate, hrecord⟩ := hlost
  refine ⟨confirmedWith lostCommit, reach_confirmedWith (World.env_answer _ _ _ _), hstate, ?_⟩
  simpa [Option.any_eq_true] using hrecord

end ManagedChange

end EncoderNext
