import EncoderNext.ManagedBackend
import Mathlib.Logic.Relation

/-!
# Every interleaving of coordinator and supervisor

A coordinator that may die after any call and be replaced, a supervisor that
may be cut short as well, and reboots. While the journal is pending, its backup
is the file that was found and the file is that one or the candidate; what the
journal becomes says which of the two the file is.
-/

namespace EncoderNext

open Program

namespace WifiManagedBackend

open WifiRecoveryWorker

variable (sha256 : Sha256) (kdf : Pbkdf2)

/-! ## The system -/

inductive Op where
  | prepare (profile : WifiProfile) (lifetime : Int)
  | activate
  | commit
  | rollback

def Op.run (b : WifiManagedBackend) : Op → SysProgram WifiManagedBackend
  | prepare profile lifetime => Prod.snd <$> b.prepare sha256 kdf profile lifetime
  | activate => Prod.snd <$> b.activate sha256 kdf
  | commit => Prod.snd <$> b.commit sha256 kdf
  | rollback => Prod.snd <$> b.rollback sha256 kdf

def Op.enter (w : World) : Op → World
  | prepare profile _ => { w with asked := some profile }
  | _ => w

abbrev System := Option WifiManagedBackend × World

inductive Step : System → System → Prop where
  | coordinate {op : Op} {b b' : WifiManagedBackend} {w w' : World} :
      Runs (sysEnv sha256) (op.run sha256 kdf b) (op.enter w) b' w' → Step (some b, w) (some b', w')
  | death {op : Op} {b : WifiManagedBackend} {w w' : World} :
      Visits (sysEnv sha256) (op.run sha256 kdf b) (op.enter w) w' → Step (some b, w) (none, w')
  | supervise {c : Option WifiManagedBackend} {w w' : World} {r : Except String RecoveryOutcome} :
      Runs (sysEnv sha256) (managedRecoveryTick sha256 kdf).run w r w' → Step (c, w) (c, w')
  | interrupted {c : Option WifiManagedBackend} {w w' : World} :
      Visits (sysEnv sha256) (managedRecoveryTick sha256 kdf).run w w' → Step (c, w) (c, w')
  | replace {c : Option WifiManagedBackend} {w : World} : Step (c, w) (some {}, w)
  | reboot {c : Option WifiManagedBackend} {w : World} : Step (c, w) (none, w)

def Reach (s s' : System) : Prop := Relation.ReflTransGen (Step sha256 kdf) s s'

/-- The rendering of the requested SSID and key, under the DHCPv6 option of the
file that was found when there was one. -/
def candidateOf (q : Request) : Option Bytes :=
  match q.original with
  | none => WifiDraft.yaml q.profile
  | some file =>
    match WifiDraft.read kdf file with
    | .ok found => WifiDraft.yaml { q.profile with dhcp6 := found.dhcp6 }
    | .error _ => none

/-! ## The invariant -/

def Tracks (file : Option Bytes) (record : RecoveryRecord) (q : Request) : Prop :=
  record.backup = q.original ∧
    (file = q.original ∨ ∃ b, file = some b ∧ candidateOf kdf q = some b)

def Mark.Good (m : Mark) : Prop :=
  (m.record.phase = .restored → ∃ q, m.request = some q ∧ m.managed = q.original) ∧
  (m.record.phase = .committed → ∃ q b t, m.request = some q ∧ m.managed = some b ∧
    candidateOf kdf q = some b ∧ m.time = some t ∧ t < m.record.deadlineMs ∧
    m.boot = some m.record.bootId)

structure Good (w : World) : Prop where
  pending : ∀ record, w.record? sha256 = some record → record.phase = .pending →
    ∃ q, w.request = some q ∧ Tracks kdf (w.file .netplan) record q
  marks : ∀ m ∈ w.marks, Mark.Good kdf m

def Held (w w' : World) : Prop := Good sha256 kdf w' ∧ w'.request = w.request

structure Coordinated (b : WifiManagedBackend) (w : World) : Prop where
  activated : b.activated = true → b.prepared = true
  prepared : b.prepared = true → b.attempted = true
  target : b.prepared = true → ∀ t, b.target = some t → ∃ q, w.request = some q ∧
    candidateOf kdf q = some b.candidate ∧ WifiDraft.yaml t = some b.candidate

section
variable {sha256 kdf} {w : World}

theorem coordinated_fail {b : WifiManagedBackend} (hc : Coordinated kdf b w) (message : String) :
    Coordinated kdf (b.fail message).2 w := ⟨hc.activated, hc.prepared, hc.target⟩

theorem good_stage (h : Good sha256 kdf w) (s : File → Bytes) : Good sha256 kdf (w.stage s) :=
  ⟨h.pending, h.marks⟩

theorem good_read (h : Good sha256 kdf w) (boot : Option Bytes) (time : Option UInt64) :
    Good sha256 kdf (w.read boot time) := ⟨h.pending, h.marks⟩

theorem good_replaced {record : RecoveryRecord} {q : Request} {file : Option Bytes}
    (h : Good sha256 kdf w) (hr : w.record? sha256 = some record) (hq : w.request = some q)
    (ht : Tracks kdf file record q) : Good sha256 kdf (w.replaced .netplan file) := by
  refine ⟨?_, h.marks⟩
  intro r hr' _
  rw [World.record?_replaced_netplan, hr] at hr'
  cases hr'
  refine ⟨q, hq, ?_⟩
  simpa [World.replaced] using ht

theorem good_recorded {record : RecoveryRecord} {image : Bytes} (h : Good sha256 kdf w)
    (hd : RecoveryRecord.ofFile sha256 (some image) = some record)
    (hp : record.phase = .pending →
      ∃ q, w.requested record = some q ∧ Tracks kdf (w.file .netplan) record q)
    (hm : Mark.Good kdf ⟨record, w.file .netplan, w.requested record, w.boot, w.time⟩) :
    Good sha256 kdf (w.recorded record image) := by
  constructor
  · intro r hr hphase
    rw [World.record?_recorded, hd] at hr
    cases hr
    simpa [World.recorded] using hp hphase
  · intro m hmem
    rcases List.mem_append.mp hmem with hmem | hmem
    · exact h.marks m hmem
    · rw [List.mem_singleton.mp hmem]
      exact hm

theorem requested_resolved (record : RecoveryRecord) {phase : RecoveryPhase}
    (hp : phase ≠ .pending) : w.requested (record.resolved phase) = w.request := by
  simp [World.requested, RecoveryRecord.resolved, hp]

/-! ## Recovery -/

theorem restorePending_good {record : RecoveryRecord} (h : Good sha256 kdf w)
    (hr : w.record? sha256 = some record) (hp : record.phase = .pending) :
    wpOk (sysEnv sha256) (fun _ _ => True) (Held sha256 kdf w)
      (WifiJournal.restorePending sha256 record (restoreManaged kdf)) w := by
  obtain ⟨q, hq, hb, hf⟩ := h.pending record hr hp
  have hres : RecoveryPhase.restored ≠ .pending := by decide
  have hback : ∀ s, Good sha256 kdf ((w.stage s).replaced .netplan record.backup) := by
    intro s
    exact good_replaced (good_stage h s) hr hq ⟨hb, .inl hb⟩
  apply restorePending_ok
  · intro s
    exact ⟨good_stage h s, rfl⟩
  · intro s
    exact ⟨hback s, rfl⟩
  · intro s image hd
    refine ⟨⟨?_, requested_resolved record hres⟩, trivial⟩
    apply good_recorded (hback s) hd
    · exact nofun
    · refine ⟨fun _ => ⟨q, (requested_resolved record hres).trans hq, ?_⟩, nofun⟩
      simpa [World.replaced, World.stage] using hb

theorem recoverDue_good (boot : Bytes) (now : UInt64) (h : Good sha256 kdf w) :
    wpOk (sysEnv sha256) (fun _ _ => True) (Held sha256 kdf w)
      (WifiJournal.recoverDue sha256 boot now (restoreManaged kdf)) w := by
  have hheld : Held sha256 kdf w w := ⟨h, rfl⟩
  unfold WifiJournal.recoverDue
  rw [wpOk_ensure]
  refine ⟨hheld, fun _ => ?_⟩
  rw [wpOk_bind]
  apply load_ok hheld
  cases hr : w.record? sha256 with
  | none => exact (wpOk_pure ..).mpr ⟨hheld, trivial⟩
  | some record =>
    simp only
    by_cases hp : record.phase = .pending
    · rw [if_neg (not_not.mpr hp)]
      by_cases hwait : record.bootId = boot ∧ now < record.deadlineMs
      · rw [if_pos hwait]
        exact (wpOk_pure ..).mpr ⟨hheld, trivial⟩
      · rw [if_neg hwait]
        exact restorePending_good h hr hp
    · rw [if_pos hp]
      exact (wpOk_pure ..).mpr ⟨hheld, trivial⟩

theorem managedRecoveryTick_good (h : Good sha256 kdf w) :
    wpOk (sysEnv sha256) (fun _ _ => True) (Held sha256 kdf w)
      (managedRecoveryTick sha256 kdf) w := by
  unfold managedRecoveryTick
  rw [wpOk_bind]
  apply open_journal_spec ⟨h, rfl⟩
  rw [wpOk_bind]
  apply clock_spec
  · intro b t
    exact ⟨good_read h b t, rfl⟩
  · intro boot now _
    exact recoverDue_good (w := w.read (some boot) (some now)) boot now (good_read h _ _)

theorem managedCancel_good (transaction : Bytes) (h : Good sha256 kdf w) :
    wpOk (sysEnv sha256) (fun _ _ => True) (Held sha256 kdf w)
      (managedCancel sha256 kdf transaction) w := by
  apply managedCancel_ok
  · intro b t
    exact ⟨good_read h b t, rfl⟩
  · intro record b t hr _
    refine ⟨fun _ => trivial, fun hp => ?_⟩
    exact restorePending_good (w := w.read b t) (good_read h b t) hr hp

/-! ## Commit and activation -/

theorem journal_commit_good {q : Request} {c transaction boot : Bytes} {now : UInt64}
    (h : Good sha256 kdf w) (hq : w.request = some q) (hf : w.file .netplan = some c)
    (hc : candidateOf kdf q = some c) (hb : w.boot = some boot) (ht : w.time = some now) :
    wpOk (sysEnv sha256) (fun _ _ => True) (Held sha256 kdf w)
      (WifiJournal.commit sha256 transaction boot now) w := by
  have hres : RecoveryPhase.committed ≠ .pending := by decide
  have hheld : Held sha256 kdf w w := ⟨h, rfl⟩
  unfold WifiJournal.commit
  rw [wpOk_bind]
  apply load_ok hheld
  cases hr : w.record? sha256 with
  | none => exact (wpOk_throw ..).mpr hheld
  | some record =>
    simp only
    rw [wpOk_ensure]
    refine ⟨hheld, fun hcommit => ?_⟩
    simp only [WifiJournal.committable, Bool.and_eq_true, beq_iff_eq, decide_eq_true_eq] at hcommit
    obtain ⟨⟨_, hboot⟩, hnow⟩ := hcommit
    apply save_ok
    · intro s
      exact ⟨good_stage h s, rfl⟩
    · intro s image _ hd
      have hgood : Good sha256 kdf ((w.stage s).recorded (record.resolved .committed) image) := by
        apply good_recorded (good_stage h s) hd
        · exact fun hpending => by cases hpending
        · refine ⟨fun hrestored => (by cases hrestored), fun _ => ⟨q, c, now, ?_, hf, hc, ht, hnow, ?_⟩⟩
          · exact (requested_resolved record hres).trans hq
          · exact hb.trans (congrArg some hboot.symm)
      exact ⟨⟨hgood, requested_resolved record hres⟩, trivial⟩

theorem managedCommit_good {q : Request} {c transaction : Bytes} {target : WifiProfile}
    (h : Good sha256 kdf w) (hq : w.request = some q) (hc : candidateOf kdf q = some c)
    (ht : WifiDraft.yaml target = some c) :
    wpOk (sysEnv sha256) (fun _ _ => True) (Held sha256 kdf w)
      (managedCommit sha256 kdf transaction target (verifyLive target)) w := by
  have hread : ∀ b t, Held sha256 kdf w (w.read b t) := fun b t => ⟨good_read h b t, rfl⟩
  unfold managedCommit
  rw [wpOk_bind]
  apply verifyCommit_spec (verifyLive_spec target) hread
  intro boot now hp
  exact journal_commit_good (w := w.read (some boot) (some now)) (good_read h _ _) hq
    (file_of_persisted ht hp) hc rfl rfl

theorem install_good {b : WifiManagedBackend} {q : Request} {target : WifiProfile}
    (h : Good sha256 kdf w) (hq : w.request = some q)
    (hc : candidateOf kdf q = some b.candidate) :
    wpOk (sysEnv sha256) (fun _ _ => True) (Held sha256 kdf w) (install sha256 kdf b target) w := by
  apply install_spec
  · intro bt t s
    exact ⟨good_stage (good_read h bt t) s, rfl⟩
  · intro record bt t s hr hp _
    obtain ⟨q', hq', hb, -⟩ := h.pending record hr hp
    obtain rfl : q' = q := Option.some.inj (hq'.symm.trans hq)
    -- the candidate may take the place of the file
    have hnext := good_replaced (good_stage (good_read h bt t) s) hr hq ⟨hb, .inr ⟨_, rfl, hc⟩⟩
    exact ⟨hnext, rfl⟩

/-! ## Preparation -/

theorem inherit_ok {profile target : WifiProfile} {candidate c : Bytes} {previous : Option Bytes}
    (hp : WifiDraft.yaml profile = some candidate)
    (h : inherit kdf profile candidate previous = .ok (target, c)) :
    candidateOf kdf ⟨profile, previous⟩ = some c ∧ WifiDraft.yaml target = some c := by
  cases previous with
  | none =>
    cases h
    exact ⟨hp, hp⟩
  | some file =>
    cases hf : WifiDraft.read kdf file with
    | error e => simp [inherit, hf] at h
    | ok found =>
      cases hm : WifiDraft.make { profile with dhcp6 := found.dhcp6 } with
      | error e => simp [inherit, hf, hm] at h
      | ok draft =>
        simp only [inherit, hf, hm, Except.ok.injEq, Prod.mk.injEq] at h
        obtain ⟨rfl, rfl⟩ := h
        simp [candidateOf, hf, WifiDraft.yaml, hm]

theorem beginRecord_good {record : RecoveryRecord} {profile : WifiProfile}
    (h : Good sha256 kdf w) (ha : w.asked = some profile)
    (hb : record.backup = w.file .netplan) :
    wpOk (sysEnv sha256) (fun _ w' => w'.request = some ⟨profile, w.file .netplan⟩)
      (Good sha256 kdf) (beginRecord sha256 record) w := by
  have hrequest : ∀ s, record.phase = .pending →
      (w.stage s).requested record = some ⟨profile, w.file .netplan⟩ := by
    intro s hp
    simp [World.requested, World.stage, hp, ha]
  refine wpOk_post (beginRecord_spec (good_stage h) ?_) ?_
  · intro s image bt t hp hd
    apply good_read
    apply good_recorded (good_stage h s) hd
    · intro _
      exact ⟨_, hrequest s hp, hb, .inl rfl⟩
    · constructor <;> intro hphase <;> simp [hp] at hphase
  · intro _ w' _ hbegun
    obtain ⟨hp, s, image, bt, t, _, rfl⟩ := hbegun
    exact hrequest s hp

theorem prepare_good {b : WifiManagedBackend} {profile : WifiProfile} {lifetime : Int}
    (h : Good sha256 kdf w) (ha : w.asked = some profile) (hc : Coordinated kdf b w) :
    wp (sysEnv sha256) (fun r w' => Coordinated kdf r.2 w') (Good sha256 kdf)
      (b.prepare sha256 kdf profile lifetime) w := by
  have hidle : b.attempted = false → ¬ b.prepared = true ∧ ¬ b.activated = true := by
    intro hf
    have hp : ¬ b.prepared = true := fun hp => by simp [hc.prepared hp] at hf
    exact ⟨hp, fun ha => hp (hc.activated ha)⟩
  apply prepare_spec (fun _ _ _ _ h => h) (good_read h)
  · intro _ message
    exact coordinated_fail hc message
  · intro hf target candidate message bt t
    obtain ⟨hp, ha⟩ := hidle hf
    exact ⟨fun h => absurd h ha, fun h => absurd h hp, fun h => absurd h hp⟩
  · intro hf draft target candidate record bt t d w' hyaml hinherit _ _ hb b' hb'
    subst hb'
    obtain ⟨hp, ha'⟩ := hidle hf
    obtain ⟨hcand, hyaml'⟩ := inherit_ok hyaml hinherit
    apply conclude_spec
    · intro message w' _
      exact ⟨fun h => absurd h ha', fun h => absurd h hp, fun h => absurd h hp⟩
    · refine wpOk_post (beginRecord_good (good_read h bt t) ha hb) ?_
      intro _ w₂ _ hreq
      refine ⟨fun h => absurd h ha', fun _ => rfl, fun _ t ht => ?_⟩
      cases ht
      exact ⟨_, hreq, hcand, hyaml'⟩

/-! ## Steps and runs -/

theorem coordinated_of_held {b b' : WifiManagedBackend} {w' : World} (hc : Coordinated kdf b w)
    (hw : w'.request = w.request) (hp : b'.prepared = b.prepared)
    (ha : b'.attempted = b.attempted) (hv : b'.activated = true → b.prepared = true)
    (ht : ∀ t, b'.target = some t → b.target = some t ∧ b'.candidate = b.candidate) :
    Coordinated kdf b' w' := by
  refine ⟨fun h => hp.trans (hv h), fun h => ha.trans (hc.prepared (hp ▸ h)), fun h t ht' => ?_⟩
  obtain ⟨hbt, hbc⟩ := ht t ht'
  rw [hw, hbc]
  exact hc.target (hp ▸ h) t hbt

theorem activate_good {b : WifiManagedBackend} (h : Good sha256 kdf w) (hc : Coordinated kdf b w) :
    wp (sysEnv sha256) (fun r w' => Coordinated kdf r.2 w') (Held sha256 kdf w)
      (b.activate sha256 kdf) w := by
  have hheld : Held sha256 kdf w w := ⟨h, rfl⟩
  unfold activate
  cases ht : b.target with
  | none => exact ⟨hheld, coordinated_fail hc _⟩
  | some target =>
    simp only
    split
    · exact ⟨hheld, coordinated_fail hc _⟩
    rename_i hready
    simp only [Bool.or_eq_true, Bool.not_eq_true', not_or, Bool.not_eq_false] at hready
    obtain ⟨q, hq, hcand, -⟩ := hc.target hready.1.1.1 target ht
    apply conclude_spec
    · intro message w' hk
      exact coordinated_of_held hc hk.2 rfl rfl hc.activated fun t ht' => ⟨ht', rfl⟩
    · refine wpOk_post (install_good h hq hcand) fun _ w' hk _ => ?_
      exact coordinated_of_held hc hk.2 rfl rfl (fun _ => hready.1.1.1) fun t ht' =>
        ⟨ht.trans ht', rfl⟩

theorem commit_good {b : WifiManagedBackend} (h : Good sha256 kdf w) (hc : Coordinated kdf b w) :
    wp (sysEnv sha256) (fun r w' => Coordinated kdf r.2 w') (Held sha256 kdf w)
      (b.commit sha256 kdf) w := by
  have hheld : Held sha256 kdf w w := ⟨h, rfl⟩
  unfold commit
  cases ht : b.target with
  | none => exact ⟨hheld, coordinated_fail hc _⟩
  | some target =>
    simp only
    split
    · exact ⟨hheld, coordinated_fail hc _⟩
    rename_i hready
    simp only [Bool.or_eq_true, Bool.not_eq_true', not_or, Bool.not_eq_false] at hready
    obtain ⟨q, hq, hcand, hyaml⟩ := hc.target (hc.activated hready.1.1) target ht
    apply conclude_spec
    · intro message w' hk
      exact coordinated_of_held hc hk.2 rfl rfl hc.activated fun t ht' => ⟨ht', rfl⟩
    · refine wpOk_post (managedCommit_good h hq hcand hyaml) fun _ w' hk _ => ?_
      exact coordinated_of_held hc hk.2 rfl rfl hc.activated fun t ht' => by cases ht'

theorem rollback_good {b : WifiManagedBackend} (h : Good sha256 kdf w) (hc : Coordinated kdf b w) :
    wp (sysEnv sha256) (fun r w' => Coordinated kdf r.2 w') (Held sha256 kdf w)
      (b.rollback sha256 kdf) w := by
  have hheld : Held sha256 kdf w w := ⟨h, rfl⟩
  have hforget : ∀ w', Held sha256 kdf w w' → ∀ b' : WifiManagedBackend, b'.prepared = b.prepared →
      b'.attempted = b.attempted → b'.activated = b.activated →
      Coordinated kdf b'.forgetTarget w' :=
    fun w' hk b' hp ha hv => coordinated_of_held hc hk.2 hp ha (fun h => hc.activated (hv ▸ h))
      fun t ht => by cases ht
  have hkeep : ∀ w', Held sha256 kdf w w' → ∀ message,
      Coordinated kdf { b with error := message } w' :=
    fun w' hk message => coordinated_of_held hc hk.2 rfl rfl hc.activated fun t ht => ⟨ht, rfl⟩
  unfold rollback
  split
  · exact ⟨hheld, hkeep _ hheld _⟩
  split
  · exact ⟨hheld, hforget _ hheld b rfl rfl rfl⟩
  rw [wp_bind]
  refine wp_post (managedCancel_good b.transaction h) fun r w' hk _ => ?_
  cases r with
  | error message => exact ⟨hk, hkeep _ hk _⟩
  | ok outcome =>
    cases outcome with
    | restored => exact ⟨hk, hforget _ hk { b with restored := true } rfl rfl rfl⟩
    | nothing => exact ⟨hk, hforget _ hk { b with restored := true } rfl rfl rfl⟩
    | waiting => exact ⟨hk, hkeep _ hk b.error⟩

theorem op_good {b : WifiManagedBackend} (op : Op) (h : Good sha256 kdf w)
    (hc : Coordinated kdf b w) :
    wp (sysEnv sha256) (fun b' w' => Coordinated kdf b' w') (Good sha256 kdf)
      (op.run sha256 kdf b) (op.enter w) := by
  have weaken : ∀ {m : SysProgram (Bool × WifiManagedBackend)},
      wp (sysEnv sha256) (fun r w' => Coordinated kdf r.2 w') (Held sha256 kdf w) m w →
      wp (sysEnv sha256) (fun b' w' => Coordinated kdf b' w') (Good sha256 kdf) (Prod.snd <$> m) w := by
    intro m hm
    rw [wp_map]
    exact wp_mono (fun _ _ _ hq => hq) (fun _ hk => hk.1) hm
  cases op with
  | prepare profile lifetime =>
    have hentered : Good sha256 kdf { w with asked := some profile } := ⟨h.pending, h.marks⟩
    have hcoord : Coordinated kdf b { w with asked := some profile } :=
      ⟨hc.activated, hc.prepared, hc.target⟩
    simp only [Op.run, Op.enter]
    rw [wp_map]
    exact prepare_good hentered rfl hcoord
  | activate => exact weaken (activate_good h hc)
  | commit => exact weaken (commit_good h hc)
  | rollback => exact weaken (rollback_good h hc)

variable (sha256 kdf) in
def Inv (s : System) : Prop := Good sha256 kdf s.2 ∧ ∀ b, s.1 = some b → Coordinated kdf b s.2

theorem inv_of_held {c : Option WifiManagedBackend} {w' : World} (h : Inv sha256 kdf (c, w))
    (hk : Held sha256 kdf w w') : Inv sha256 kdf (c, w') := by
  refine ⟨hk.1, fun b hb => ?_⟩
  have hc := h.2 b hb
  exact coordinated_of_held hc hk.2 rfl rfl hc.activated fun t ht => ⟨ht, rfl⟩

theorem step_inv {s s' : System} (h : Inv sha256 kdf s) (hs : Step sha256 kdf s s') :
    Inv sha256 kdf s' := by
  cases hs with
  | @coordinate op b b' w w' hr =>
    have hw := op_good op h.1 (h.2 b rfl)
    refine ⟨wp_crash_of_runs hw hr, fun b'' hb'' => ?_⟩
    cases hb''
    exact runs_of_wp hw hr
  | @death op b w w' hv => exact ⟨visits_of_wp (op_good op h.1 (h.2 b rfl)) hv, nofun⟩
  | supervise hr => exact inv_of_held h (wp_crash_of_runs (managedRecoveryTick_good h.1) hr)
  | interrupted hv => exact inv_of_held h (visits_of_wp (managedRecoveryTick_good h.1) hv)
  | replace =>
    refine ⟨h.1, fun b hb => ?_⟩
    cases hb
    exact ⟨nofun, nofun, nofun⟩
  | reboot => exact ⟨h.1, nofun⟩

/-- **The managed file follows the journal.** From any journal that is not
pending, over every interleaving of coordinators that die and supervisors that
are interrupted, with arbitrary answers: a pending journal keeps the file its
transaction found, and the file is that one or the candidate; when the journal
becomes restored the file is the one that was found; when it becomes committed
the file is the candidate, and the reading of the clock that was passed to the
commit lay before the deadline, in the boot of the transaction. -/
theorem managed_contract {w₀ : World} {s : System}
    (h₀ : ∀ record, w₀.record? sha256 = some record → record.phase ≠ .pending)
    (hm : w₀.marks = []) (h : Reach sha256 kdf (none, w₀) s) :
    (∀ record, s.2.record? sha256 = some record → record.phase = .pending →
      ∃ q, s.2.request = some q ∧ record.backup = q.original ∧
        (s.2.file .netplan = q.original ∨
          ∃ b, s.2.file .netplan = some b ∧ candidateOf kdf q = some b)) ∧
    (∀ m ∈ s.2.marks, m.record.phase = .restored →
      ∃ q, m.request = some q ∧ m.managed = q.original) ∧
    (∀ m ∈ s.2.marks, m.record.phase = .committed →
      ∃ q b t, m.request = some q ∧ m.managed = some b ∧ candidateOf kdf q = some b ∧
        m.time = some t ∧ t < m.record.deadlineMs ∧ m.boot = some m.record.bootId) := by
  have hinv : Inv sha256 kdf s := by
    induction h with
    | refl => exact ⟨⟨fun r hr hp => absurd hp (h₀ r hr), by simp [hm]⟩, nofun⟩
    | tail _ hs ih => exact step_inv ih hs
  refine ⟨?_, ?_, ?_⟩
  · intro record hr hp
    exact hinv.1.pending record hr hp
  · intro m hmem
    exact (hinv.1.marks m hmem).1
  · intro m hmem
    exact (hinv.1.marks m hmem).2

end

/-! ## A concrete run -/

def runWell (s : WifiManagedBackend × World) (op : Op) : WifiManagedBackend × World :=
  exec (World.answer zeroSha (fun _ => true) zeroBoot 1000)
    (op.run zeroSha noKdf s.1) (op.enter s.2)

theorem step_runWell (s : WifiManagedBackend × World) (op : Op) :
    Step zeroSha noKdf (some s.1, s.2) (some (runWell s op).1, (runWell s op).2) :=
  .coordinate (runs_exec (World.env_answer _ _ _ _) _ _)

def zeroProfile : WifiProfile := ⟨bytes "61", List.replicate 32 0, none⟩

def committedRun : WifiManagedBackend × World :=
  runWell (runWell (runWell ({}, .noFiles) (.prepare zeroProfile 90)) .activate) .commit

theorem managed_contract_committed : committedRun.1.committed = true ∧
    ∃ m ∈ committedRun.2.marks, m.record.phase = .committed ∧
      ∃ q b t, m.request = some q ∧ m.managed = some b ∧ candidateOf noKdf q = some b ∧
        m.time = some t ∧ t < m.record.deadlineMs ∧ m.boot = some m.record.bootId := by
  have h : Reach zeroSha noKdf (none, .noFiles) (some committedRun.1, committedRun.2) := by
    rw [committedRun]
    exact (((Relation.ReflTransGen.single .replace).tail (step_runWell ({}, .noFiles) _)).tail
      (step_runWell _ _)).tail (step_runWell _ _)
  have hcomputed : committedRun.1.committed = true ∧
      committedRun.2.marks.any (fun m => m.record.phase == .committed) = true := by
    decide +kernel
  obtain ⟨hdone, hany⟩ := hcomputed
  have hmark : ∃ m ∈ committedRun.2.marks, m.record.phase = .committed := by
    simpa [List.any_eq_true] using hany
  obtain ⟨m, hmem, hp⟩ := hmark
  obtain ⟨-, -, hcommitted⟩ := managed_contract (by simp [World.record?, World.noFiles,
    RecoveryRecord.ofFile]) rfl h
  exact ⟨hdone, m, hmem, hp, hcommitted m hmem hp⟩

end WifiManagedBackend

end EncoderNext
