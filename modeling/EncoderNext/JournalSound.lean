import EncoderNext.WifiJournal

/-!
# Every run of the journal

Calls in any order with any arguments, restore callbacks that answer anything
or throw, and files that may fail at any step. What one call may do to the
journal is said once; the rest follows along the run.
-/

namespace EncoderNext

open Program

namespace WifiJournal

inductive JournalOp where
  | begin (record : RecoveryRecord)
  | commit (transaction boot : Bytes) (now : UInt64)
  | cancel (transaction boot : Bytes)
  | recoverDue (boot : Bytes) (now : UInt64)

/-- The call, with a callback that answers anything; `begin` and `commit` have
no outcome beside success. -/
def JournalOp.run (sha256 : Sha256) : JournalOp → Fallible (Option RecoveryOutcome)
  | begin record => do WifiJournal.begin sha256 record; return none
  | commit transaction boot now => do WifiJournal.commit sha256 transaction boot now; return none
  | cancel transaction boot =>
    some <$> WifiJournal.cancel sha256 transaction boot fun record => sys (.callback record)
  | recoverDue boot now =>
    some <$> WifiJournal.recoverDue sha256 boot now fun record => sys (.callback record)

structure Turn where
  before : Option Bytes
  op : JournalOp
  callbacks : List (RecoveryRecord × Option Bool)
  answer : Except String (Option RecoveryOutcome)
  after : Option Bytes

inductive Run (sha256 : Sha256) : World → List Turn → World → Prop where
  | nil (w : World) : Run sha256 w [] w
  | cons {w w₁ w₂ : World} {op : JournalOp} {answer : Except String (Option RecoveryOutcome)}
      {turns : List Turn} :
      Runs (sysEnv sha256) (op.run sha256).run { w with callbacks := [] } answer w₁ →
      Run sha256 w₁ turns w₂ →
      Run sha256 w (⟨w.file .journal, op, w₁.callbacks, answer, w₁.file .journal⟩ :: turns) w₂

/-! ## What one call may do -/

def JournalOp.mayRestore (record : RecoveryRecord) : JournalOp → Prop
  | cancel transaction boot => record.transaction = transaction ∧ record.bootId = boot
  | recoverDue boot now => record.bootId ≠ boot ∨ record.deadlineMs ≤ now
  | _ => False

def Replaced (success : Option RecoveryOutcome) (answer : Except String (Option RecoveryOutcome)) :
    Prop := answer = .ok success ∨ answer = .error File.journal.uncertain

inductive Effect (sha256 : Sha256) : Turn → Prop where
  | nothing {file : Option Bytes} {op : JournalOp} {answer : Except String (Option RecoveryOutcome)} :
      answer ≠ .ok none → answer ≠ .ok (some .restored) → Effect sha256 ⟨file, op, [], answer, file⟩
  | begun {file : Option Bytes} {record : RecoveryRecord} {image : Bytes}
      {answer : Except String (Option RecoveryOutcome)} :
      (∀ old, RecoveryRecord.ofFile sha256 file = some old → old.phase ≠ .pending) →
      record.phase = .pending → RecoveryRecord.ofFile sha256 (some image) = some record →
      Replaced none answer → Effect sha256 ⟨file, .begin record, [], answer, some image⟩
  | committed {file : Option Bytes} {record : RecoveryRecord} {image transaction boot : Bytes}
      {now : UInt64} {answer : Except String (Option RecoveryOutcome)} :
      RecoveryRecord.ofFile sha256 file = some record →
      committable record transaction boot now = true →
      RecoveryRecord.ofFile sha256 (some image) = some (record.resolved .committed) →
      Replaced none answer →
      Effect sha256 ⟨file, .commit transaction boot now, [], answer, some image⟩
  | kept {file : Option Bytes} {record : RecoveryRecord} {op : JournalOp} {reply : Option Bool}
      {e : String} :
      RecoveryRecord.ofFile sha256 file = some record → record.phase = .pending →
      op.mayRestore record → Effect sha256 ⟨file, op, [(record, reply)], .error e, file⟩
  | restored {file : Option Bytes} {record : RecoveryRecord} {image : Bytes} {op : JournalOp}
      {answer : Except String (Option RecoveryOutcome)} :
      RecoveryRecord.ofFile sha256 file = some record → record.phase = .pending →
      op.mayRestore record →
      RecoveryRecord.ofFile sha256 (some image) = some (record.resolved .restored) →
      Replaced (some .restored) answer →
      Effect sha256 ⟨file, op, [(record, some true)], answer, some image⟩

section
variable {sha256 : Sha256} {w : World}

def Leaves (sha256 : Sha256) (w : World) (op : JournalOp)
    (answer : Except String (Option RecoveryOutcome)) (w' : World) : Prop :=
  Effect sha256 ⟨w.file .journal, op, w'.callbacks, answer, w'.file .journal⟩

theorem leaves_same {op : JournalOp} {answer : Except String (Option RecoveryOutcome)} {w' : World}
    (hc : w'.callbacks = []) (hf : w'.file = w.file) (h₁ : answer ≠ .ok none)
    (h₂ : answer ≠ .ok (some .restored)) : Leaves sha256 w op answer w' := by
  unfold Leaves
  rw [hc, hf]
  exact .nothing h₁ h₂

theorem begin_effect (record : RecoveryRecord) (hc : w.callbacks = []) :
    wp (sysEnv sha256) (Leaves sha256 w (.begin record)) (fun _ => True)
      ((JournalOp.begin record).run sha256).run w := by
  have refused : ∀ s e, Leaves sha256 w (.begin record) (.error e) (w.stage s) :=
    fun s e => leaves_same hc rfl nofun nofun
  simp only [JournalOp.run, WifiJournal.begin, bind_assoc]
  rw [wp_run_bind]
  -- no old record, or one that is not pending
  have hgo : ∀ previous : Option RecoveryRecord,
      (∀ old, RecoveryRecord.ofFile sha256 (w.file .journal) = some old → previous = some old) →
      wp (sysEnv sha256) (Leaves sha256 w (.begin record)) (fun _ => True)
        (ExceptT.run do
          ensure (!previous.any (·.phase == .pending)) "Unresolved recovery transaction exists"
          ensure (record.phase == .pending) "New transaction must be pending"
          save sha256 record
          pure none) w := by
    intro previous hp
    rw [wp_run_ensure]
    split
    swap
    · exact ⟨trivial, refused w.staged _⟩
    rename_i hold
    rw [wp_run_ensure]
    split
    swap
    · exact ⟨trivial, refused w.staged _⟩
    rename_i hpending
    rw [wp_run_bind]
    refine save_spec (fun _ _ _ _ h => h) record (fun _ => trivial) (fun s e => refused s e) fun s image hv hd => ?_
    have hfile := RecoveryRecord.ofFile_of_decode hd
    have hnot : ∀ old, RecoveryRecord.ofFile sha256 (w.file .journal) = some old →
        old.phase ≠ .pending := by
      intro old ho hphase
      simp [hp old ho, hphase] at hold
    have hleaves : ∀ answer, Replaced none answer →
        Leaves sha256 w (.begin record) answer ((w.stage s).recorded record image) := by
      intro answer ha
      have : Effect sha256 ⟨w.file .journal, .begin record, [], answer, some image⟩ :=
        .begun hnot (by simpa using hpending) hfile ha
      simpa [Leaves, World.recorded, World.stage, hc] using this
    exact ⟨trivial, ⟨trivial, hleaves _ (.inl rfl)⟩, fun _ _ => hleaves _ (.inr rfl)⟩
  refine load_spec trivial (fun e => refused w.staged e) (fun hnone => ?_) fun old ho => ?_
  · refine hgo none fun old ho => ?_
    simp [RecoveryRecord.ofFile, hnone] at ho
  · refine hgo (some old) fun old' ho' => ?_
    exact ho.symm.trans ho'

theorem commit_effect (transaction boot : Bytes) (now : UInt64) (hc : w.callbacks = []) :
    wp (sysEnv sha256) (Leaves sha256 w (.commit transaction boot now)) (fun _ => True)
      ((JournalOp.commit transaction boot now).run sha256).run w := by
  have refused : ∀ s e, Leaves sha256 w (.commit transaction boot now) (.error e) (w.stage s) :=
    fun s e => leaves_same hc rfl nofun nofun
  simp only [JournalOp.run, WifiJournal.commit, bind_assoc]
  rw [wp_run_bind]
  refine load_spec trivial (fun e => refused w.staged e) (fun _ => ?_) fun record hr => ?_
  · exact ⟨trivial, refused w.staged _⟩
  simp only [bind_assoc]
  rw [wp_run_ensure]
  split
  swap
  · exact ⟨trivial, refused w.staged _⟩
  rename_i hcommittable
  rw [wp_run_bind]
  refine save_spec (fun _ _ _ _ h => h) _ (fun _ => trivial) (fun s e => refused s e) fun s image hv hd => ?_
  have hfile := RecoveryRecord.ofFile_of_decode hd
  have hleaves : ∀ answer, Replaced none answer → Leaves sha256 w (.commit transaction boot now)
      answer ((w.stage s).recorded (record.resolved .committed) image) := by
    intro answer ha
    have : Effect sha256 ⟨w.file .journal, .commit transaction boot now, [], answer, some image⟩ :=
      .committed hr hcommittable hfile ha
    simpa [Leaves, World.recorded, World.stage, hc] using this
  exact ⟨trivial, ⟨trivial, hleaves _ (.inl rfl)⟩, fun _ _ => hleaves _ (.inr rfl)⟩

theorem restorePending_effect {op : JournalOp} {record : RecoveryRecord} (hc : w.callbacks = [])
    (hr : w.record? sha256 = some record) (hp : record.phase = .pending)
    (hmay : op.mayRestore record) :
    wp (sysEnv sha256) (fun answer w' => Leaves sha256 w op (some <$> answer) w') (fun _ => True)
      (restorePending sha256 record fun record => sys (.callback record)).run w := by
  unfold restorePending
  rw [wp_run_ask]
  refine ⟨trivial, fun reply w₁ h₁ => ?_⟩
  obtain rfl : w₁ = { w with callbacks := w.callbacks ++ [(record, reply)] } := h₁
  have failed : ∀ s e, Leaves sha256 w op (.error e)
      ({ w with callbacks := w.callbacks ++ [(record, reply)] }.stage s) := by
    intro s e
    have : Effect sha256 ⟨w.file .journal, op, [(record, reply)], .error e, w.file .journal⟩ :=
      .kept hr hp hmay
    simpa [Leaves, World.stage, hc] using this
  rw [wp_run_ensure]
  split
  swap
  · exact ⟨trivial, failed w.staged _⟩
  rename_i hreply
  rw [beq_iff_eq] at hreply
  subst hreply
  rw [wp_run_bind]
  refine save_spec (fun _ _ _ _ h => h) _ (fun _ => trivial) (fun s e => failed s e) fun s image hv hd => ?_
  have hfile := RecoveryRecord.ofFile_of_decode hd
  have hleaves : ∀ answer, Replaced (some .restored) answer → Leaves sha256 w op answer
      (({ w with callbacks := w.callbacks ++ [(record, some true)] }.stage s).recorded
        (record.resolved .restored) image) := by
    intro answer ha
    have : Effect sha256 ⟨w.file .journal, op, [(record, some true)], answer, some image⟩ :=
      .restored hr hp hmay hfile ha
    simpa [Leaves, World.recorded, World.stage, hc] using this
  exact ⟨trivial, ⟨trivial, hleaves _ (.inl rfl)⟩, fun _ _ => hleaves _ (.inr rfl)⟩

theorem cancel_effect (transaction boot : Bytes) (hc : w.callbacks = []) :
    wp (sysEnv sha256) (Leaves sha256 w (.cancel transaction boot)) (fun _ => True)
      ((JournalOp.cancel transaction boot).run sha256).run w := by
  have refused : ∀ s e, Leaves sha256 w (.cancel transaction boot) (.error e) (w.stage s) :=
    fun s e => leaves_same hc rfl nofun nofun
  rw [JournalOp.run, wp_run_map, WifiJournal.cancel, wp_run_ensure]
  split
  swap
  · exact ⟨trivial, refused w.staged _⟩
  rw [wp_run_bind]
  refine load_spec trivial (fun e => refused w.staged e) (fun _ => ?_) fun record hr => ?_
  · exact ⟨trivial, refused w.staged _⟩
  simp only
  rw [wp_run_ensure]
  split
  swap
  · exact ⟨trivial, refused w.staged _⟩
  rename_i hmatch
  simp only [Bool.and_eq_true, beq_iff_eq, bne_iff_ne] at hmatch
  obtain ⟨⟨ht, hb⟩, hphase⟩ := hmatch
  by_cases hrestored : record.phase = .restored
  · rw [if_pos hrestored]
    exact ⟨trivial, leaves_same hc rfl nofun nofun⟩
  · rw [if_neg hrestored]
    refine restorePending_effect hc hr ?_ ⟨ht, hb⟩
    cases hp : record.phase <;> simp_all

theorem recoverDue_effect (boot : Bytes) (now : UInt64) (hc : w.callbacks = []) :
    wp (sysEnv sha256) (Leaves sha256 w (.recoverDue boot now)) (fun _ => True)
      ((JournalOp.recoverDue boot now).run sha256).run w := by
  have refused : ∀ s e, Leaves sha256 w (.recoverDue boot now) (.error e) (w.stage s) :=
    fun s e => leaves_same hc rfl nofun nofun
  rw [JournalOp.run, wp_run_map, WifiJournal.recoverDue, wp_run_ensure]
  split
  swap
  · exact ⟨trivial, refused w.staged _⟩
  rw [wp_run_bind]
  refine load_spec trivial (fun e => refused w.staged e) (fun _ => ?_) fun record hr => ?_
  · exact ⟨trivial, leaves_same hc rfl nofun nofun⟩
  simp only
  by_cases hp : record.phase = .pending
  swap
  · rw [if_pos hp]
    exact ⟨trivial, leaves_same hc rfl nofun nofun⟩
  rw [if_neg (not_not.mpr hp)]
  by_cases hwait : record.bootId = boot ∧ now < record.deadlineMs
  · rw [if_pos hwait]
    exact ⟨trivial, leaves_same hc rfl nofun nofun⟩
  · rw [if_neg hwait]
    refine restorePending_effect hc hr hp ?_
    rw [not_and_or, UInt64.not_lt] at hwait
    exact hwait

theorem op_effect (op : JournalOp) (hc : w.callbacks = []) :
    wp (sysEnv sha256) (Leaves sha256 w op) (fun _ => True) (op.run sha256).run w := by
  cases op with
  | begin record => exact begin_effect record hc
  | commit transaction boot now => exact commit_effect transaction boot now hc
  | cancel transaction boot => exact cancel_effect transaction boot hc
  | recoverDue boot now => exact recoverDue_effect boot now hc

end

/-! ## Runs -/

section
variable {sha256 : Sha256}

/-- A run as its files show it: each call has its effect, and takes the file as
the call before it left it. -/
inductive Chain (sha256 : Sha256) : Option Bytes → List Turn → Option Bytes → Prop where
  | nil (file : Option Bytes) : Chain sha256 file [] file
  | cons {t : Turn} {turns : List Turn} {file : Option Bytes} :
      Effect sha256 t → Chain sha256 t.after turns file → Chain sha256 t.before (t :: turns) file

theorem chain_of_run {w w' : World} {turns : List Turn} (h : Run sha256 w turns w') :
    Chain sha256 (w.file .journal) turns (w'.file .journal) := by
  induction h with
  | nil w => exact .nil _
  | @cons w w₁ w₂ op answer turns hr _ ih =>
    have he := runs_of_wp (op_effect op (w := { w with callbacks := [] }) rfl) hr
    exact .cons (t := ⟨w.file .journal, op, w₁.callbacks, answer, w₁.file .journal⟩) he ih

theorem chain_append {a b : List Turn} {j j' : Option Bytes} (h : Chain sha256 j (a ++ b) j') :
    ∃ m, Chain sha256 j a m ∧ Chain sha256 m b j' := by
  induction a generalizing j with
  | nil => exact ⟨j, .nil j, h⟩
  | cons t a ih =>
    cases h with
    | cons he hrest =>
      obtain ⟨m, ha, hb⟩ := ih hrest
      exact ⟨m, .cons he ha, hb⟩

def stored (start : Option RecoveryRecord) (turns : List Turn) : Option RecoveryRecord :=
  turns.foldl (fun record t => match t.op with
    | .begin r => if t.after = t.before then record else some r
    | _ => record) start

def resolves (sha256 : Sha256) (t : Turn) (phase : RecoveryPhase) : Prop :=
  ∃ record, RecoveryRecord.ofFile sha256 t.before = some record ∧ record.phase = .pending ∧
    RecoveryRecord.ofFile sha256 t.after = some (record.resolved phase) ∧ phase ≠ .pending

def begins (t : Turn) : Prop := ∃ record, t.op = .begin record ∧ t.after ≠ t.before

theorem pending_stored {start : Option RecoveryRecord} {turns : List Turn} {j j' : Option Bytes}
    (h : Chain sha256 j turns j')
    (hs : ∀ r, RecoveryRecord.ofFile sha256 j = some r → r.phase = .pending → start = some r) :
    ∀ r, RecoveryRecord.ofFile sha256 j' = some r → r.phase = .pending →
      stored start turns = some r := by
  induction h generalizing start with
  | nil file => exact hs
  | @cons t turns file he _ ih =>
    refine ih ?_
    intro r hr hp
    have hfirst : ∀ {phase : RecoveryPhase} {record : RecoveryRecord} {file : Option Bytes},
        RecoveryRecord.ofFile sha256 file = some (record.resolved phase) → phase ≠ .pending →
        RecoveryRecord.ofFile sha256 file ≠ some r := by
      intro phase record file hf hphase hr'
      rw [hf] at hr'
      cases hr'
      exact hphase hp
    cases he with
    | nothing =>
      dsimp only at hr hs ⊢
      split
      · simpa using hs r hr hp
      · exact hs r hr hp
    | @begun file record image answer hnot _ hfile _ =>
      dsimp only at hr ⊢
      rw [hfile] at hr
      cases hr
      split
      · rename_i hsame
        exact absurd hp (hnot r (hsame ▸ hfile))
      · rfl
    | committed _ _ hfile _ => exact absurd hr (hfirst hfile nofun)
    | @kept file record op reply e hrec _ hmay =>
      cases op with
      | begin => exact absurd hmay (by simp [JournalOp.mayRestore])
      | _ => exact hs r hr hp
    | restored _ _ _ hfile _ => exact absurd hr (hfirst hfile nofun)

theorem not_pending_chain {turns : List Turn} {j j' : Option Bytes} (h : Chain sha256 j turns j')
    (hb : ∀ t ∈ turns, ¬ begins t)
    (hj : ∀ r, RecoveryRecord.ofFile sha256 j = some r → r.phase ≠ .pending) :
    ∀ r, RecoveryRecord.ofFile sha256 j' = some r → r.phase ≠ .pending := by
  induction h with
  | nil file => exact hj
  | @cons t turns file he _ ih =>
    refine ih (fun t' ht' => hb t' (by simp [ht'])) ?_
    have hno := hb t (by simp)
    cases he with
    | nothing => exact hj
    | @begun file record image answer hnot _ hfile _ =>
      have hsame : some image = file := by
        by_cases hs : some image = file
        · exact hs
        · exact absurd ⟨record, rfl, hs⟩ hno
      intro r hr
      exact hnot r (hsame ▸ hr)
    | committed hrec hc _ _ =>
      simp only [committable, Bool.and_eq_true, beq_iff_eq] at hc
      exact absurd hc.1.1.1 (hj _ hrec)
    | kept hrec hp _ => exact absurd hp (hj _ hrec)
    | restored hrec hp _ _ _ => exact absurd hp (hj _ hrec)

/-- A transaction is resolved once: after a resolution, another takes a begin. -/
theorem resolved_once {a mid b : List Turn} {t₁ t₂ : Turn} {j j' : Option Bytes}
    {p₁ p₂ : RecoveryPhase} (h : Chain sha256 j (a ++ t₁ :: mid ++ t₂ :: b) j')
    (h₁ : resolves sha256 t₁ p₁) (h₂ : resolves sha256 t₂ p₂) : ∃ t ∈ mid, begins t := by
  by_contra hno
  have hb : ∀ t ∈ mid, ¬ begins t := fun t ht hb => hno ⟨t, ht, hb⟩
  obtain ⟨m, hfront, hback⟩ := chain_append h
  obtain ⟨m', -, hmid⟩ := chain_append hfront
  cases hback with
  | cons _ _ =>
    cases hmid with
    | cons _ hmid =>
      obtain ⟨r, -, -, hafter, hphase⟩ := h₁
      have hstart : ∀ r', RecoveryRecord.ofFile sha256 t₁.after = some r' → r'.phase ≠ .pending := by
        intro r' hr'
        rw [hafter] at hr'
        cases hr'
        exact hphase
      obtain ⟨r₂, hr₂, hp₂, -, -⟩ := h₂
      exact not_pending_chain hmid hb hstart r₂ hr₂ hp₂

theorem effect_of_chain {a b : List Turn} {t : Turn} {j j' : Option Bytes}
    (h : Chain sha256 j (a ++ t :: b) j') : Effect sha256 t ∧ Chain sha256 j a t.before := by
  obtain ⟨m, ha, hb⟩ := chain_append h
  cases hb with
  | cons he _ => exact ⟨he, ha⟩

/-- **The journal contract.** In every run of calls: a pending record gives way
only to its own resolution; the callback runs only on the pending record as it
was stored, when it is due or its transaction is cancelled in the same boot; a
transaction is resolved at most once between two begins; a commit succeeds only
in the same boot before the deadline; a resolved record that a call wrote holds
no backup; and a call that is refused, or whose restore fails, changes nothing. -/
theorem journal_contract {w w' : World} {turns : List Turn} (h : Run sha256 w turns w') :
    (∀ a t b record, turns = a ++ t :: b → RecoveryRecord.ofFile sha256 t.before = some record →
      record.phase = .pending → t.after = t.before ∨
        ∃ phase, phase ≠ .pending ∧
          RecoveryRecord.ofFile sha256 t.after = some (record.resolved phase)) ∧
    (∀ a t b record reply, turns = a ++ t :: b → (record, reply) ∈ t.callbacks →
      record.phase = .pending ∧ RecoveryRecord.ofFile sha256 t.before = some record ∧
      stored (w.record? sha256) a = some record ∧ t.op.mayRestore record) ∧
    (∀ a t₁ mid t₂ b p₁ p₂, turns = a ++ t₁ :: mid ++ t₂ :: b → resolves sha256 t₁ p₁ →
      resolves sha256 t₂ p₂ → ∃ t ∈ mid, begins t) ∧
    (∀ a t b transaction boot now, turns = a ++ t :: b → t.op = .commit transaction boot now →
      t.answer = .ok none → ∃ record, RecoveryRecord.ofFile sha256 t.before = some record ∧
        record.phase = .pending ∧ record.transaction = transaction ∧ record.bootId = boot ∧
        now < record.deadlineMs ∧
        RecoveryRecord.ofFile sha256 t.after = some (record.resolved .committed)) ∧
    (∀ a t b record, turns = a ++ t :: b → RecoveryRecord.ofFile sha256 t.after = some record →
      record.phase ≠ .pending → t.after ≠ t.before → record.previous = []) ∧
    (∀ a t b, turns = a ++ t :: b → (t.answer ≠ .ok none ∧ t.answer ≠ .ok (some .restored) ∧
      t.answer ≠ .error File.journal.uncertain ∨ ∃ record reply, (record, reply) ∈ t.callbacks ∧
        reply ≠ some true) → t.after = t.before) := by
  have hchain := chain_of_run h
  refine ⟨?_, ?_, ?_, ?_, ?_, ?_⟩
  · intro a t b record hturns hrec hp
    obtain ⟨he, -⟩ := effect_of_chain (hturns ▸ hchain)
    cases he with
    | nothing => exact .inl rfl
    | begun hnot _ _ _ => exact absurd hp (hnot _ hrec)
    | committed hr _ hfile _ =>
      obtain rfl := Option.some.inj (hr.symm.trans hrec)
      exact .inr ⟨.committed, nofun, hfile⟩
    | kept => exact .inl rfl
    | restored hr _ _ hfile _ =>
      obtain rfl := Option.some.inj (hr.symm.trans hrec)
      exact .inr ⟨.restored, nofun, hfile⟩
  -- the callback runs on what the last begin stored
  · intro a t b record reply hturns hmem
    obtain ⟨he, ha⟩ := effect_of_chain (hturns ▸ hchain)
    have hstored : ∀ r, RecoveryRecord.ofFile sha256 t.before = some r → r.phase = .pending →
        stored (w.record? sha256) a = some r := pending_stored ha fun r hr _ => hr
    cases he with
    | nothing => cases hmem
    | begun => cases hmem
    | committed => cases hmem
    | kept hr hp hmay =>
      cases List.mem_singleton.mp hmem
      exact ⟨hp, hr, hstored _ hr hp, hmay⟩
    | restored hr hp hmay _ _ =>
      cases List.mem_singleton.mp hmem
      exact ⟨hp, hr, hstored _ hr hp, hmay⟩
  · intro a t₁ mid t₂ b p₁ p₂ hturns h₁ h₂
    exact resolved_once (hturns ▸ hchain) h₁ h₂
  · intro a t b transaction boot now hturns hop hok
    obtain ⟨he, -⟩ := effect_of_chain (hturns ▸ hchain)
    cases he with
    | nothing hn _ => exact absurd hok hn
    | begun => cases hop
    | committed hr hc hfile _ =>
      cases hop
      simp only [committable, Bool.and_eq_true, beq_iff_eq, decide_eq_true_eq] at hc
      exact ⟨_, hr, hc.1.1.1, hc.1.1.2, hc.1.2, hc.2, hfile⟩
    | kept => cases hok
    | restored _ _ hmay _ _ =>
      cases hop
      exact hmay.elim
  · intro a t b record hturns hrec hphase hne
    obtain ⟨he, -⟩ := effect_of_chain (hturns ▸ hchain)
    cases he with
    | nothing => exact absurd rfl hne
    | begun _ hp hfile _ =>
      obtain rfl := Option.some.inj (hfile.symm.trans hrec)
      exact absurd hp hphase
    | committed _ _ hfile _ =>
      obtain rfl := Option.some.inj (hfile.symm.trans hrec)
      rfl
    | kept => exact absurd rfl hne
    | restored _ _ _ hfile _ =>
      obtain rfl := Option.some.inj (hfile.symm.trans hrec)
      rfl
  -- only the uncertain error may come after the rename
  · intro a t b hturns hrefused
    obtain ⟨he, -⟩ := effect_of_chain (hturns ▸ hchain)
    cases he with
    | nothing => rfl
    | begun _ _ _ ha =>
      rcases hrefused with ⟨h₁, -, h₃⟩ | ⟨_, _, hm, _⟩
      · exact absurd ha (by rintro (ha | ha); exacts [h₁ ha, h₃ ha])
      · cases hm
    | committed _ _ _ ha =>
      rcases hrefused with ⟨h₁, -, h₃⟩ | ⟨_, _, hm, _⟩
      · exact absurd ha (by rintro (ha | ha); exacts [h₁ ha, h₃ ha])
      · cases hm
    | kept => rfl
    | restored _ _ _ _ ha =>
      rcases hrefused with ⟨-, h₂, h₃⟩ | ⟨_, _, hm, hreply⟩
      · exact absurd ha (by rintro (ha | ha); exacts [h₂ ha, h₃ ha])
      · cases List.mem_singleton.mp hm
        exact absurd rfl hreply

end

/-! ## Concrete runs -/

def zeroRecord : RecoveryRecord :=
  { transaction := toHex (List.replicate 16 0)
    bootId := zeroBoot
    deadlineMs := 1000
    previousExists := true
    previous := bytes "before" }

def afterCall (w : World) (op : JournalOp) : World :=
  (exec (World.answer zeroSha (fun _ => true) zeroBoot 1) (op.run zeroSha).run
    { w with callbacks := [] }).2

theorem run_call (w : World) (op : JournalOp) : ∃ answer, Runs (sysEnv zeroSha)
    (op.run zeroSha).run { w with callbacks := [] } answer (afterCall w op) :=
  ⟨_, runs_exec (World.env_answer zeroSha _ zeroBoot 1) _ _⟩

def begunWorld : World := afterCall .noFiles (.begin zeroRecord)

def commitZero : JournalOp := .commit zeroRecord.transaction zeroBoot 1

theorem journal_contract_committed : begunWorld.record? zeroSha = some zeroRecord ∧
    (afterCall begunWorld commitZero).record? zeroSha = some (zeroRecord.resolved .committed) ∧
    (zeroRecord.resolved .committed).previous = [] := by
  obtain ⟨answer₁, h₁⟩ := run_call .noFiles (.begin zeroRecord)
  obtain ⟨answer₂, h₂⟩ := run_call begunWorld commitZero
  have hbegun : begunWorld.record? zeroSha = some zeroRecord := by decide +kernel
  have hdone : (afterCall begunWorld commitZero).record? zeroSha =
      some (zeroRecord.resolved .committed) := by decide +kernel
  obtain ⟨-, -, -, -, hempty, -⟩ := journal_contract (.cons h₁ (.cons h₂ (.nil _)))
  refine ⟨hbegun, hdone, ?_⟩
  have hchanged : (afterCall begunWorld commitZero).file .journal ≠ begunWorld.file .journal := by
    decide +kernel
  exact hempty [_] _ [] _ rfl hdone nofun hchanged

/-- A sound journal may hold a committed record with its backup, and calls that
do nothing leave it there. -/
def keptWorld : World :=
  { World.noFiles with file := fun
      | .journal => ({ zeroRecord with phase := .committed }).encode zeroSha
      | .netplan => none }

theorem resolved_backup_kept : ∃ turns w', Run zeroSha keptWorld turns w' ∧
    keptWorld.record? zeroSha = some { zeroRecord with phase := .committed } ∧
    w'.record? zeroSha = some { zeroRecord with phase := .committed } ∧
    ({ zeroRecord with phase := .committed } : RecoveryRecord).previous ≠ [] := by
  obtain ⟨answer, h⟩ := run_call keptWorld (.recoverDue zeroBoot 2000)
  refine ⟨_, _, .cons h (.nil _), ?_, ?_, ?_⟩
  · decide +kernel
  · decide +kernel
  · decide

end WifiJournal

end EncoderNext
