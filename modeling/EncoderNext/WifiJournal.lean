import EncoderNext.RecoveryWorld

/-!
# The recovery journal

One record at a time: begun as pending, then committed by its holder or
restored by a cancellation or the supervisor. Every operation loads the journal
anew and checks what it may do.
-/

namespace EncoderNext

open Program

/-- An operation that failed is an error of the program. -/
inductive RecoveryOutcome where
  | nothing | waiting | restored
  deriving DecidableEq

def recoveryClock : Fallible (Bytes × UInt64) := do
  match ← sys .bootId with
  | none => throw "Cannot read boot identity"
  | some boot =>
    ensure (bootValid boot) "Cannot read recovery clock"
    match ← sys .clock with
    | none => throw "Cannot read recovery clock"
    | some now => return (boot, now)

namespace WifiJournal

variable (sha256 : Sha256)

def open_ : Fallible Unit := do
  ensure (← sys .openJournal) "Recovery journal unsafe or busy"

def load : Fallible (Option RecoveryRecord) := do
  match ← sys (.read .journal) with
  | .absent => return none
  | .fault message => throw message
  | .bytes image =>
    match RecoveryRecord.decode sha256 image with
    | .ok record => return some record
    | .error message => throw message

def save (record : RecoveryRecord) : Fallible Unit := do
  ensure record.valid "Invalid recovery record"
  match record.encode sha256 with
  | none => throw "Cannot checksum recovery journal"
  | some image => File.journal.persist image

def begin (record : RecoveryRecord) : Fallible Unit := do
  let previous ← load sha256
  ensure (!previous.any (·.phase == .pending)) "Unresolved recovery transaction exists"
  ensure (record.phase == .pending) "New transaction must be pending"
  save sha256 record

def committable (record : RecoveryRecord) (transaction boot : Bytes) (now : UInt64) : Bool :=
  record.phase == .pending && record.transaction == transaction && record.bootId == boot &&
  now < record.deadlineMs

def commit (transaction boot : Bytes) (now : UInt64) : Fallible Unit := do
  match ← load sha256 with
  | none => throw "Recovery transaction cannot be committed"
  | some record =>
    ensure (committable record transaction boot now) "Recovery transaction cannot be committed"
    save sha256 (record.resolved .committed)

/-- The callback may answer or throw. -/
def restorePending (record : RecoveryRecord) (restore : RecoveryRecord → SysProgram (Option Bool)) :
    Fallible RecoveryOutcome := do
  let restored ← restore record
  ensure (restored == some true) "Recovery failed; pending journal retained"
  save sha256 (record.resolved .restored)
  return .restored

def recoverDue (boot : Bytes) (now : UInt64) (restore : RecoveryRecord → SysProgram (Option Bool)) :
    Fallible RecoveryOutcome := do
  ensure (bootValid boot) "Invalid current boot identity"
  match ← load sha256 with
  | none => return .nothing
  | some record =>
    if record.phase ≠ .pending then return .nothing
    else if record.bootId = boot ∧ now < record.deadlineMs then return .waiting
    else restorePending sha256 record restore

def cancel (transaction boot : Bytes) (restore : RecoveryRecord → SysProgram (Option Bool)) :
    Fallible RecoveryOutcome := do
  ensure (hexString transaction 32 && bootValid boot) "Invalid cancellation identity"
  match ← load sha256 with
  | none => throw "Recovery transaction cannot be cancelled"
  | some record =>
    ensure (record.transaction == transaction && record.bootId == boot &&
      record.phase != .committed) "Recovery transaction cannot be cancelled"
    if record.phase = .restored then return .nothing
    else restorePending sha256 record restore

/-! ## What the parts do -/

section
variable {sha256} {K : World → Prop} {w : World}

theorem load_spec {Q : Except String (Option RecoveryRecord) → World → Prop} (hK : K w)
    (hfail : ∀ e, Q (.error e) w) (hnone : w.file .journal = none → Q (.ok none) w)
    (hsome : ∀ record, w.record? sha256 = some record → Q (.ok (some record)) w) :
    wp (sysEnv sha256) Q K (load sha256).run w := by
  unfold load
  rw [wp_run_ask]
  refine ⟨hK, fun contents w' h => ?_⟩
  cases contents with
  | absent =>
    obtain ⟨rfl, hf⟩ := h
    exact ⟨hK, hnone hf⟩
  | fault message =>
    subst h
    exact ⟨hK, hfail _⟩
  | bytes image =>
    obtain ⟨rfl, hf⟩ := h
    cases hd : RecoveryRecord.decode sha256 image with
    | error message =>
      simp only [hd]
      exact ⟨hK, hfail _⟩
    | ok record =>
      simp only [hd]
      refine ⟨hK, hsome record ?_⟩
      rw [World.record?, hf]
      exact RecoveryRecord.ofFile_of_decode hd

theorem save_spec {env : Env World SysCall SysCall.Reply} {Q : Except String Unit → World → Prop}
    (henv : ∀ w c r w', env w c r w' → sysEnv sha256 w c r w') (record : RecoveryRecord)
    (hK : ∀ s, K (w.stage s)) (hfail : ∀ s e, Q (.error e) (w.stage s))
    (hdone : ∀ s image, record.valid = true → RecoveryRecord.decode sha256 image = .ok record →
      K ((w.stage s).recorded record image) ∧ Q (.ok ()) ((w.stage s).recorded record image) ∧
      ∀ w', env ((w.stage s).recorded record image) (.syncDirectory .journal) false w' →
        Q (.error File.journal.uncertain) ((w.stage s).recorded record image)) :
    wp env Q K (save sha256 record).run w := by
  unfold save
  rw [wp_run_ensure]
  split
  swap
  · exact ⟨hK w.staged, hfail w.staged _⟩
  rename_i hv
  cases he : record.encode sha256 with
  | none => exact ⟨hK w.staged, hfail w.staged _⟩
  | some image =>
    have hd := RecoveryRecord.decode_encode hv he
    refine persist_spec henv .journal image hK hfail fun s hs => ?_
    have hrenamed : (w.stage s).renamed sha256 .journal = (w.stage s).recorded record image := by
      show (match RecoveryRecord.decode sha256 (s .journal) with
        | .ok record => (w.stage s).recorded record (s .journal)
        | .error _ => (w.stage s).replaced .journal (some (s .journal))) = _
      rw [hs, hd]
    rw [hrenamed]
    exact hdone s image hv hd

end

/-! ## The journal on disk -/

theorem save_writes {sha256 : Sha256} {record : RecoveryRecord} {w w' : World}
    (hr : Runs (sysEnv sha256) (save sha256 record).run w (.ok ()) w') :
    record.valid = true ∧ ∃ image, w'.file .journal = some image ∧
      RecoveryRecord.decode sha256 image = .ok record := by
  have hspec : wp (sysEnv sha256)
      (fun r w' => r = .ok () → record.valid = true ∧ ∃ image, w'.file .journal = some image ∧
        RecoveryRecord.decode sha256 image = .ok record)
      (fun _ => True) (save sha256 record).run w := by
    refine save_spec (fun _ _ _ _ => id) record (fun _ => trivial) (fun _ _ he => by cases he) ?_
    intro s image hv hd
    refine ⟨trivial, fun _ => ⟨hv, image, ?_, hd⟩, fun _ _ he => by cases he⟩
    simp [World.recorded]
  exact runs_of_wp hspec hr rfl

theorem load_reads {sha256 : Sha256} {record : RecoveryRecord} {w w' : World}
    (hr : Runs (sysEnv sha256) (load sha256).run w (.ok (some record)) w') :
    ∃ image, w.file .journal = some image ∧ RecoveryRecord.decode sha256 image = .ok record := by
  have hspec : wp (sysEnv sha256)
      (fun r _ => ∀ record, r = .ok (some record) → w.record? sha256 = some record)
      (fun _ => True) (load sha256).run w :=
    load_spec trivial (fun _ _ he => by cases he) (fun _ _ he => by cases he)
      fun _ h _ he => by cases he; exact h
  have h := runs_of_wp hspec hr record rfl
  obtain ⟨image, hfile, hd⟩ := Option.bind_eq_some_iff.mp h
  refine ⟨image, hfile, ?_⟩
  cases he : RecoveryRecord.decode sha256 image with
  | error e => simp [he, Except.toOption] at hd
  | ok r =>
    simp only [he, Except.toOption, Option.some.injEq] at hd
    rw [hd]

theorem save_works {sha256 : Sha256} {record : RecoveryRecord} {image : Bytes} (w : World)
    (hv : record.valid = true) (he : record.encode sha256 = some image) :
    wp (sysWorking sha256) (fun r w' => r = .ok () ∧ w'.file .journal = some image) (fun _ => True)
      (save sha256 record).run w := by
  unfold save
  rw [wp_run_ensure, if_pos hv, he]
  refine wp_post (persist_works .journal image w) fun r w' _ hr => ⟨hr.1, ?_⟩
  have hdecode := RecoveryRecord.decode_encode hv he
  have hstaged : (w.stage (Function.update w.staged .journal image)).staged .journal = image := by
    simp [World.stage]
  rw [hr.2, World.renamed, hstaged, hdecode]
  simp [World.recorded]

theorem load_works {sha256 : Sha256} {record : RecoveryRecord} {image : Bytes} {w : World}
    (hv : record.valid = true) (he : record.encode sha256 = some image)
    (hfile : w.file .journal = some image) :
    wp (sysWorking sha256) (fun r w' => r = .ok (some record) ∧ w' = w) (fun _ => True)
      (load sha256).run w := by
  unfold load
  rw [wp_run_ask]
  refine ⟨trivial, fun contents w' ⟨h, hworks⟩ => ?_⟩
  cases contents with
  | absent =>
    obtain ⟨rfl, hnone⟩ := h
    rw [hfile] at hnone
    cases hnone
  | fault message => exact absurd rfl (hworks message)
  | bytes found =>
    obtain ⟨rfl, hfound⟩ := h
    obtain rfl : image = found := Option.some.inj (hfile.symm.trans hfound)
    simp only [RecoveryRecord.decode_encode hv he]
    exact ⟨trivial, rfl, rfl⟩

/-- **The journal is exact.** `save` writes and `load` accepts the one spelling of a
valid record, every part that `load` reads lies in the file, and the parts fill it.
Where no call fails a valid record is stored and loaded again. -/
theorem journal_exact (sha256 : Sha256) :
    (∀ record w w', Runs (sysEnv sha256) (save sha256 record).run w (.ok ()) w' →
      record.valid = true ∧ ∃ image, w'.file .journal = some image ∧
        record.encode sha256 = some image ∧ RecoveryRecord.decode sha256 image = .ok record) ∧
    (∀ record w w', Runs (sysEnv sha256) (load sha256).run w (.ok (some record)) w' →
      record.valid = true ∧ ∃ image, w.file .journal = some image ∧
        record.encode sha256 = some image) ∧
    (∀ record image, RecoveryRecord.decode sha256 image = .ok record ↔
      record.valid = true ∧ record.encode sha256 = some image) ∧
    (∀ image : Bytes, RecoveryRecord.header + RecoveryRecord.digestSize ≤ image.length →
      RecoveryRecord.Inside image ∧
      image.take 8 ++ [image.getD 8 0] ++ [image.getD 9 0] ++ slice image 10 32 ++
        slice image 42 36 ++ slice image 78 8 ++ slice image 86 4 ++
        slice image RecoveryRecord.header
          (image.length - RecoveryRecord.header - RecoveryRecord.digestSize) ++
        image.drop (image.length - RecoveryRecord.digestSize) = image) ∧
    ∀ record image w, record.valid = true → record.encode sha256 = some image →
      ((∃ r w', Runs (sysWorking sha256) (save sha256 record).run w r w') ∧
        ∀ r w', Runs (sysWorking sha256) (save sha256 record).run w r w' →
          r = .ok () ∧ w'.file .journal = some image) ∧
      (w.file .journal = some image →
        (∃ r w', Runs (sysWorking sha256) (load sha256).run w r w') ∧
        ∀ r w', Runs (sysWorking sha256) (load sha256).run w r w' → r = .ok (some record) ∧ w' = w) := by
  refine ⟨?_, ?_, ?_, ?_, ?_⟩
  · intro record w w' hr
    obtain ⟨hv, image, hfile, hd⟩ := save_writes hr
    exact ⟨hv, image, hfile, RecoveryRecord.encode_decode hd, hd⟩
  · intro record w w' hr
    obtain ⟨image, hfile, hd⟩ := load_reads hr
    exact ⟨RecoveryRecord.valid_of_decode hd, image, hfile, RecoveryRecord.encode_decode hd⟩
  · intro record image
    constructor
    · intro hd
      exact ⟨RecoveryRecord.valid_of_decode hd, RecoveryRecord.encode_decode hd⟩
    · rintro ⟨hv, he⟩
      exact RecoveryRecord.decode_encode hv he
  · intro image hlen
    exact ⟨RecoveryRecord.inside_of_length hlen, RecoveryRecord.parts_tile hlen⟩
  · intro record image w hv he
    have htotal (p : SysProgram (Except String Unit)) :=
      exists_runs (fun w c (_ : True) => sysWorking_total sha256 w c) w (uses_true p)
    refine ⟨⟨htotal _, fun r w' hr => ?_⟩, fun hfile => ⟨?_, fun r w' hr => ?_⟩⟩
    · have hsaved := runs_of_wp (save_works w hv he) hr
      exact hsaved
    · exact exists_runs (fun w c (_ : True) => sysWorking_total sha256 w c) w (uses_true _)
    · have hloaded := runs_of_wp (load_works hv he hfile) hr
      exact hloaded

def sampleRecord : RecoveryRecord where
  previousExists := true
  transaction := List.replicate 32 (byte '0')
  bootId := bytes "00000000-0000-0000-0000-000000000000"
  deadlineMs := 0xffffffffffffffff
  previous := [0]

/-- The record is saved where no file was and loaded again. -/
theorem journal_exact_sample : ∃ w, Runs (sysWorking zeroSha) (save zeroSha sampleRecord).run .noFiles
      (.ok ()) w ∧
    w.file .journal = some (sampleRecord.body ++ List.replicate 32 0) ∧
    Runs (sysWorking zeroSha) (load zeroSha).run w (.ok (some sampleRecord)) w := by
  have hvalid : sampleRecord.valid = true := by decide
  have hsave := journal_exact zeroSha
  obtain ⟨⟨⟨r, w, hr⟩, hsaved⟩, -⟩ := hsave.2.2.2.2 sampleRecord _ .noFiles hvalid rfl
  obtain ⟨rfl, hfile⟩ := hsaved r w hr
  obtain ⟨-, hload⟩ := hsave.2.2.2.2 sampleRecord _ w hvalid rfl
  obtain ⟨⟨r, w', hr'⟩, hloaded⟩ := hload hfile
  obtain ⟨rfl, rfl⟩ := hloaded r w' hr'
  exact ⟨w', hr, hfile, hr'⟩

end WifiJournal

end EncoderNext
