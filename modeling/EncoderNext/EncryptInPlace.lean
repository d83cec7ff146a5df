import EncoderNext.ClientFiles

/-!
# What a failed encryption leaves of a file

The one write of the file empties it first. Where the write cannot be finished,
the file holds what reached it of the encrypted one.
-/

namespace EncoderNext

open Program Program.Stateful

abbrev ClientEvent : Type := Sigma ClientCall.Reply

structure Disk where
  content : Bytes → Option Bytes
  log : List ClientEvent := []

namespace ClientCore

def clientLog : Bytes := bytes "client.log"

def logLine (t : Int) (message : Bytes) : Bytes := decimalInt t ++ byte ' ' :: message ++ [lf]

/-- What a call may do to the files, where `real` says to which file a name leads. -/
def Effect (real : Bytes → Bytes) (files : Bytes → Option Bytes) :
    (c : ClientCall) → c.Reply → (Bytes → Option Bytes) → Prop
  | .readFile path, r, files' => files' = files ∧ (r = none ∨ r = files (real path))
  | .writeFile _ _, .unopened, files' => files' = files
  | .writeFile path data, .failed kept, files' | .writeFile path data, .written kept, files' =>
    kept <+: data ∧ files' = Function.update files (real path) (some kept)
  | .remove path, _, files' => files' = files ∨ files' = Function.update files (real path) none
  | .logError _, none, files' => files' = files
  | .logError message, some kept, files' => (∃ t, kept <+: logLine t message) ∧
    files' = Function.update files (real clientLog) (some ((files (real clientLog)).getD [] ++ kept))
  | .netInit, _, files' | .connect .., _, files' | .tlsInit, _, files' | .tlsConnect _, _, files'
  | .sendHeader _, _, files' | .sendData _, _, files' | .readHeader _, _, files'
  | .resize _, _, files' | .receive _, _, files' => files' = files

def disk (real : Bytes → Bytes) : Env Disk ClientCall ClientCall.Reply := fun w c r u =>
  Effect real w.content c r u.content ∧ u.log = w.log ++ [⟨c, r⟩]

def failedWrite (path data kept : Bytes) : ClientEvent := ⟨.writeFile path data, .failed kept⟩

/-! ## Calls that spare the files -/

def Sparing : ClientCall → Prop
  | .writeFile .. | .remove _ => False
  | _ => True

section
variable {α : Type} (line message : Bytes)

theorem logAndFail_sparing : UsesS Sparing (logAndFail line message : ClientProgram α) :=
  usesS_bind (usesS_perform trivial) fun _ => usesS_throw _

theorem orLog_sparing (b : Bool) : UsesS Sparing (orLog b line message) := by
  cases b with
  | true => exact usesS_pure ()
  | false => exact logAndFail_sparing line message

theorem connected_sparing (r : Except Bytes Unit) : UsesS Sparing (connected r line message) := by
  cases r with
  | ok _ => exact usesS_pure ()
  | error e => exact logAndFail_sparing _ _

theorem logging_sparing {x : ClientProgram α} (h : UsesS Sparing x) : UsesS Sparing (logging line x) := by
  refine usesS_catch h fun e => ?_
  cases e with
  | failed message => exact logAndFail_sparing line message
  | thrown => exact usesS_throw _

theorem decodeField_sparing (text former : Bytes) :
    UsesS Sparing (decodeField text former message) := by
  unfold decodeField
  by_cases h : text = []
  · simp only [h, if_true]
    exact usesS_pure former
  · simp only [h, if_false]
    cases Server.decoded text with
    | some b => exact usesS_pure b
    | none => exact usesS_throw _

end

theorem openConnection_sparing (e : Endpoint) : UsesS Sparing (openConnection e) := by
  refine usesS_bind (usesS_perform trivial) fun ready => usesS_bind (orLog_sparing _ _ _) fun _ => ?_
  refine usesS_bind (usesS_perform trivial) fun r => usesS_bind (connected_sparing _ _ r) fun _ => ?_
  refine usesS_bind (usesS_perform trivial) fun r => usesS_bind (connected_sparing _ _ r) fun _ => ?_
  exact usesS_bind (usesS_perform trivial) fun r => connected_sparing _ _ r

theorem sendPayload_sparing (payload : Bytes) : UsesS Sparing (sendPayload payload) := by
  unfold sendPayload
  by_cases h : payload = []
  · simp only [h, if_true]
    exact usesS_pure ()
  · simp only [h, if_false]
    exact usesS_bind (usesS_perform trivial) fun _ => orLog_sparing _ _ _

theorem receivePayload_sparing (size : Nat) : UsesS Sparing (receivePayload size) := by
  unfold receivePayload
  by_cases h : size = 0
  · simp only [h, if_true]
    exact usesS_pure []
  · simp only [h, if_false]
    refine usesS_bind (usesS_perform trivial) fun room => ?_
    refine usesS_bind (usesS_guardOr (usesS_pure ())) fun _ => ?_
    refine usesS_bind (usesS_perform trivial) fun received => ?_
    cases received with
    | some data => exact usesS_pure _
    | none => exact logAndFail_sparing _ _

theorem sendRequest_sparing (e : Endpoint) (header : Header) (payload : Bytes) :
    UsesS Sparing (sendRequest e header payload) := by
  refine usesS_bind (openConnection_sparing e) fun _ => usesS_bind (usesS_perform trivial) fun sent => ?_
  refine usesS_bind (orLog_sparing _ _ sent) fun _ => ?_
  refine usesS_bind (sendPayload_sparing payload) fun _ => usesS_bind (usesS_perform trivial) fun answer => ?_
  cases answer with
  | none => exact logAndFail_sparing _ _
  | some resp =>
    cases hsize : announced resp with
    | none =>
      simp only [hsize]
      exact usesS_throw _
    | some size =>
      simp only [hsize]
      exact usesS_bind (receivePayload_sparing size) fun _ => usesS_pure _

theorem requestEncryption_sparing (e : Endpoint) (q : EncryptJob) (former : EncryptResult)
    (data : Bytes) : UsesS Sparing (requestEncryption e q former data) := by
  refine usesS_bind (logging_sparing _ (sendRequest_sparing e _ data)) fun r => ?_
  refine usesS_bind (orLog_sparing _ _ _) fun _ => usesS_bind (decodeField_sparing _ _ _) fun key => ?_
  refine usesS_bind (decodeField_sparing _ _ _) fun iv => ?_
  exact usesS_bind (decodeField_sparing _ _ _) fun tag => usesS_pure _

/-! ## What the file holds -/

section
variable (real : Bytes → Bytes) (path : Bytes) (before : Option Bytes)

/-- What a line of the log adds to this file, where the file is the log and could be opened. -/
def logged : ClientEvent → Option Bytes
  | ⟨.logError _, kept⟩ => if real path = real clientLog then kept else none
  | _ => none

def withLines (log : List ClientEvent) : Option Bytes :=
  (log.filterMap (logged real path)).foldl (fun content kept => some (content.getD [] ++ kept)) before

/-- The file is as it was: a write that failed and the lines of the log behind it came to the old
content, or no write failed and the lines of the log added nothing. -/
structure Spared (log : List ClientEvent) : Prop where
  failed (l after : List ClientEvent) (data kept : Bytes) :
    log = l ++ failedWrite path data kept :: after →
      before = some (kept ++ (after.filterMap (logged real path)).flatten)
  unfailed : (∀ data kept, failedWrite path data kept ∉ log) →
    ∀ kept ∈ log.filterMap (logged real path), kept = [] ∧ before ≠ none

variable {real path before}

theorem withLines_some (b : Bytes) (log : List ClientEvent) :
    withLines real path (some b) log = some (b ++ (log.filterMap (logged real path)).flatten) := by
  unfold withLines
  generalize log.filterMap (logged real path) = kepts
  induction kepts generalizing b with
  | nil => simp
  | cons kept kepts ih => simpa using ih (b ++ kept)

theorem withLines_snoc (log : List ClientEvent) (e : ClientEvent) :
    withLines real path before (log ++ [e]) =
      match logged real path e with
      | none => withLines real path before log
      | some kept => some ((withLines real path before log).getD [] ++ kept) := by
  unfold withLines
  rw [List.filterMap_append, List.foldl_append]
  cases hkept : logged real path e <;> simp [hkept]

theorem withLines_eq_iff (log : List ClientEvent) : withLines real path before log = before ↔
    ∀ kept ∈ log.filterMap (logged real path), kept = [] ∧ before ≠ none := by
  cases before with
  | some b => simp [withLines_some]
  | none =>
    unfold withLines
    cases log.filterMap (logged real path) with
    | nil => simp
    | cons kept kepts =>
      have hsome (b : Bytes) : kepts.foldl (fun content kept => some (content.getD [] ++ kept)) (some b) ≠
          none := by
        induction kepts generalizing b with
        | nil => simp
        | cons kept kepts ih => exact ih (b ++ kept)
      exact iff_of_false (hsome kept) fun h => (h kept List.mem_cons_self).2 rfl

end

section
variable {real : Bytes → Bytes} {path : Bytes} {before : Option Bytes} {w u : Disk}

structure Untouched (real : Bytes → Bytes) (path : Bytes) (before : Option Bytes) (w : Disk) : Prop where
  content : w.content (real path) = withLines real path before w.log
  log (data kept : Bytes) : failedWrite path data kept ∉ w.log

structure Spoilt (real : Bytes → Bytes) (path : Bytes) (l after : List ClientEvent) (data kept : Bytes)
    (w : Disk) : Prop where
  log : w.log = l ++ failedWrite path data kept :: after
  content : w.content (real path) = withLines real path (some kept) after
  earlier (data kept : Bytes) : failedWrite path data kept ∉ l
  later (data kept : Bytes) : failedWrite path data kept ∉ after

theorem content_sparing {c : ClientCall} {r : c.Reply} (hc : Sparing c) (h : disk real w c r u) :
    u.content (real path) =
      match logged real path ⟨c, r⟩ with
      | none => w.content (real path)
      | some kept => some ((w.content (real path)).getD [] ++ kept) := by
  have heffect := h.1
  cases c with
  | writeFile _ _ => exact hc.elim
  | remove _ => exact hc.elim
  | readFile _ => exact congrFun heffect.1 _
  | logError message =>
    cases r with
    | none =>
      have hsame : u.content = w.content := heffect
      simp [logged, hsame]
    | some kept =>
      rw [heffect.2]
      by_cases hlog : real path = real clientLog
      · simp [logged, hlog]
      · simp [logged, hlog, Function.update_of_ne]
  | _ => exact congrFun heffect _

theorem failedWrite_ne {c : ClientCall} (hc : Sparing c) (r : c.Reply) (data kept : Bytes) :
    failedWrite path data kept ≠ ⟨c, r⟩ := by
  intro he
  cases congrArg Sigma.fst he
  exact hc

theorem untouched_sparing {c : ClientCall} {r : c.Reply} (hc : Sparing c)
    (hw : Untouched real path before w) (h : disk real w c r u) : Untouched real path before u where
  content := by rw [content_sparing hc h, h.2, withLines_snoc, hw.content]
  log data kept hmem := by
    rw [h.2, List.mem_append, List.mem_singleton] at hmem
    rcases hmem with hmem | hmem
    · exact hw.log data kept hmem
    · exact failedWrite_ne hc r data kept hmem

theorem spoilt_sparing {l after : List ClientEvent} {data kept : Bytes} {c : ClientCall} {r : c.Reply}
    (hc : Sparing c) (hw : Spoilt real path l after data kept w) (h : disk real w c r u) :
    Spoilt real path l (after ++ [⟨c, r⟩]) data kept u where
  log := by rw [h.2, hw.log, List.append_assoc, List.cons_append]
  content := by rw [content_sparing hc h, withLines_snoc, hw.content]
  earlier := hw.earlier
  later data' kept' hmem := by
    rw [List.mem_append, List.mem_singleton] at hmem
    rcases hmem with hmem | hmem
    · exact hw.later data' kept' hmem
    · exact failedWrite_ne hc r data' kept' hmem

theorem untouched_unopened {data : Bytes} (hw : Untouched real path before w)
    (h : disk real w (.writeFile path data) .unopened u) : Untouched real path before u where
  content := by
    have heffect : u.content = w.content := h.1
    rw [heffect, h.2, withLines_snoc]
    exact hw.content
  log data' kept hmem := by
    rw [h.2] at hmem
    have hmem : failedWrite path data' kept ∈ w.log := by simpa [failedWrite] using hmem
    exact hw.log data' kept hmem

theorem spoilt_failed {data kept : Bytes} (hw : Untouched real path before w)
    (h : disk real w (.writeFile path data) (.failed kept) u) :
    Spoilt real path w.log [] data kept u where
  log := h.2
  content := by
    rw [h.1.2]
    exact Function.update_self ..
  earlier := hw.log
  later _ _ := List.not_mem_nil

theorem spared_of_untouched (hw : Untouched real path before w) :
    w.content (real path) = before ↔ Spared real path before w.log := by
  rw [hw.content, withLines_eq_iff]
  constructor
  · intro h
    refine ⟨fun l after data kept hsplit => absurd ?_ (hw.log data kept), fun _ => h⟩
    rw [hsplit]
    exact List.mem_append_cons_self
  · exact fun h => h.unfailed hw.log

theorem spared_of_spoilt {l after : List ClientEvent} {data kept : Bytes}
    (hw : Spoilt real path l after data kept w) :
    w.content (real path) = before ↔ Spared real path before w.log := by
  rw [hw.content, withLines_some]
  constructor
  · intro h
    refine ⟨fun l' after' data' kept' hsplit => ?_, fun hnone => absurd ?_ (hnone data kept)⟩
    · -- No other entry of the log is a failed write.
      rw [hw.log] at hsplit
      obtain ⟨-, hsame, rfl⟩ :=
        (List.append_cons_inj_of_notMem (hw.earlier data' kept') (hw.later data' kept')).mp hsplit
      obtain ⟨-, rfl⟩ : data = data' ∧ kept = kept' := by simpa [failedWrite] using hsame
      exact h.symm
    · rw [hw.log]
      exact List.mem_append_cons_self
  · exact fun h => (h.failed l after data kept hw.log).symm

def Left (real : Bytes → Bytes) (path : Bytes) (before : Option Bytes) (w : Disk) : Prop :=
  Untouched real path before w ∨ ∃ l after data kept, Spoilt real path l after data kept w

theorem logAndFail_left {α : Type} {Q : α → Unit → Disk → Prop} (line message : Bytes)
    (hw : Left real path before w) :
    wpS (disk real) Q (fun _ _ u => Left real path before u) (fun _ => True)
      (logAndFail line message) () w := by
  unfold logAndFail
  rw [wpS_perform_bind]
  refine ⟨trivial, fun shown u h => ⟨trivial, ?_⟩⟩
  rcases hw with hw | ⟨l, after, data, kept, hw⟩
  · exact .inl (untouched_sparing (c := .logError line) trivial hw h)
  · exact .inr ⟨l, _, data, kept, spoilt_sparing (c := .logError line) trivial hw h⟩

theorem writeEmbeddedFile_left {q : EncryptJob} (it : Iteration) (r : EncryptResult) (data : Bytes)
    (hpath : q.filePath = path) (hw : Untouched real path before w) :
    wpS (disk real) (fun _ _ _ => True) (fun _ _ u => Left real path before u) (fun _ => True)
      (writeEmbeddedFile it q r data) () w := by
  unfold writeEmbeddedFile
  by_cases hkey : q.keyStorage = bytes "client" ∧ r.key = []
  · simp only [hkey, and_self, if_true]
    exact logAndFail_left _ _ (.inl hw)
  · simp only [hkey, if_false]
    rw [wpS_perform_bind, hpath]
    refine ⟨trivial, fun outcome u h => ?_⟩
    cases outcome with
    | unopened => exact logAndFail_left _ _ (.inl (untouched_unopened hw h))
    | failed kept => exact logAndFail_left _ _ (.inr ⟨_, _, _, _, spoilt_failed hw h⟩)
    | written kept => exact ⟨trivial, trivial⟩

theorem encryptFile_left {q : EncryptJob} (it : Iteration) (e : Endpoint) (former : EncryptResult)
    (hpath : q.filePath = path) (hw : Untouched real path before w) :
    wpS (disk real) (fun _ _ _ => True) (fun _ _ u => Left real path before u) (fun _ => True)
      (encryptFile it e q former) () w := by
  have hspare {α : Type} {x : ClientProgram α} (hx : UsesS Sparing x) {w : Disk}
      (hw : Untouched real path before w) : wpS (disk real) (fun _ _ u => Untouched real path before u)
        (fun _ _ u => Left real path before u) (fun _ => True) x () w :=
    wpS_mono (wpS_of_uses (fun _ _ _ _ hc hw he => untouched_sparing hc hw he) hx hw)
      (fun _ _ _ _ => id) (fun _ _ _ _ hu => .inl hu) fun _ _ => trivial
  unfold encryptFile
  rw [wpS_perform_bind]
  refine ⟨trivial, fun file u h => ?_⟩
  have hu := untouched_sparing (c := .readFile q.filePath) trivial hw h
  cases file with
  | none => exact logAndFail_left _ _ (.inl hu)
  | some data =>
    dsimp only
    unfold encryptData
    rw [wpS_bind]
    refine wpS_post (hspare (requestEncryption_sparing e q former data) hu) fun r _ u₁ _ h₁ => ?_
    dsimp only
    rw [wpS_bind]
    refine wpS_post (writeEmbeddedFile_left it r.1 r.2 hpath h₁) fun _ _ u₂ _ _ => ?_
    rw [wpS_perform_bind]
    refine ⟨trivial, fun _ u₃ _ => ?_⟩
    rw [wpS_perform_bind]
    exact ⟨trivial, fun _ _ _ => ⟨trivial, trivial⟩⟩

end

/-- **When a failed encryption leaves a file as it was.** A call that returns false leaves the bytes of
the file alone exactly where a write of it that failed after it had opened the file, with the lines of
the log behind it if the file is the log, came to those very bytes, or where no such write was made and
no line of the log reached the file. -/
theorem encrypt_in_place_iff (real : Bytes → Bytes) (it : Iteration) (e : Endpoint) (q : EncryptJob)
    (former : EncryptResult) (files : Bytes → Option Bytes) (message : Bytes) (u : Disk)
    (h : Runs (disk real) ((encryptFile it e q former).go ()) { content := files }
      (.error (.failed message), ()) u) :
    u.content (real q.filePath) = files (real q.filePath) ↔
      Spared real q.filePath (files (real q.filePath)) u.log := by
  have hstart : Untouched real q.filePath (files (real q.filePath)) { content := files } :=
    ⟨rfl, fun _ _ => List.not_mem_nil⟩
  have hspec := encryptFile_left it e former rfl hstart
  unfold wpS at hspec
  have hend := runs_of_wp hspec h
  have hleft : Left real q.filePath (files (real q.filePath)) u := hend
  rcases hleft with hu | ⟨l, after, data, kept, hu⟩
  · exact spared_of_untouched hu
  · exact spared_of_spoilt hu

/-! ## A full disk -/

def notes : Bytes := bytes "notes.txt"

def fileAt (path : Bytes) : Bytes → Option Bytes := fun p => if p = path then some [1, 2, 3] else none

def noteFiles : Bytes → Option Bytes := fileAt notes

/-- The payload is larger than any buffer of a stream. -/
def noteResponse : Header :=
  ((Header.set {} (bytes "status") (bytes "ok")).set (bytes "key_id") (bytes "07")).set
    (bytes "enc_size") (bytes "40000")

def noteAnswer (resp : Header) (opened : Bool) (w : Disk) (c : ClientCall) : c.Reply × Disk :=
  let outcome : WriteOutcome := if opened then .failed [] else .unopened
  let r : c.Reply := match c with
    | .readFile path => w.content path
    | .writeFile .. => outcome
    | .remove _ => ()
    | .logError line => some (logLine 0 line)
    | .netInit | .sendHeader _ | .sendData _ | .resize _ => true
    | .connect .. | .tlsInit | .tlsConnect _ => .ok ()
    | .readHeader _ => some resp
    | .receive n => some (Vector.replicate n 9)
  let content : Bytes → Option Bytes := match c with
    | .writeFile path _ => if opened then Function.update w.content path (some []) else w.content
    | .logError line =>
      Function.update w.content clientLog (some ((w.content clientLog).getD [] ++ logLine 0 line))
    | _ => w.content
  (r, ⟨content, w.log ++ [⟨c, r⟩]⟩)

theorem noteAnswer_disk (resp : Header) (opened : Bool) (w : Disk) (c : ClientCall) :
    disk id w c (noteAnswer resp opened w c).1 (noteAnswer resp opened w c).2 := by
  refine ⟨?_, rfl⟩
  cases c with
  | readFile path => exact ⟨rfl, .inr rfl⟩
  | writeFile path data =>
    cases opened with
    | true => exact ⟨List.nil_prefix, rfl⟩
    | false => exact rfl
  | remove path => exact .inl rfl
  | logError line => exact ⟨⟨0, List.prefix_rfl⟩, rfl⟩
  | _ => exact rfl

def noteRun (path : Bytes) (resp : Header) (opened : Bool) :
    (Except ClientEnding EncryptResult × Unit) × Disk :=
  exec (noteAnswer resp opened)
    ((encryptFile .stored ⟨[], 7443⟩ (jobOf sampleConfig (sampleParams path)) {}).go ())
    { content := fileAt path }

theorem noteRun_runs {path : Bytes} {resp : Header} {opened : Bool} {message : Bytes}
    (h : (noteRun path resp opened).1 = (.error (.failed message), ())) :
    Runs (disk id) ((encryptFile .stored ⟨[], 7443⟩ (jobOf sampleConfig (sampleParams path)) {}).go ())
      { content := fileAt path } (.error (.failed message), ()) (noteRun path resp opened).2 :=
  h ▸ runs_exec (noteAnswer_disk resp opened) _ _

def isFailedWrite : ClientEvent → Bool
  | ⟨.writeFile .., .failed _⟩ => true
  | _ => false

theorem spared_of_calm {real : Bytes → Bytes} {path : Bytes} {before : Option Bytes}
    {log : List ClientEvent} (h : log.any isFailedWrite = false)
    (hlines : log.filterMap (logged real path) = []) : Spared real path before log where
  failed l after data kept hsplit := by
    have hsome : log.any isFailedWrite = true :=
      List.any_eq_true.mpr ⟨failedWrite path data kept, hsplit ▸ List.mem_append_cons_self, rfl⟩
    rw [h] at hsome
    cases hsome
  unfailed _ kept hmem := by simp [hlines] at hmem

/-- A file that cannot be opened stays and one that is emptied does not. The log itself stays where
the failing call writes no line to it, and grows where it does. -/
theorem encrypt_in_place_cases :
    (noteRun notes noteResponse false).2.content notes = noteFiles notes ∧
    ¬ Spared id notes (noteFiles notes) (noteRun notes noteResponse true).2.log ∧
    (noteRun clientLog (noteResponse.set (bytes "key") (bytes "?")) true).2.content clientLog =
      fileAt clientLog clientLog ∧
    ¬ Spared id clientLog (fileAt clientLog clientLog) (noteRun clientLog {} true).2.log := by
  have hiff {path : Bytes} {resp : Header} {opened : Bool} {message : Bytes}
      (h : (noteRun path resp opened).1 = (.error (.failed message), ())) :=
    encrypt_in_place_iff id .stored ⟨[], 7443⟩ (jobOf sampleConfig (sampleParams path)) {} (fileAt path)
      message _ (noteRun_runs h)
  refine ⟨(@hiff notes noteResponse false (bytes "Failed to write encrypted file") rfl).mpr ?_, fun h => ?_,
    (@hiff clientLog (noteResponse.set (bytes "key") (bytes "?")) true (bytes "Invalid key") rfl).mpr ?_,
    fun h => ?_⟩
  · exact spared_of_calm (by decide) (by decide)
  · have hsame := (@hiff notes noteResponse true (bytes "Failed to write encrypted file") rfl).mpr h
    exact absurd hsame (by decide)
  · exact spared_of_calm (by decide) (by decide)
  · have hsame := (@hiff clientLog {} true (bytes "Server error") rfl).mpr h
    exact absurd hsame (by decide)

/-- Where it is opened and no byte can be written, the text is gone and the call returns false. -/
theorem encrypt_in_place_emptied : ∃ message u,
    Runs (disk id) ((encryptFile .stored ⟨[], 7443⟩ (jobOf sampleConfig (sampleParams notes)) {}).go ())
      { content := noteFiles } (.error (.failed message), ()) u ∧ u.content notes ≠ noteFiles notes :=
  ⟨_, _, @noteRun_runs notes noteResponse true _ rfl, by decide⟩

end ClientCore

end EncoderNext
