import EncoderNext.Program
import EncoderNext.RecoveryRecord
import EncoderNext.WifiChange

/-!
# The surroundings of the recovery code

Two files matter: the journal and the managed Netplan file. A program sees them
through calls any of which may fail; a rename takes effect at once, a failed
call leaves both as they are. Platform callbacks, clock readings and random
bytes are arbitrary. The world also keeps what an observer needs to say what a
transaction was asked for and what it found.
-/

namespace EncoderNext

open Program

inductive File where
  | journal | netplan
  deriving DecidableEq

inductive Contents where
  | absent
  | bytes (b : Bytes)
  | fault (message : String)

inductive SysCall where
  | openJournal
  | openNetplan
  | read (f : File)
  | create (f : File)
  | write (f : File) (b : Bytes)
  | rename (f : File)
  | unlink (f : File)
  | syncDirectory (f : File)
  | bootId
  | clock
  | transactionId
  | ethernetReady
  | preflight (p : WifiProfile)
  | watchdogReady
  | applyTarget (p : WifiProfile)
  | probeTarget (p : WifiProfile)
  | restoreNetwork
  | callback (r : RecoveryRecord)
  | ticketBytes
  | steadyClock

namespace SysCall

@[reducible] def Reply : SysCall → Type
  | read _ => Contents
  | bootId => Option Bytes
  | clock => Option UInt64
  | transactionId => Option (Vector UInt8 16)
  | ticketBytes => Option (Vector UInt8 32)
  | probeTarget _ => WifiLink
  | steadyClock => Int
  -- a callback may throw
  | callback _ => Option Bool
  | _ => Bool

end SysCall

abbrev SysProgram := Program SysCall SysCall.Reply

/-- A program that ends with a value or the error text it sets. -/
abbrev Fallible := ExceptT String SysProgram

abbrev sys (c : SysCall) : SysProgram c.Reply := ask c

/-! ## The world -/

structure Request where
  profile : WifiProfile
  original : Option Bytes

/-- What an observer notes when the journal is replaced. -/
structure Mark where
  record : RecoveryRecord
  managed : Option Bytes
  request : Option Request
  boot : Option Bytes
  time : Option UInt64

structure World where
  file : File → Option Bytes
  staged : File → Bytes
  callbacks : List (RecoveryRecord × Option Bool) := []
  boot : Option Bytes := none
  time : Option UInt64 := none
  asked : Option WifiProfile := none
  request : Option Request := none
  marks : List Mark := []

namespace World

def record? (sha256 : Sha256) (w : World) : Option RecoveryRecord :=
  RecoveryRecord.ofFile sha256 (w.file .journal)

def requested (w : World) (record : RecoveryRecord) : Option Request :=
  if record.phase = .pending then w.asked.map fun p => ⟨p, w.file .netplan⟩ else w.request

def recorded (w : World) (record : RecoveryRecord) (image : Bytes) : World :=
  { w with
    file := Function.update w.file .journal (some image)
    request := w.requested record
    marks := w.marks ++ [⟨record, w.file .netplan, w.requested record, w.boot, w.time⟩] }

def replaced (w : World) (f : File) (b : Option Bytes) : World :=
  { w with file := Function.update w.file f b }

def renamed (sha256 : Sha256) (w : World) : File → World
  | .netplan => w.replaced .netplan (some (w.staged .netplan))
  | .journal =>
    match RecoveryRecord.decode sha256 (w.staged .journal) with
    | .ok record => w.recorded record (w.staged .journal)
    | .error _ => w.replaced .journal (some (w.staged .journal))

/-- The same world with other bytes in its temporary files, which nothing reads. -/
def stage (w : World) (s : File → Bytes) : World := { w with staged := s }

end World

def sysEnv (sha256 : Sha256) : Env World SysCall SysCall.Reply
  | w, .read f, .absent, w' => w' = w ∧ w.file f = none
  | w, .read f, .bytes b, w' => w' = w ∧ w.file f = some b
  | w, .write f b, true, w' => w' = w.stage (Function.update w.staged f b)
  | w, .rename f, true, w' => w' = w.renamed sha256 f
  | w, .unlink f, true, w' => w' = w.replaced f none
  | w, .bootId, r, w' => w' = { w with boot := r }
  | w, .clock, r, w' => w' = { w with time := r }
  | w, .callback x, r, w' => w' = { w with callbacks := w.callbacks ++ [(x, r)] }
  | w, _, _, w' => w' = w

def SysCall.Works : (c : SysCall) → c.Reply → Prop
  | .read _, contents => ∀ message, contents ≠ .fault message
  | .create _, ok | .write .., ok | .rename _, ok | .unlink _, ok | .syncDirectory _, ok => ok = true
  | _, _ => True

def sysWorking (sha256 : Sha256) : Env World SysCall SysCall.Reply :=
  fun w c r w' => sysEnv sha256 w c r w' ∧ c.Works r

section
variable {sha256 : Sha256} {w : World}

@[simp] theorem World.record?_stage (s : File → Bytes) :
    (w.stage s).record? sha256 = w.record? sha256 := rfl

@[simp] theorem World.record?_replaced_netplan (b : Option Bytes) :
    (w.replaced .netplan b).record? sha256 = w.record? sha256 := by
  simp [record?, replaced]

@[simp] theorem World.record?_recorded (record : RecoveryRecord) (image : Bytes) :
    (w.recorded record image).record? sha256 = RecoveryRecord.ofFile sha256 (some image) := by
  simp [record?, recorded]

end

def World.noFiles : World := { file := fun _ => none, staged := fun _ => [] }

def zeroBoot : Bytes := bytes "00000000-0000-0000-0000-000000000000"

def World.freshId (sha256 : Sha256) (w : World) : Vector UInt8 16 :=
  if (w.record? sha256).any (·.transaction == toHex (List.replicate 16 0)) then .replicate 16 1
  else .replicate 16 0

theorem World.freshId_ne {sha256 : Sha256} {w : World} {record : RecoveryRecord}
    (h : w.record? sha256 = some record) : record.transaction ≠ toHex (w.freshId sha256).toList := by
  unfold freshId
  rw [h]
  by_cases hzero : record.transaction = toHex (List.replicate 16 0)
  · rw [if_pos (by simp [hzero]), hzero]
    decide
  · rw [if_neg (by simpa using hzero)]
    exact hzero

/-- Surroundings where all goes well but the syncs that `synced` refuses. -/
def World.answer (sha256 : Sha256) (synced : World → Bool) (boot : Bytes) (now : UInt64)
    (w : World) : (c : SysCall) → c.Reply × World
  | .read f => (match w.file f with | some b => .bytes b | none => .absent, w)
  | .write f b => (true, w.stage (Function.update w.staged f b))
  | .rename f => (true, w.renamed sha256 f)
  | .unlink f => (true, w.replaced f none)
  | .syncDirectory _ => (synced w, w)
  | .bootId => (some boot, { w with boot := some boot })
  | .clock => (some now, { w with time := some now })
  | .transactionId => (some (w.freshId sha256), w)
  | .ticketBytes => (some (Vector.replicate 32 0), w)
  | .probeTarget _ => (.ready, w)
  | .steadyClock => ((0 : Int), w)
  | .callback x => (some true, { w with callbacks := w.callbacks ++ [(x, some true)] })
  | .openJournal | .openNetplan | .create _ | .ethernetReady | .preflight _ | .watchdogReady
  | .applyTarget _ | .restoreNetwork => (true, w)

theorem World.env_answer (sha256 : Sha256) (synced : World → Bool) (boot : Bytes) (now : UInt64)
    (w : World) (c : SysCall) : sysEnv sha256 w c (w.answer sha256 synced boot now c).1
      (w.answer sha256 synced boot now c).2 := by
  cases c with
  | read f =>
    cases hf : w.file f with
    | none => simp [answer, sysEnv, hf]
    | some b => simp [answer, sysEnv, hf]
  | _ => simp [answer, sysEnv]

theorem sysWorking_total (sha256 : Sha256) (w : World) (c : SysCall) :
    ∃ r w', sysWorking sha256 w c r w' := by
  refine ⟨_, _, World.env_answer sha256 (fun _ => true) zeroBoot 0 w c, ?_⟩
  cases c with
  | read f => cases hf : w.file f <;> simp [World.answer, SysCall.Works, hf]
  | _ => simp [World.answer, SysCall.Works]

/-! ## Replacing a file -/

namespace File

def cannotCreate : File → String
  | journal => "Cannot create recovery journal"
  | netplan => "Cannot create managed Wi-Fi temporary file"

def cannotPersist : File → String
  | journal => "Cannot persist recovery journal"
  | netplan => "Cannot persist managed Wi-Fi configuration"

def uncertain : File → String
  | journal => "Recovery journal durability uncertain"
  | netplan => "Wi-Fi configuration durability uncertain"

/-- A new file under another name, written and synced, renamed over the old
one; then the directory is synced. -/
def persist (f : File) (b : Bytes) : Fallible Unit := do
  ensure (← sys (.create f)) f.cannotCreate
  ensure (← sys (.write f b)) f.cannotPersist
  ensure (← sys (.rename f)) f.cannotPersist
  ensure (← sys (.syncDirectory f)) f.uncertain

end File

/-! ## What replacing a file does -/

section
variable {sha256 : Sha256} {env : Env World SysCall SysCall.Reply} {K : World → Prop}
  {Q : Except String Unit → World → Prop} {w : World}

/-- Up to the rename the old file stands; after it the new one does, and only a
failing sync of the directory is an error then. -/
theorem persist_spec (henv : ∀ w c r w', env w c r w' → sysEnv sha256 w c r w') (f : File)
    (b : Bytes) (hK : ∀ s, K (w.stage s)) (hfail : ∀ s e, Q (.error e) (w.stage s))
    (hdone : ∀ s, s f = b → K ((w.stage s).renamed sha256 f) ∧
      Q (.ok ()) ((w.stage s).renamed sha256 f) ∧
      ∀ w', env ((w.stage s).renamed sha256 f) (.syncDirectory f) false w' →
        Q (.error f.uncertain) ((w.stage s).renamed sha256 f)) :
    wp env Q K (f.persist b).run w := by
  have hK₀ := hK w.staged
  have hfail₀ := hfail w.staged
  unfold File.persist
  rw [wp_run_ask]
  refine ⟨hK₀, fun created w₁ h₁ => ?_⟩
  have h₁' := henv _ _ _ _ h₁
  subst h₁'
  rw [wp_run_ensure]
  split
  swap
  · exact ⟨hK₀, hfail₀ _⟩
  rw [wp_run_ask]
  refine ⟨hK₀, fun written w₂ h₂ => ?_⟩
  have h₂' := henv _ _ _ _ h₂
  rw [wp_run_ensure]
  cases written with
  | false =>
    subst h₂'
    exact ⟨hK₀, hfail₀ _⟩
  | true =>
    subst h₂'
    rw [if_pos rfl, wp_run_ask]
    refine ⟨hK _, fun renamed w₃ h₃ => ?_⟩
    have h₃' := henv _ _ _ _ h₃
    rw [wp_run_ensure]
    cases renamed with
    | false =>
      subst h₃'
      exact ⟨hK _, hfail _ _⟩
    | true =>
      subst h₃'
      -- from the rename on the new file stands
      obtain ⟨hk, hok, herr⟩ := hdone (Function.update w₁.staged f b) (by simp)
      rw [if_pos rfl, wp_run_ask]
      refine ⟨hk, fun synced w₄ h₄ => ?_⟩
      have h₄' := henv _ _ _ _ h₄
      subst h₄'
      cases synced with
      | false => exact ⟨hk, herr _ h₄⟩
      | true => exact ⟨hk, hok⟩

theorem persist_works (f : File) (b : Bytes) (w : World) :
    wp (sysWorking sha256) (fun r w' => r = .ok () ∧
        w' = (w.stage (Function.update w.staged f b)).renamed sha256 f) (fun _ => True)
      (f.persist b).run w := by
  unfold File.persist
  rw [wp_run_ask]
  refine ⟨trivial, fun created w₁ ⟨h₁, hcreated⟩ => ?_⟩
  cases hcreated
  obtain rfl : w₁ = w := h₁
  rw [wp_run_ensure, if_pos rfl, wp_run_ask]
  refine ⟨trivial, fun written w₂ ⟨h₂, hwritten⟩ => ?_⟩
  cases hwritten
  obtain rfl : w₂ = w₁.stage (Function.update w₁.staged f b) := h₂
  rw [wp_run_ensure, if_pos rfl, wp_run_ask]
  refine ⟨trivial, fun renamed w₃ ⟨h₃, hrenamed⟩ => ?_⟩
  cases hrenamed
  obtain rfl : w₃ = (w₁.stage (Function.update w₁.staged f b)).renamed sha256 f := h₃
  rw [wp_run_ensure, if_pos rfl, wp_run_ask]
  refine ⟨trivial, fun synced w₄ ⟨h₄, hsynced⟩ => ?_⟩
  cases hsynced
  exact ⟨trivial, rfl, h₄⟩

end

end EncoderNext
