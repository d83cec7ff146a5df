import EncoderNext.ClientDecrypt
import EncoderNext.Stateful

/-!
# The user's window

Decrypted files are kept in memory, and in temporary files where the user wants it, until they are
encrypted again. A message to the user runs an event loop of its own, in which the clipboard may give
the alarm. Closing the window encrypts what is left and asks for a new password, which may be put off
five times.
-/

namespace EncoderNext

open Program Program.Stateful
open ClientCore (DecryptResult)

structure SealParams where
  username : Bytes
  password : Bytes
  filePath : Bytes
  cipher : Cipher
  hash : HashAlg
  keyStorage : Bytes

inductive WindowWarning where
  | encryptFailed (message : Bytes)
  | decryptFailed (message : Bytes)
  | cleanupFailed | violation | reminderUnreadable | reminderUnsaved
  | passwordEmpty | passwordSame | passwordsDiffer
  | changeFailed (message : Bytes)

inductive PasswordEnding where
  | skipped | returned
  | accepted (password confirm : Bytes)

inductive WindowCall where
  | encryptFile (p : SealParams)
  | encryptData (p : SealParams) (data : Bytes)
  | decryptFile (username password filePath : Bytes)
  | makeTempPath (filePath : Bytes)
  | writeTemp (path data : Bytes)
  | removeTemp (path : Bytes)
  | warn (warning : WindowWarning)
  | readReminder
  | saveReminder (count : Nat)
  | askPassword (skipAllowed : Bool)
  | changePassword (username password newPassword : Bytes)

/-- A message comes back with the number of alarms while it was shown, those under each other's messages
counted in. A counter comes with whether the settings could be read. -/
abbrev WindowCall.Reply : WindowCall → Type
  | encryptFile _ | encryptData .. | changePassword .. => Except Bytes Unit
  | decryptFile .. => Except Bytes DecryptResult
  | makeTempPath _ => Bytes
  | writeTemp .. | saveReminder _ | removeTemp _ => Bool
  | warn _ => Nat
  | readReminder => Option Int × Bool
  | askPassword _ => PasswordEnding × Nat

structure DecryptedItem where
  filePath : Bytes
  data : Bytes
  cipher : Cipher
  hash : HashAlg
  keyStorage : Bytes
  fileId : Bytes
  tempPath : Bytes

def DecryptedItem.of (path : Bytes) (result : DecryptResult) (temp : Bytes) : DecryptedItem where
  filePath := path
  data := result.data
  cipher := result.cipher
  hash := result.hash
  keyStorage := result.keyStorage
  fileId := result.fileId
  tempPath := temp

/-- `marked` are the selected rows of `files`, `shown` is the list of decrypted files in the window and
`secureMode` the guard of the clipboard. -/
structure MainWindow where
  username : Bytes
  password : Bytes
  permissions : Nat
  files : List Bytes := []
  marked : List Nat := []
  cipher : Cipher := .kuznechik
  hash : HashAlg := .sha256
  keyOnServer : Bool
  decryptToTemp : Bool
  decrypted : List DecryptedItem := []
  shown : List Bytes := []
  secureMode : Bool := false
  terminateEnabled : Bool := false
  closing : Bool := false

abbrev WindowHandler (α : Type) : Type := Stateful WindowCall WindowCall.Reply MainWindow Empty α

namespace MainWindow

def modify (f : MainWindow → MainWindow) : WindowHandler Unit := step fun w => pure ((), f w)

def keyStorage (w : MainWindow) : Bytes := if w.keyOnServer then bytes "server" else bytes "client"

def selectedFilePaths (w : MainWindow) : List Bytes :=
  let items := w.marked.filterMap fun row => w.files[row]?
  if items.isEmpty then w.files else items

def updateSecureState (w : MainWindow) : MainWindow :=
  { w with secureMode := !w.decrypted.isEmpty, terminateEnabled := !w.decrypted.isEmpty }

/-! ## Encrypting again -/

def resealParams (w : MainWindow) (item : DecryptedItem) : SealParams where
  username := w.username
  password := w.password
  filePath := item.filePath
  cipher := item.cipher
  hash := item.hash
  keyStorage := if item.keyStorage = [] then w.keyStorage else item.keyStorage

/-- Whether the file is gone then is not looked at. -/
def dropTemp (item : DecryptedItem) : WindowHandler Unit :=
  if item.tempPath = [] then pure ()
  else do
    let _removed : Bool ← perform (WindowCall.removeTemp item.tempPath)
    return ()

/-- Stops at the first that fails. -/
def resealItems : List DecryptedItem → WindowHandler Bool
  | [] => return true
  | item :: rest => do
    let w ← state
    let result : Except Bytes Unit ← perform (WindowCall.encryptData (w.resealParams item) item.data)
    match result with
    | .error _ => return false
    | .ok () => do
      dropTemp item
      resealItems rest

def reencryptAll : WindowHandler Bool := do
  let w ← state
  if w.decrypted.isEmpty then
    modify updateSecureState
    return true
  else
    let done ← resealItems w.decrypted
    if done then
      modify fun w => updateSecureState { w with decrypted := [], shown := [] }
      return true
    else return false

/-- Alarms, one after another; there are none unless the clipboard is guarded. -/
def violated : Nat → WindowHandler Unit
  | 0 => return ()
  | n + 1 => do
    let w ← state
    if w.secureMode then
      let _ ← reencryptAll
      let _ : Nat ← perform (WindowCall.warn .violation)
      violated n
    else return ()

def warn (warning : WindowWarning) : WindowHandler Unit := do
  let alarms : Nat ← perform (WindowCall.warn warning)
  violated alarms

/-! ## Buttons -/

def encryptTargets (cipher : Cipher) (hash : HashAlg) (keyStorage : Bytes) : List Bytes → WindowHandler Unit
  | [] => return ()
  | path :: rest => do
    let w ← state
    let result : Except Bytes Unit ← perform
      (WindowCall.encryptFile ⟨w.username, w.password, path, cipher, hash, keyStorage⟩)
    match result with
    | .error message => do
      warn (.encryptFailed message)
      encryptTargets cipher hash keyStorage rest
    | .ok () => encryptTargets cipher hash keyStorage rest

def onEncrypt : WindowHandler Unit := do
  let w ← state
  if w.files.isEmpty then return ()
  else encryptTargets w.cipher w.hash w.keyStorage w.selectedFilePaths

def tempFor (toTemp : Bool) (path data : Bytes) : WindowHandler Bytes :=
  if toTemp then do
    let temp : Bytes ← perform (WindowCall.makeTempPath path)
    let written : Bool ← perform (WindowCall.writeTemp temp data)
    return if written then temp else []
  else return []

def addDecrypted (path : Bytes) (result : DecryptResult) (temp : Bytes) (w : MainWindow) : MainWindow :=
  { w with decrypted := w.decrypted ++ [.of path result temp], shown := w.shown ++ [path] }

def keepDecrypted (path : Bytes) (result : DecryptResult) : WindowHandler Unit := do
  let w ← state
  let temp ← tempFor w.decryptToTemp path result.data
  modify (addDecrypted path result temp)

def decryptTargets : List Bytes → WindowHandler Unit
  | [] => return ()
  | path :: rest => do
    let w ← state
    let result : Except Bytes DecryptResult ← perform (WindowCall.decryptFile w.username w.password path)
    match result with
    | .error message => do
      warn (.decryptFailed message)
      decryptTargets rest
    | .ok file => do
      keepDecrypted path file
      decryptTargets rest

def onDecrypt : WindowHandler Unit := do
  let w ← state
  if w.files.isEmpty then return ()
  else
    decryptTargets w.selectedFilePaths
    modify updateSecureState

def onTerminate : WindowHandler Unit := do
  let done ← reencryptAll
  if done then return () else warn .cleanupFailed

/-! ## Closing -/

def saveCount (count : Nat) : WindowHandler Bool := do
  let saved : Bool ← perform (WindowCall.saveReminder count)
  if saved then return true
  else
    warn .reminderUnsaved
    return false

def refuse (warning : WindowWarning) : WindowHandler Bool := do
  warn warning
  return false

/-- How often the change has been put off; what is no number counts as five. -/
def skippedOf (stored : Option Int) : Nat :=
  match stored with
  | none => 5
  | some n => if 0 ≤ n then min n.toNat 5 else 5

def changeAndSave (newPassword confirm : Bytes) : WindowHandler Bool := do
  let w ← state
  if newPassword = [] then refuse .passwordEmpty
  else if newPassword = w.password then refuse .passwordSame
  else if newPassword ≠ confirm then refuse .passwordsDiffer
  else
    let changed : Except Bytes Unit ← perform
      (WindowCall.changePassword w.username w.password newPassword)
    match changed with
    | .error message => refuse (.changeFailed message)
    | .ok () => do
      modify fun w => { w with password := newPassword }
      -- the new password counts even if this fails
      saveCount 0

def endPrompt (skipped : Nat) : PasswordEnding → WindowHandler Bool
  | .skipped => if skipped < 5 then saveCount (skipped + 1) else return false
  | .returned => return false
  | .accepted newPassword confirm => changeAndSave newPassword confirm

def promptPasswordChange : WindowHandler Bool := do
  let reminder : Option Int × Bool ← perform WindowCall.readReminder
  let skipped := skippedOf reminder.1
  if reminder.2 then
    let answer : PasswordEnding × Nat ← perform (WindowCall.askPassword (skipped < 5))
    violated answer.2
    endPrompt skipped answer.1
  else refuse .reminderUnreadable

def sealBeforeClose : WindowHandler Bool := do
  let w ← state
  if w.decrypted.isEmpty then return true else reencryptAll

def readyToClose : WindowHandler Bool := do
  let done ← sealBeforeClose
  if done then promptPasswordChange else return false

def closeEvent : WindowHandler Bool := do
  let w ← state
  if w.closing then return true
  else
    modify fun w => { w with closing := true }
    let ready ← readyToClose
    if ready then return true
    else
      modify fun w => { w with closing := false }
      return false

/-! ## What happens to the window -/

inductive WindowAction where
  | selectFiles (files : List Bytes)
  | markRows (rows : List Nat)
  | choose (cipher : Cipher) (hash : HashAlg) (keyOnServer decryptToTemp : Bool)
  | encrypt | decrypt | terminate
  | alarm (more : Nat)
  | close

def onSelectFiles (files : List Bytes) (w : MainWindow) : MainWindow :=
  if files.isEmpty then w
  else { w with files := files.filter fun file => !file.isEmpty, marked := [] }

def pressed (enabled : MainWindow → Bool) (x : WindowHandler Unit) : WindowHandler Bool := do
  let w ← state
  if enabled w then
    x
    return false
  else return false

def handle : WindowAction → WindowHandler Bool
  | .selectFiles files => do
    modify (onSelectFiles files)
    return false
  | .markRows rows => do
    modify fun w => { w with marked := rows }
    return false
  | .choose cipher hash keyOnServer decryptToTemp => do
    modify fun w => { w with
      cipher := cipher
      hash := hash
      keyOnServer := keyOnServer
      decryptToTemp := decryptToTemp }
    return false
  | .encrypt => pressed (fun w => w.permissions &&& 1 != 0) onEncrypt
  | .decrypt => pressed (fun w => w.permissions &&& 2 != 0) onDecrypt
  | .terminate => pressed (fun w => w.terminateEnabled) onTerminate
  | .alarm more => do
    violated (more + 1)
    return false
  | .close => closeEvent

def handleAll : List WindowAction → WindowHandler Bool
  | [] => return false
  | action :: rest => do
    let closed ← handle action
    if closed then return true else handleAll rest

end MainWindow

end EncoderNext
