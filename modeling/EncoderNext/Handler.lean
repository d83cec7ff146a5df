import EncoderNext.Accounts
import EncoderNext.Binding
import EncoderNext.Monitor

/-!
# What the server's handlers share

A handler works on the accounts, the binding policy and the statistics, and ends
early after it has sent an error. Every file operation passes the same checks:
the client, the lock, the password, the permission, and the lock once more.
-/

namespace EncoderNext

open Program Program.Stateful

structure ServerConfig where
  maxHeaderBytes : Nat := 65536
  maxFileBytes : Nat := 104857600
  keysDir : Bytes
  hashesDir : Bytes
  usersDbPath : Bytes
  adminToken : Bytes
  monitor : MonitorConfig := {}

structure ServerState where
  users : UserStore := ∅
  policy : BindingPolicy := {}
  stats : Table UserStats := ∅

abbrev Handler (α : Type) : Type := Stateful ServerCall ServerCall.Reply ServerState Unit α

namespace Server

/-- `fs::path`'s `/`; an absolute name stands for itself. -/
def joinPath (dir name : Bytes) : Bytes :=
  if name.head? = some (byte '/') ∨ dir = [] then name
  else if dir.getLast? = some (byte '/') then dir ++ name
  else dir ++ byte '/' :: name

def errorHeader (message : Bytes) : Header :=
  (Header.set {} (bytes "status") (bytes "error")).set (bytes "message") message

def messageHeader (message : Bytes) : Header :=
  (Header.set {} (bytes "status") (bytes "ok")).set (bytes "message") message

def perform_ (c : ServerCall) : Handler Unit := do
  let _ ← perform c
  return ()

def sendError (message : Bytes) : Handler Unit := perform_ (.sendHeader (errorHeader message))

def fail {α : Type} (message : Bytes) : Handler α := do
  sendError message
  throw ()

def require (b : Bool) (message : Bytes) : Handler Unit := guardOr b () (sendError message)

def orFail {α : Type} (value : Option α) (message : Bytes) : Handler α :=
  match value with
  | none => fail message
  | some a => pure a

def okOrFail {α : Type} (value : Except Bytes α) (what : Bytes) : Handler α :=
  match value with
  | .error e => fail (what ++ e)
  | .ok a => pure a

def setUsers (users : UserStore) : Handler Unit := step fun s => pure ((), { s with users := users })

def onPolicy (f : BindingPolicy → ServerProgram BindingPolicy) : Handler Unit := step fun s => do
  let policy ← f s.policy
  return ((), { s with policy := policy })

def onStats (f : Table UserStats → ServerProgram (Table UserStats)) : Handler Unit := step fun s => do
  let stats ← f s.stats
  return ((), { s with stats := stats })

/-- Nothing is read of an empty payload. -/
def readExact (size : Nat) : Handler (Option Bytes) := do
  if size = 0 then return some []
  else do
    let received : Option (Vector UInt8 size) ← perform (ServerCall.receive size)
    return received.map Vector.toList

def discardPayload (size : Nat) : Handler Unit := do
  let _ ← readExact size
  return ()

/-! ## The checks -/

variable (cfg : ServerConfig) (kdf : PasswordKdf)

def bindingDetail (op : Bytes) (req : Header) : Bytes :=
  bytes "op=" ++ op ++ bytes " client_id=" ++ BindingPolicy.clientIdOf req ++ bytes " host=" ++
    BindingPolicy.clientHostOf req

def enforceClientBinding (req : Header) (username op : Bytes) : Handler Bool := do
  onPolicy fun policy =>
    policy.registerClient (BindingPolicy.clientIdOf req) (BindingPolicy.clientHostOf req)
  let s ← state
  if s.policy.isClientAllowed (BindingPolicy.clientIdOf req) then return true
  else do
    perform_ (.logAlert (bytes "client_binding_block") username (bindingDetail op req))
    sendError (bytes "Client is not allowed by binding policy")
    return false

/-- The payload of a client that is not let in is thrown away. -/
def requireClient (req : Header) (username op : Bytes) (size : Nat) : Handler Unit := do
  let allowed ← enforceClientBinding req username op
  guardOr allowed () (discardPayload size)

def lockedMessage (remaining : Int) : Bytes :=
  bytes "Account locked. Try again in " ++ decimalInt remaining ++ bytes "s"

def requireUnlocked (username stage : Bytes) (size : Nat) : Handler Unit := do
  let s ← state
  let remaining ← lift (SecurityMonitor.isLocked s.stats username)
  match remaining with
  | none => return ()
  | some remaining =>
    discardPayload size
    perform_ (.logEvent (bytes "auth_locked") username
      (stage ++ bytes " remaining_sec=" ++ decimalInt remaining))
    fail (lockedMessage remaining)

def requirePassword (username password op : Bytes) : Handler Unit := do
  let s ← state
  guardOr (UserStore.verify kdf s.users username password) () do
    onStats fun stats => SecurityMonitor.recordLoginFailure cfg.monitor stats username
    perform_ (.logEvent (bytes "auth_failed") username op)
    sendError (bytes "Authentication failed")

def requirePermission (username : Bytes) (bit : UInt32) (message : Bytes) : Handler Unit := do
  let s ← state
  require (UserStore.permissions s.users username &&& bit != 0) message

def recordLogin (username : Bytes) : Handler Unit :=
  onStats fun stats => SecurityMonitor.recordLoginSuccess cfg.monitor stats username

def checkRequest (req : Header) (op : Bytes) (bit : UInt32) (denied : Bytes) : Handler Nat := do
  let username := req.get (bytes "username")
  let fileSize ← orFail (stoull (req.get (bytes "file_size") (bytes "0"))) (bytes "Invalid file_size")
  require (fileSize ≤ cfg.maxFileBytes) (bytes "File too large")
  requireClient req username op fileSize
  requireUnlocked username op fileSize
  requirePassword cfg kdf username (req.get (bytes "password")) op
  requirePermission username bit denied
  recordLogin cfg username
  -- this very login may have locked the account
  requireUnlocked username (op ++ bytes " post_login") fileSize
  return fileSize

end Server

end EncoderNext
