import EncoderNext.Handler

/-!
# Requests about accounts

A change of the accounts is made in memory, saved, and taken back when it cannot
be saved.
-/

namespace EncoderNext

open Program Program.Stateful

namespace Server

variable (cfg : ServerConfig) (kdf : PasswordKdf)

def storeUsers (updated : Option UserStore) (message : Bytes) : Handler Unit := do
  let previous ← state
  let users ← orFail updated message
  setUsers users
  let saved ← lift (UserStore.save users cfg.usersDbPath)
  guardOr saved () do
    setUsers previous.users
    sendError message

def handleChangePassword (req : Header) : Handler Unit := do
  let username := req.get (bytes "username")
  requireClient req username (bytes "change_password") 0
  requireUnlocked username (bytes "change_password") 0
  requirePassword cfg kdf username (req.get (bytes "password")) (bytes "change_password")
  recordLogin cfg username
  let s ← state
  let updated ← lift (UserStore.upsert kdf s.users username (req.get (bytes "new_password")))
  storeUsers cfg updated (bytes "Cannot save password change")
  perform_ (.logEvent (bytes "change_password") username (bytes "ok"))
  perform_ (.sendHeader (messageHeader (bytes "Password updated")))

def handleAuthCheck (req : Header) : Handler Unit := do
  let username := req.get (bytes "username")
  requireClient req username (bytes "auth_check") 0
  requireUnlocked username (bytes "auth_check") 0
  requirePassword cfg kdf username (req.get (bytes "password")) (bytes "auth_check")
  recordLogin cfg username
  perform_ (.logEvent (bytes "auth_ok") username (bytes "auth_check"))
  let s ← state
  perform_ (.sendHeader ((messageHeader (bytes "Authentication successful")).set
    (bytes "permissions") (decimal (UserStore.permissions s.users username).toNat)))

/-! ## The administrator -/

inductive UserOp where
  | adminCreateUser | adminResetPassword | adminBlockUser | adminSetPermissions
  deriving DecidableEq

def UserOp.name : UserOp → Bytes
  | adminCreateUser => bytes "admin_create_user"
  | adminResetPassword => bytes "admin_reset_password"
  | adminBlockUser => bytes "admin_block_user"
  | adminSetPermissions => bytes "admin_set_permissions"

def updateUser (op : UserOp) (req : Header) (users : UserStore) (username : Bytes) :
    Handler (Option UserStore) :=
  match op with
  | .adminSetPermissions =>
    match req.get (bytes "permissions") with
    | [c] => do
      require (byte '0' ≤ c && c ≤ byte '3') (bytes "Invalid permissions")
      return UserStore.setPermissions users username (c - byte '0').toUInt32
    | _ => fail (bytes "Invalid permissions")
  | .adminBlockUser => do
    let blocked := req.get (bytes "blocked")
    require (blocked == bytes "0" || blocked == bytes "1") (bytes "Invalid blocked value")
    return UserStore.setBlocked users username (blocked == bytes "1")
  | .adminCreateUser | .adminResetPassword => do
    let password := req.get (bytes "new_password")
    require (8 ≤ password.length && password.length ≤ 1024)
      (bytes "Password must contain 8-1024 bytes")
    lift (UserStore.upsert kdf users username password)

def handleAdminUser (op : UserOp) (req : Header) : Handler Unit := do
  let username := req.get (bytes "username")
  require (UserStore.validUsername username)
    (bytes "Username must contain 1-64 Latin letters, digits, dots, underscores or hyphens")
  let s ← state
  if op = .adminCreateUser then
    require (!UserStore.exists_ s.users username) (bytes "User already exists")
  else require (UserStore.exists_ s.users username) (bytes "User not found")
  let updated ← updateUser kdf op req s.users username
  storeUsers cfg updated (bytes "Cannot save user database")
  perform_ (.logEvent op.name (bytes "admin") username)
  perform_ (.sendHeader (messageHeader (bytes "User updated")))

def handleAdminUnlock (req : Header) : Handler Unit := do
  let username := req.get (bytes "username")
  require (username != []) (bytes "Missing username")
  let ok ← step fun s => do
    let (ok, stats) ← SecurityMonitor.unlockUser s.stats username
    return (ok, { s with stats := stats })
  require ok (bytes "User not found")
  perform_ (.logEvent (bytes "admin_unlock_user") (bytes "admin") username)
  perform_ (.sendHeader (messageHeader (bytes "User unlocked")))

def handleAdminSetBinding (req : Header) : Handler Unit := do
  let enabled := BindingPolicy.isYes (req.get (bytes "enabled"))
  onPolicy fun policy => policy.setBinding enabled
  perform_ (.logEvent (bytes "admin_set_binding") (bytes "admin")
    (if enabled then bytes "enabled" else bytes "disabled"))
  perform_ (.sendHeader (messageHeader
    (if enabled then bytes "Binding enabled" else bytes "Binding disabled")))

def handleAdminSetClientAllowed (req : Header) : Handler Unit := do
  let clientId := req.get (bytes "client_id")
  require (clientId != []) (bytes "Missing client_id")
  let allowed := BindingPolicy.isYes (req.get (bytes "allowed"))
  onPolicy fun policy => policy.setClientAllowed clientId allowed
  perform_ (.logEvent (bytes "admin_set_client_allowed") (bytes "admin")
    (clientId ++ bytes "=" ++ if allowed then bytes "1" else bytes "0"))
  perform_ (.sendHeader (messageHeader
    (if allowed then bytes "Client allowed" else bytes "Client blocked")))

def adminReports : List Bytes := [bytes "admin_wifi_change", bytes "admin_wifi_scan",
  bytes "admin_wifi_results", bytes "admin_wifi_status", bytes "admin_network_status",
  bytes "admin_list_users", bytes "admin_get_alerts", bytes "admin_get_logs",
  bytes "admin_get_stats", bytes "admin_get_locks", bytes "admin_get_binding"]

def sendPayload (header : Header) (payload : Bytes) : Handler Unit := do
  let sent : Bool ← perform (ServerCall.sendHeader header)
  if sent then perform_ (.sendData payload) else return ()

def reportHeader (fields : List (Bytes × Bytes)) (payload : Bytes) : Header :=
  let resp : Header := fields.foldl (fun (h : Header) f => h.set f.1 f.2) {}
  (resp.set (bytes "status") (bytes "ok")).set (bytes "payload_size") (decimal payload.length)

def handleAdminReport (op : Bytes) (req : Header) : Handler Unit := do
  let answer : Except Bytes (List (Bytes × Bytes) × Bytes) ← perform (ServerCall.report op req)
  let (fields, payload) ← okOrFail answer []
  sendPayload (reportHeader fields payload) payload

def handleAdmin (op : Bytes) (req : Header) : Handler Unit := do
  -- without a configured token nobody is let in
  require (cfg.adminToken != [] && req.get (bytes "admin_token") == cfg.adminToken)
    (bytes "Unauthorized")
  if op = bytes "admin_create_user" then handleAdminUser cfg kdf .adminCreateUser req
  else if op = bytes "admin_reset_password" then handleAdminUser cfg kdf .adminResetPassword req
  else if op = bytes "admin_block_user" then handleAdminUser cfg kdf .adminBlockUser req
  else if op = bytes "admin_set_permissions" then handleAdminUser cfg kdf .adminSetPermissions req
  else if op = bytes "admin_unlock_user" then handleAdminUnlock req
  else if op = bytes "admin_set_binding" then handleAdminSetBinding req
  else if op = bytes "admin_set_client_allowed" then handleAdminSetClientAllowed req
  else if op ∈ adminReports then handleAdminReport op req
  else fail (bytes "Unknown admin operation")

end Server

end EncoderNext
