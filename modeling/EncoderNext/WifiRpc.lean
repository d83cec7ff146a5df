import EncoderNext.WifiChange

/-!
# The Wi-Fi session and the helper's packets

A session keeps its own copy of the ticket of the change it owns; the helper
answers one packet at a time and replaces a finished session on the next start.
-/

namespace EncoderNext

open Program

structure WifiSession where
  change : WifiChange := {}
  ticket : Bytes := []

namespace WifiSession

def authorized (s : WifiSession) (ticket : Bytes) : Bool :=
  s.ticket.length == 64 && ticket == s.ticket

def start (s : WifiSession) (profile : WifiProfile) : WifiProgram (Option Bytes × WifiSession) := do
  if s.change.state ≠ .idle ∨ s.ticket ≠ [] then return (none, s)
  let now ← ask WifiCall.now
  let (ok, change) ← s.change.start profile now
  if !ok then return (none, { s with change := change })
  let value := change.ticket.take 64
  return (some value, { change := change, ticket := value })

def status (s : WifiSession) (ticket : Bytes) :
    WifiProgram (Option WifiChangeState × WifiSession) := do
  if !s.authorized ticket then return (none, s)
  let now ← ask WifiCall.now
  let change ← s.change.tick now
  return (some change.state, { s with change := change })

def confirm (s : WifiSession) (ticket : Bytes) :
    WifiProgram (Option WifiChangeState × WifiSession) := do
  if !s.authorized ticket then return (none, s)
  if s.change.state = .committed then return (some s.change.state, s)
  let now ← ask WifiCall.now
  let (ok, change) ← s.change.confirm ticket now
  return (if ok then some change.state else none, { s with change := change })

def cancel (s : WifiSession) (ticket : Bytes) :
    WifiProgram (Option WifiChangeState × WifiSession) := do
  if !s.authorized ticket then return (none, s)
  let change ← s.change.cancel
  return (some change.state, { s with change := change })

def tick (s : WifiSession) : WifiProgram WifiSession := do
  let now ← ask WifiCall.now
  let change ← s.change.tick now
  return { s with change := change }

def finished (s : WifiSession) : Bool :=
  s.change.state == .committed || s.change.state == .rolledBack

end WifiSession

structure WifiRpc where
  backend : Bool := false
  session : Option WifiSession := none

namespace WifiRpc

def hex (value : Bytes) (min max : Nat) : Bool :=
  min ≤ value.length && value.length ≤ max && value.length % 2 == 0 && value.all isHexDigit

def stateName : WifiChangeState → Bytes
  | .connecting => bytes "connecting"
  | .awaitingConfirmation => bytes "ready"
  | .committed => bytes "committed"
  | .rolledBack => bytes "rolled_back"
  | .recoveryRequired => bytes "recovery_required"
  | .idle => bytes "rejected"

def digit (c : UInt8) : UInt8 := if c ≤ byte '9' then c - byte '0' else c - byte 'a' + 10

def decodeHex : Bytes → Bytes
  | hi :: lo :: rest => (digit hi <<< 4 ||| digit lo) :: decodeHex rest
  | _ => []

@[irreducible] def rejected : Bytes := bytes "rejected"
@[irreducible] def error : Bytes := bytes "error"
@[irreducible] def recoveryRequired : Bytes := bytes "recovery_required"
@[irreducible] def connecting : Bytes := bytes "connecting|"

/-- The part of a start after the old session is gone. -/
def openSession (profile : WifiProfile) : WifiProgram (Bytes × WifiRpc) := do
  let created ← ask WifiCall.factory
  if !created then return (rejected, { backend := false, session := none })
  let (ticket, session) ← ({} : WifiSession).start profile
  let rpc := { backend := true, session := some session }
  match ticket with
  | none => return (recoveryRequired, rpc)
  | some ticket => return (connecting ++ ticket, rpc)

def handleStart (kdf : Pbkdf2) (rpc : WifiRpc) (ssidHex pskHex : Bytes) :
    WifiProgram (Bytes × WifiRpc) := do
  if (rpc.session.any fun s => !s.finished) ∨ ¬ hex ssidHex 2 64 ∨ ¬ hex pskHex 64 64 then
    return (rejected, rpc)
  match WifiProfile.make kdf (decodeHex ssidHex) pskHex with
  | .error _ => return (rejected, rpc)
  | .ok profile =>
    -- the old session goes first, with the destructor of its change
    match rpc.session with
    | some s => let _ ← s.change.destroy
    | none => pure ()
    openSession profile

def handleTicket (rpc : WifiRpc) (s : WifiSession) (verb ticket : Bytes) :
    WifiProgram (Bytes × WifiRpc) := do
  let (state, s) ←
    if verb = bytes "status" then s.status ticket
    else if verb = bytes "confirm" then s.confirm ticket
    else if verb = bytes "cancel" then s.cancel ticket
    else pure (none, s)
  return (match state with | some state => stateName state | none => error,
    { rpc with session := some s })

def handle (kdf : Pbkdf2) (rpc : WifiRpc) (packet : Bytes) : WifiProgram (Bytes × WifiRpc) :=
  if packet.length > 256 ∨ 0 ∈ packet then return (error, rpc)
  else
    match packet.splitOn (byte '|'), rpc.session with
    | [verb, ssidHex, pskHex], _ =>
      if verb = bytes "start" then handleStart kdf rpc ssidHex pskHex else return (error, rpc)
    | [verb, ticket], some s =>
      if hex ticket 64 64 then handleTicket rpc s verb ticket else return (error, rpc)
    | _, _ => return (error, rpc)

def tick (rpc : WifiRpc) : WifiProgram WifiRpc :=
  match rpc.session with
  | none => return rpc
  | some s => do
    let s ← s.tick
    return { rpc with session := some s }

end WifiRpc

end EncoderNext
