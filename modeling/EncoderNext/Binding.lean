import EncoderNext.ServerCall

/-!
# The client binding policy

Every request registers its client. While binding is on, only clients with an
allowed record may go on; a client first seen then is not allowed.
-/

namespace EncoderNext

open Program

namespace BindingPolicy

def sanitizeLabel (label : Bytes) : Bytes := label.map fun c => if c = byte '|' then byte '/' else c

def isClientAllowed (policy : BindingPolicy) (clientId : Bytes) : Bool :=
  if !policy.enabled then true
  else
    match policy.clients.lookup clientId with
    | none => false
    | some found => found.allowed

def registered (policy : BindingPolicy) (clientId label : Bytes) (now : Int) : BindingPolicy :=
  let found : ClientBindingRecord :=
    match policy.clients.lookup clientId with
    | none =>
      -- whoever comes while binding is off is let in for good
      { allowed := !policy.enabled
        firstSeenTs := now
        lastSeenTs := now
        label := sanitizeLabel label }
    | some found =>
      { found with
        lastSeenTs := now
        label := if label = [] then found.label else sanitizeLabel label }
  { policy with clients := policy.clients.insert clientId found }

def registerClient (policy : BindingPolicy) (clientId label : Bytes) :
    ServerProgram BindingPolicy := do
  let now ← act .now
  let policy := policy.registered clientId label now
  act (.savePolicy policy)
  return policy

def setBinding (policy : BindingPolicy) (enabled : Bool) : ServerProgram BindingPolicy := do
  let policy := { policy with enabled := enabled }
  act (.savePolicy policy)
  return policy

def setClientAllowed (policy : BindingPolicy) (clientId : Bytes) (allowed : Bool) :
    ServerProgram BindingPolicy := do
  let found := (policy.clients.lookup clientId).getD {}
  let found ← if found.firstSeenTs = 0 then do
      let now ← act .now
      pure { found with firstSeenTs := now, lastSeenTs := now, label := bytes "manual" }
    else pure found
  let found := { found with allowed := allowed }
  let policy := { policy with clients := policy.clients.insert clientId found }
  act (.savePolicy policy)
  return policy

theorem isClientAllowed_registered (policy : BindingPolicy) (clientId label : Bytes) (now : Int) :
    (policy.registered clientId label now).isClientAllowed clientId =
      policy.isClientAllowed clientId := by
  unfold registered isClientAllowed
  cases hr : policy.clients.lookup clientId with
  | none => cases he : policy.enabled <;> simp
  | some found => simp

/-! ## One request after another -/

def clientIdOf (req : Header) : Bytes :=
  if req.get (bytes "client_id") = [] then bytes "unknown" else req.get (bytes "client_id")

def clientHostOf (req : Header) : Bytes := req.get (bytes "client_host") (bytes "unknown")

def isYes (value : Bytes) : Bool := value == bytes "1" || value == bytes "true"

inductive Op where
  | register (req : Header)
  | adminSetBinding (req : Header)
  | adminSetClientAllowed (req : Header)

def Op.run (policy : BindingPolicy) : Op → ServerProgram BindingPolicy
  | register req => registerClient policy (clientIdOf req) (clientHostOf req)
  | adminSetBinding req => setBinding policy (isYes (req.get (bytes "enabled")))
  | adminSetClientAllowed req =>
    if req.get (bytes "client_id") = [] then pure policy
    else setClientAllowed policy (req.get (bytes "client_id")) (isYes (req.get (bytes "allowed")))

def Op.request : Op → Header
  | register req | adminSetBinding req | adminSetClientAllowed req => req

end BindingPolicy

end EncoderNext
