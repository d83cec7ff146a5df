import EncoderNext.Program
import EncoderNext.WifiProfile

/-!
# The Wi-Fi change transaction

`WifiChange` drives a backend through one change of network: prepare, activate,
wait for the link, commit on the holder's confirmation, and roll back on
everything else. The backend and the random generator answer as they like; a
program over their calls is what the class does, and the log of a run is what
the backend sees.
-/

namespace EncoderNext

open Program

inductive WifiLink where
  | pending | ready | failed
  deriving DecidableEq

inductive WifiChangeState where
  | idle | connecting | awaitingConfirmation | committed | rolledBack | recoveryRequired
  deriving DecidableEq

inductive WifiCall where
  | ethernetRecoveryAvailable
  | prepare (profile : WifiProfile) (lifetime : Int)
  | activate
  | probe
  | commit
  | rollback
  | random
  | now
  | factory
  deriving DecidableEq

namespace WifiCall

@[reducible] def Reply : WifiCall → Type
  | probe => WifiLink
  | random => Option (Vector UInt8 32)
  | now => Int
  | _ => Bool

def changes : WifiCall → Bool
  | prepare .. | activate | commit | rollback => true
  | _ => false

def reply (down : WifiCall → Bool) : (c : WifiCall) → c.Reply
  | probe => if down .probe then .failed else .ready
  | random => if down .random then none else some (Vector.replicate 32 0)
  | now => (0 : Int)
  | ethernetRecoveryAvailable => !down .ethernetRecoveryAvailable
  | prepare p lifetime => !down (.prepare p lifetime)
  | activate => !down .activate
  | commit => !down .commit
  | rollback => !down .rollback
  | factory => !down .factory

end WifiCall

abbrev WifiProgram := Program WifiCall WifiCall.Reply

/-- Points of the steady clock are counted in nanoseconds. -/
def seconds (n : Int) : Int := n * 1000000000

structure WifiChange where
  state : WifiChangeState := .idle
  deadline : Int := 0
  ticket : Bytes := []
  message : String := ""

namespace WifiChange

def pending (ch : WifiChange) : Bool :=
  ch.state == .connecting || ch.state == .awaitingConfirmation

def revert (ch : WifiChange) (reason : String) : WifiProgram WifiChange := do
  let restored ← ask WifiCall.rollback
  return { ch with
    state := if restored then .rolledBack else .recoveryRequired
    message := if restored then reason else "Rollback failed; recovery required"
    ticket := [] }

def prepareAndActivate (ch : WifiChange) (profile : WifiProfile) : WifiProgram (Bool × WifiChange) := do
  let prepared ← ask (WifiCall.prepare profile 90)
  if !prepared then return (false, ← ch.revert "Recovery preparation failed")
  let activated ← ask WifiCall.activate
  if !activated then return (false, ← ch.revert "Connection activation failed")
  return (true, { ch with
    message := "Connecting; explicit confirmation required within 90 seconds" })

def start (ch : WifiChange) (profile : WifiProfile) (now : Int) :
    WifiProgram (Bool × WifiChange) := do
  if ch.state ≠ .idle then return (false, ch)
  if profile.psk.length ≠ 32 ∨ profile.ssidHex = [] then
    return (false, { ch with message := "Invalid or consumed Wi-Fi profile" })
  let ethernet ← ask WifiCall.ethernetRecoveryAvailable
  if !ethernet then return (false, { ch with message := "Ethernet recovery connection required" })
  -- so far nothing has been touched
  match ← ask WifiCall.random with
  | none => return (false, { ch with message := "Cannot create confirmation ticket" })
  | some random =>
    let issued := { ch with
      ticket := ch.ticket ++ toHex random.toList
      deadline := now + seconds 90
      state := .connecting }
    issued.prepareAndActivate profile

def tick (ch : WifiChange) (now : Int) : WifiProgram WifiChange := do
  if !ch.pending then return ch
  if now ≥ ch.deadline then return ← ch.revert "Confirmation timed out"
  let ethernet ← ask WifiCall.ethernetRecoveryAvailable
  if !ethernet then return ← ch.revert "Ethernet recovery connection lost"
  let link ← ask WifiCall.probe
  if link = .failed then return ← ch.revert "Target connection failed"
  return { ch with
    state := if link = .ready then .awaitingConfirmation else .connecting
    message := if link = .ready then "Target connected; awaiting confirmation" else "Connecting" }

def confirm (ch : WifiChange) (ticket : Bytes) (now : Int) : WifiProgram (Bool × WifiChange) := do
  let ch ← ch.tick now
  if ch.state ≠ .awaitingConfirmation ∨ ticket ≠ ch.ticket then return (false, ch)
  let stored ← ask WifiCall.commit
  if !stored then return (false, ← ch.revert "Cannot persist target connection")
  return (true, { ch with state := .committed, message := "Connection confirmed", ticket := [] })

def cancel (ch : WifiChange) : WifiProgram WifiChange :=
  if ch.pending then ch.revert "Connection cancelled" else return ch

def destroy (ch : WifiChange) : WifiProgram WifiChange :=
  if ch.pending then ch.revert "Connection owner closed" else return ch

end WifiChange

end EncoderNext
