import EncoderNext.Protocol
import EncoderNext.Stateful

/-!
# What the server keeps and calls

Accounts, statistics and the binding policy live in memory; everything else a
session does is a call: the clock, random bytes, files, the connection and the
audit log. Any call may fail or answer anything.
-/

namespace EncoderNext

open Program

/-- A map keyed by strings; the order it is walked in is open. -/
abbrev Table (α : Type) : Type := AList fun _ : Bytes => α

structure UserRecord where
  username : Bytes := []
  saltHex : Bytes := []
  hashHex : Bytes := []
  blocked : Bool := false
  /-- Bit 0 is encryption, bit 1 decryption. -/
  permissions : UInt32 := 3
  deriving DecidableEq

abbrev UserStore : Type := Table UserRecord

structure UserStats where
  hourCounts : Vector UInt32 24 := Vector.replicate 24 0
  totalLogins : UInt32 := 0
  failedLoginTimes : List Int := []
  fileOpTimes : List Int := []
  decryptTimes : List Int := []
  decryptSizeTimes : List (Int × Nat) := []
  totalDecryptOps : UInt64 := 0
  totalDecryptBytes : UInt64 := 0
  lastFailedAlertTs : Int := 0
  lastBulkAlertTs : Int := 0
  lastTimeAlertTs : Int := 0
  lastDecryptRateAlertTs : Int := 0
  lastDecryptVolumeAlertTs : Int := 0
  strikeLevel : UInt32 := 0
  lockUntilTs : Int := 0

structure ClientBindingRecord where
  allowed : Bool := false
  firstSeenTs : Int := 0
  lastSeenTs : Int := 0
  label : Bytes := []
  deriving DecidableEq

structure BindingPolicy where
  enabled : Bool := false
  clients : Table ClientBindingRecord := ∅

inductive ServerCall where
  | now
  | localHour (t : Int)
  /-- Random bytes are there even where the generator reports a failure. -/
  | random (n : Nat)
  | readHeader (maxBytes : Nat)
  | receive (n : Nat)
  | sendHeader (h : Header)
  | sendData (b : Bytes)
  | writeFile (path : Bytes) (b : Bytes)
  | readFile (path : Bytes)
  | walk (users : UserStore)
  /-- A text file that is written from its start and closed. -/
  | writeText (path text : Bytes)
  | rename (source target : Bytes)
  | saveStats (stats : Table UserStats)
  | savePolicy (policy : BindingPolicy)
  | logEvent (kind who detail : Bytes)
  | logAlert (kind who detail : Bytes)
  /-- An administrator's report: fields of its header and the payload, or an error. -/
  | report (op : Bytes) (request : Header)

namespace ServerCall

@[reducible] def Reply : ServerCall → Type
  | now | localHour _ => Int
  | random n => Bool × Vector UInt8 n
  | readHeader _ => Option Header
  | receive n => Option (Vector UInt8 n)
  | readFile _ => Option Bytes
  | saveStats _ | savePolicy _ | logEvent .. | logAlert .. => Unit
  | report .. => Except Bytes (List (Bytes × Bytes) × Bytes)
  | walk users => {es : List (Sigma fun _ : Bytes => UserRecord) // es.Perm users.entries}
  | sendHeader _ | sendData _ | writeFile .. | writeText .. | rename .. => Bool

/-- The replies where a clock shows one time, writing works and nothing else does. -/
def plain (t : Int) : (c : ServerCall) → c.Reply
  | now => t
  | localHour _ => 0
  | random n => (false, Vector.replicate n 0)
  | readHeader _ | receive _ | readFile _ => none
  | saveStats _ | savePolicy _ | logEvent .. | logAlert .. => ()
  | report .. => .error []
  | walk users => ⟨users.entries, .refl _⟩
  | sendHeader _ | sendData _ | writeFile .. | writeText .. | rename .. => true

end ServerCall

abbrev ServerProgram := Program ServerCall ServerCall.Reply

abbrev act (c : ServerCall) : ServerProgram c.Reply := ask c

end EncoderNext
