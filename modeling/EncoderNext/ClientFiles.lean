import EncoderNext.EncryptRequest
import EncoderNext.FileRequests

/-!
# Encrypting a file in place

The client sends a file to the server and writes what comes back over it, under a
header of its own. Everything before the write leaves the file alone.
-/

namespace EncoderNext

open Program Program.Stateful

/-- How a write of a file ends: not opened, or with some of the bytes in the emptied file. Only what
is larger than the buffer of the stream can fail to be written before the call answers. -/
inductive WriteOutcome where
  | unopened
  | failed (kept : Bytes)
  | written (kept : Bytes)

def WriteOutcome.ok : WriteOutcome → Bool
  | written _ => true
  | _ => false

inductive ClientCall where
  | readFile (path : Bytes)
  | writeFile (path data : Bytes)
  | remove (path : Bytes)
  | logError (message : Bytes)
  | netInit
  | connect (host : Bytes) (port : Int)
  | tlsInit
  | tlsConnect (host : Bytes)
  | sendHeader (h : Header)
  | sendData (data : Bytes)
  | readHeader (max : Nat)
  | resize (size : Nat)
  | receive (size : Nat)

namespace ClientCall

/-- A failing connection says why. Whether the log was opened and what reached it and the files is
not seen by the program. -/
@[reducible] def Reply : ClientCall → Type
  | readFile _ => Option Bytes
  | writeFile .. => WriteOutcome
  | remove _ => Unit
  | logError _ => Option Bytes
  | netInit | sendHeader _ | sendData _ | resize _ => Bool
  | connect .. | tlsInit | tlsConnect _ => Except Bytes Unit
  | readHeader _ => Option Header
  | receive size => Option (Vector UInt8 size)

end ClientCall

inductive ClientEnding where
  | failed (message : Bytes)
  | thrown

abbrev ClientProgram (α : Type) : Type := Stateful ClientCall ClientCall.Reply Unit ClientEnding α

namespace ClientCore

structure Endpoint where
  host : Bytes
  port : Int

structure EncryptResult where
  fileId : Bytes := []
  keyId : Bytes := []
  hashValue : Bytes := []
  key : Bytes := []
  iv : Bytes := []
  tag : Bytes := []

structure EncryptJob where
  filePath : Bytes
  cipher : Cipher
  hash : HashAlg
  keyStorage : Bytes
  header : Bytes → Header

def jobOf (cfg : ClientConfig) (p : EncryptParams) : EncryptJob where
  filePath := p.filePath
  cipher := p.cipher
  hash := p.hash
  keyStorage := (keyStorageOf cfg p).1
  header := encryptRequest cfg p

def fail {α : Type} (message : Bytes) : ClientProgram α := throw (.failed message)

def logAndFail {α : Type} (line message : Bytes) : ClientProgram α := do
  let _ ← perform (ClientCall.logError line)
  fail message

/-! ## One request -/

def orLog (b : Bool) (line message : Bytes) : ClientProgram Unit :=
  if b then pure () else logAndFail line message

/-- The library's own words follow the line, and the message where it has room for them. -/
def connected (r : Except Bytes Unit) (line message : Bytes) : ClientProgram Unit :=
  match r with
  | .ok _ => pure ()
  | .error e => logAndFail (line ++ e) (message ++ e)

def openConnection (e : Endpoint) : ClientProgram Unit := do
  let ready : Bool ← perform ClientCall.netInit
  orLog ready (bytes "net_init failed") (bytes "Network initialization failed")
  let r : Except Bytes Unit ← perform (ClientCall.connect e.host e.port)
  connected r (bytes "socket connect failed: ") (bytes "Cannot reach " ++ e.host ++ bytes ":" ++
    decimalInt e.port ++ bytes ". Check the address, network and server. ")
  let r : Except Bytes Unit ← perform ClientCall.tlsInit
  connected r (bytes "tls init failed: ")
    (bytes "Cannot load TLS configuration. Check the certificate file. ")
  let r : Except Bytes Unit ← perform (ClientCall.tlsConnect e.host)
  connected r (bytes "tls connect failed: ")
    (bytes "TLS handshake failed. Check the certificate and device clocks. ")

def sendPayload (payload : Bytes) : ClientProgram Unit :=
  if payload = [] then pure ()
  else do
    let sent : Bool ← perform (ClientCall.sendData payload)
    orLog sent (bytes "write payload failed") (bytes "Connection lost while sending the file")

def announced (resp : Header) : Option Nat :=
  if resp.get (bytes "enc_size") ≠ [] then stoull (resp.get (bytes "enc_size"))
  else if resp.get (bytes "plain_size") ≠ [] then stoull (resp.get (bytes "plain_size"))
  else some 0

def receivePayload (size : Nat) : ClientProgram Bytes := do
  if size = 0 then return []
  else do
    let room : Bool ← perform (ClientCall.resize size)
    guardOr room .thrown (pure ())
    let received : Option (Vector UInt8 size) ← perform (ClientCall.receive size)
    match received with
    | some data => return data.toList
    | none =>
      logAndFail (bytes "read payload failed") (bytes "Connection lost while receiving the file")

def sendRequest (e : Endpoint) (header : Header) (payload : Bytes) : ClientProgram (Header × Bytes) := do
  openConnection e
  let sent : Bool ← perform (ClientCall.sendHeader header)
  orLog sent (bytes "write header failed") (bytes "Connection lost while sending the request")
  sendPayload payload
  let answer : Option Header ← perform (ClientCall.readHeader 65536)
  match answer with
  | none =>
    logAndFail (bytes "read header failed")
      (bytes "Server closed the connection or returned an invalid response")
  | some resp =>
    match announced resp with
    | none => fail (bytes "Invalid or incomplete server response")
    | some size => do
      let data ← receivePayload size
      return (resp, data)

def logging {α : Type} (line : Bytes) (x : ClientProgram α) : ClientProgram α :=
  tryCatch x fun
    | .failed message => logAndFail line message
    | .thrown => throw .thrown

/-! ## The encrypted file -/

def fileMagic : Bytes := bytes "CIPHEATOR\n"

/-- The header of the file; the key is in it only where the client keeps the key. -/
def embeddedHeader (q : EncryptJob) (r : EncryptResult) : Header :=
  let header := Header.set {} (bytes "version") (bytes "1")
  let header := header.set (bytes "cipher") (CryptoEngine.cipherToString q.cipher)
  let header := header.set (bytes "hash") (CryptoEngine.hashToString q.hash)
  let header := header.set (bytes "key_storage") q.keyStorage
  let header := Server.setUnlessEmpty header (bytes "file_id") r.fileId r.fileId
  let header := Server.setUnlessEmpty header (bytes "key_id") r.keyId r.keyId
  let header := Server.setUnlessEmpty header (bytes "hash_value") r.hashValue r.hashValue
  let header := Server.setUnlessEmpty header (bytes "iv") r.iv (base64Encode r.iv)
  let header := Server.setUnlessEmpty header (bytes "tag") r.tag (base64Encode r.tag)
  if q.keyStorage = bytes "client" then header.set (bytes "key") (base64Encode r.key) else header

def container (it : Iteration) (q : EncryptJob) (r : EncryptResult) (data : Bytes) : Bytes :=
  fileMagic ++ (embeddedHeader q r).serialize it ++ data

def unwritten : Bytes := bytes "encrypt failed to write embedded file: "

def writeEmbeddedFile (it : Iteration) (q : EncryptJob) (r : EncryptResult) (data : Bytes) :
    ClientProgram Unit := do
  if q.keyStorage = bytes "client" ∧ r.key = [] then
    logAndFail (unwritten ++ bytes "Missing client key") (bytes "Missing client key")
  else do
    let outcome : WriteOutcome ← perform (ClientCall.writeFile q.filePath (container it q r data))
    orLog outcome.ok (unwritten ++ bytes "Failed to write encrypted file")
      (bytes "Failed to write encrypted file")

/-! ## The whole of it -/

/-- A field of the response; an empty one leaves what was there before. -/
def decodeField (text former message : Bytes) : ClientProgram Bytes :=
  if text = [] then pure former
  else
    match Server.decoded text with
    | some b => pure b
    | none => fail message

def checkStatus (resp : Header) : ClientProgram Unit :=
  let message := resp.get (bytes "message") (bytes "Server error")
  orLog (resp.get (bytes "status") == bytes "ok") (bytes "encrypt server error: " ++ message) message

def requestEncryption (e : Endpoint) (q : EncryptJob) (former : EncryptResult) (data : Bytes) :
    ClientProgram (EncryptResult × Bytes) := do
  let (resp, encrypted) ← logging (bytes "encrypt request failed") (sendRequest e (q.header data) data)
  checkStatus resp
  let key ← decodeField (resp.get (bytes "key")) former.key (bytes "Invalid key")
  let iv ← decodeField (resp.get (bytes "iv")) former.iv (bytes "Invalid iv")
  let tag ← decodeField (resp.get (bytes "tag")) former.tag (bytes "Invalid tag")
  return (⟨resp.get (bytes "file_id"), resp.get (bytes "key_id"), resp.get (bytes "hash_value"), key, iv,
    tag⟩, encrypted)

/-- Written to the disk, as both callers ask for. -/
def encryptData (it : Iteration) (e : Endpoint) (q : EncryptJob) (former : EncryptResult) (data : Bytes) :
    ClientProgram EncryptResult := do
  let (r, encrypted) ← requestEncryption e q former data
  writeEmbeddedFile it q r encrypted
  -- files of an older version; a failure is ignored
  let _ ← perform (ClientCall.remove (q.filePath ++ bytes ".cph"))
  let _ ← perform (ClientCall.remove (q.filePath ++ bytes ".key"))
  return r

def encryptFile (it : Iteration) (e : Endpoint) (q : EncryptJob) (former : EncryptResult) :
    ClientProgram EncryptResult := do
  let file : Option Bytes ← perform (ClientCall.readFile q.filePath)
  match file with
  | none =>
    logAndFail (bytes "encrypt_file failed to read file: " ++ q.filePath) (bytes "Failed to read file")
  | some data => encryptData it e q former data

end ClientCore

end EncoderNext
