import EncoderNext.ClientFiles

/-!
# Opening an encrypted file

The client looks for a header in front of the ciphertext, or for a second file beside it, and asks
the server with what it finds. A header that was written in front of a ciphertext is found again.
-/

namespace EncoderNext

open Program Program.Stateful

namespace ClientCore

/-! ## The header of a file -/

def cutAtBlank : Bytes → Option (Bytes × Bytes)
  | a :: b :: rest =>
    if a = lf ∧ b = lf then some ([a, b], rest)
    else (cutAtBlank (b :: rest)).map fun r => (a :: r.1, r.2)
  | _ => none

inductive EmbeddedRead where
  | failed (message : Bytes)
  | notEmbedded (ciphertext : Bytes)
  | embedded (header : Header) (ciphertext : Bytes)

def readEmbeddedFile : Option Bytes → EmbeddedRead
  | none => .failed (bytes "Failed to read file")
  | some file =>
    if file.take fileMagic.length ≠ fileMagic then .notEmbedded file
    else
      match cutAtBlank (file.drop fileMagic.length) with
      | none => .failed (bytes "Invalid embedded header")
      | some (text, ciphertext) => .embedded (Header.parse text) ciphertext

structure Metadata where
  keyStorage : Bytes
  fileId : Bytes := []
  keyId : Bytes := []
  hashValue : Bytes := []
  keyFile : Bytes := []
  cipher : Cipher
  hash : HashAlg
  key : Bytes := []
  iv : Bytes := []
  tag : Bytes := []

def orError {α : Type} (value : Option α) (message : Bytes) : Except Bytes α :=
  match value with
  | none => .error message
  | some a => .ok a

def embeddedField (text message : Bytes) : Except Bytes Bytes :=
  if text = [] then .ok [] else orError (Server.decoded text) message

def extractMetadata (hdr : Header) : Except Bytes Metadata := do
  let cipher ← orError (CryptoEngine.cipherFromString (hdr.get (bytes "cipher")))
    (bytes "Invalid cipher in embedded header")
  let hash ← orError (CryptoEngine.hashFromString (hdr.get (bytes "hash")))
    (bytes "Invalid hash in embedded header")
  let key ← embeddedField (hdr.get (bytes "key")) (bytes "Invalid key in embedded header")
  let iv ← embeddedField (hdr.get (bytes "iv")) (bytes "Invalid iv in embedded header")
  let tag ← embeddedField (hdr.get (bytes "tag")) (bytes "Invalid tag in embedded header")
  return {
    keyStorage := hdr.get (bytes "key_storage") (bytes "server")
    fileId := hdr.get (bytes "file_id")
    keyId := hdr.get (bytes "key_id")
    hashValue := hdr.get (bytes "hash_value")
    cipher, hash, key, iv, tag }

/-! ## The file beside it -/

structure Sidecar where
  cipher : Option Cipher := none
  hash : HashAlg := .sha256
  keyStorage : Option Bytes := none
  fileId : Bytes := []
  keyId : Bytes := []
  hashValue : Bytes := []
  keyFile : Bytes := []
  iv : Bytes := []
  tag : Bytes := []

def sidecarField (m : Sidecar) (key val : Bytes) : Except Bytes Sidecar := do
  if key = bytes "cipher" then do
    let cipher ← orError (CryptoEngine.cipherFromString val) (bytes "Invalid cipher in metadata")
    return { m with cipher := some cipher }
  else if key = bytes "hash" then do
    let hash ← orError (CryptoEngine.hashFromString val) (bytes "Invalid hash in metadata")
    return { m with hash := hash }
  else if key = bytes "key_storage" then return { m with keyStorage := some val }
  else if key = bytes "file_id" then return { m with fileId := val }
  else if key = bytes "key_id" then return { m with keyId := val }
  else if key = bytes "hash_value" then return { m with hashValue := val }
  else if key = bytes "key_file" then return { m with keyFile := val }
  else if key = bytes "iv" then do
    let iv ← orError (Server.decoded val) (bytes "Invalid iv")
    return { m with iv := iv }
  else if key = bytes "tag" then do
    let tag ← orError (Server.decoded val) (bytes "Invalid tag")
    return { m with tag := tag }
  else return m

def sidecarLine (m : Sidecar) (line : Bytes) : Except Bytes Sidecar :=
  match splitAt? (byte '=') line with
  | none => .ok m
  | some (key, val) => sidecarField m key val

def readMetadata (file : Option Bytes) : Except Bytes Metadata := do
  let text ← orError file (bytes "Metadata file not found")
  let m ← (lines text).foldlM sidecarLine {}
  let cipher ← orError m.cipher (bytes "Incomplete metadata")
  let keyStorage ← orError m.keyStorage (bytes "Incomplete metadata")
  return {
    keyStorage, cipher
    fileId := m.fileId
    keyId := m.keyId
    hashValue := m.hashValue
    keyFile := m.keyFile
    hash := m.hash
    iv := m.iv
    tag := m.tag }

/-! ## The request -/

structure DecryptParams where
  username : Line
  password : Line
  filePath : Bytes

structure DecryptResult where
  data : Bytes
  originalName : Bytes
  cipher : Cipher
  hash : HashAlg
  keyStorage : Bytes
  fileId : Bytes

def okOrLog {α : Type} (r : Except Bytes α) (line : Bytes) : ClientProgram α :=
  match r with
  | .ok a => pure a
  | .error message => logAndFail (line ++ message) message

/-- Whether the header is in the file itself, what the file says, and its ciphertext. -/
def findMetadata (p : DecryptParams) : ClientProgram (Bool × Metadata × Bytes) := do
  let file : Option Bytes ← perform (ClientCall.readFile p.filePath)
  match readEmbeddedFile file with
  | .failed message =>
    logAndFail (bytes "decrypt_file failed to read embedded file: " ++ message) message
  | .embedded header ciphertext => do
    let m ← okOrLog (extractMetadata header)
      (bytes "decrypt_file failed to parse embedded metadata: ")
    return (true, m, ciphertext)
  | .notEmbedded ciphertext => do
    let beside : Option Bytes ← perform (ClientCall.readFile (p.filePath ++ bytes ".cph"))
    let m ← okOrLog (readMetadata beside) (bytes "decrypt_file failed to read metadata: ")
    return (false, m, ciphertext)

/-- A key of its own file brings its own IV and tag. -/
def loadKeyFile (p : DecryptParams) (m : Metadata) : ClientProgram Metadata := do
  let keyFile := if m.keyFile = [] then p.filePath ++ bytes ".key" else m.keyFile
  let blob : Option Bytes ← perform (ClientCall.readFile keyFile)
  match blob.bind KeyMaterial.ofBlob with
  | none =>
    logAndFail (bytes "decrypt_file failed to load key file: " ++ keyFile) (bytes "Failed to load key")
  | some k => return { m with key := k.key, iv := k.iv, tag := k.tag }

def chooseKey (p : DecryptParams) (embedded : Bool) (m : Metadata) : ClientProgram Metadata :=
  if m.keyStorage = bytes "server" then
    if m.keyId = [] then
      logAndFail (bytes "decrypt_file missing key_id for server storage") (bytes "Missing key_id")
    else pure m
  else if m.keyStorage = bytes "client" then
    if m.key ≠ [] then pure m
    else if embedded then
      logAndFail (bytes "decrypt_file missing embedded key") (bytes "Missing embedded key")
    else loadKeyFile p m
  else logAndFail (bytes "decrypt_file unknown key storage: " ++ m.keyStorage) (bytes "Unknown key storage")

def decryptRequest (cfg : ClientConfig) (p : DecryptParams) (m : Metadata) (ciphertext : Bytes) :
    Header :=
  let header := Header.set {} (bytes "op") (bytes "decrypt")
  let header := header.set (bytes "username") p.username.1
  let header := header.set (bytes "password") p.password.1
  let header := header.set (bytes "client_id") cfg.clientId.1
  let header := header.set (bytes "client_host") cfg.hostLabel.1
  let header := header.set (bytes "cipher") (CryptoEngine.cipherToString m.cipher)
  let header := header.set (bytes "hash") (CryptoEngine.hashToString m.hash)
  let header := header.set (bytes "file_size") (decimal ciphertext.length)
  let header := Server.setUnlessEmpty header (bytes "file_id") m.fileId m.fileId
  if m.keyStorage = bytes "server" then header.set (bytes "key_id") m.keyId
  else
    let header := header.set (bytes "key") (base64Encode m.key)
    let header := Server.setUnlessEmpty header (bytes "iv") m.iv (base64Encode m.iv)
    Server.setUnlessEmpty header (bytes "tag") m.tag (base64Encode m.tag)

def checkDecrypted (resp : Header) : ClientProgram Unit :=
  let message := resp.get (bytes "message") (bytes "Server error")
  orLog (resp.get (bytes "status") == bytes "ok") (bytes "decrypt server error: " ++ message) message

def decryptFile (cfg : ClientConfig) (e : Endpoint) (p : DecryptParams) :
    ClientProgram DecryptResult := do
  let (embedded, found, ciphertext) ← findMetadata p
  let m ← chooseKey p embedded found
  let (resp, data) ← logging (bytes "decrypt request failed")
    (sendRequest e (decryptRequest cfg p m ciphertext) ciphertext)
  checkDecrypted resp
  return {
    data := data
    originalName := fileName p.filePath
    cipher := m.cipher
    hash := m.hash
    keyStorage := m.keyStorage
    fileId := m.fileId }

end ClientCore

end EncoderNext
