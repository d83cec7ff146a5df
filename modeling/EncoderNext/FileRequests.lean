import EncoderNext.AccountRequests
import EncoderNext.Base64
import EncoderNext.CryptoEngine

/-!
# Requests about files

Encryption stores a key, where the request asks for that, and the digest of the
plaintext; decryption finds both again by their numbers and checks the digest
before it sends anything.
-/

namespace EncoderNext

open Program Program.Stateful

namespace Server

variable (cfg : ServerConfig) (kdf : PasswordKdf) (lib : CryptoLibrary)

/-- The answer of the random generator is not looked at. -/
def randomHex (n : Nat) : Handler Bytes := do
  let drawn : Bool × Vector UInt8 n ← perform (ServerCall.random n)
  return toHex drawn.2.toList

def keyPath (keyId : Bytes) : Bytes := joinPath cfg.keysDir (keyId ++ bytes ".bin")

def hashPath (fileId : Bytes) : Bytes := joinPath cfg.hashesDir (fileId ++ bytes ".hash")

def storeKey (path : Bytes) (m : KeyMaterial) : Handler Bool := perform (ServerCall.writeFile path m.blob)

def loadKey (path : Bytes) : Handler (Option KeyMaterial) := do
  let file : Option Bytes ← perform (ServerCall.readFile path)
  return file.bind KeyMaterial.ofBlob

def loadHashRecord (path : Bytes) : Handler (Option HashRecord) := do
  let file : Option Bytes ← perform (ServerCall.readFile path)
  return HashRecord.ofFile file

/-! ## Encryption -/

def keepKey (keyStorage : Bytes) (m : KeyMaterial) : Handler Bytes := do
  if keyStorage = bytes "server" then do
    let keyId ← randomHex 16
    let stored ← storeKey (keyPath cfg keyId) m
    require stored (bytes "Failed to store key")
    return keyId
  else return []

def setUnlessEmpty (h : Header) (key value : Bytes) (encoded : Bytes) : Header :=
  if value = [] then h else h.set key encoded

structure Encryption where
  plain : Bytes
  cipher : Cipher
  alg : HashAlg
  hex : Bytes
  result : CryptoResult
  keyId : Bytes
  fileId : Bytes

def keyStorage (req : Header) : Bytes := req.get (bytes "key_storage") (bytes "server")

def encryptedHeader (req : Header) (e : Encryption) : Header :=
  let resp := Header.set {} (bytes "status") (bytes "ok")
  let resp := resp.set (bytes "cipher") (req.get (bytes "cipher"))
  let resp := resp.set (bytes "hash") (req.get (bytes "hash"))
  let resp := resp.set (bytes "file_id") e.fileId
  let resp := resp.set (bytes "hash_value") e.hex
  let resp := resp.set (bytes "enc_size") (decimal e.result.data.length)
  let resp := setUnlessEmpty resp (bytes "key_id") e.keyId e.keyId
  let resp := if keyStorage req = bytes "client" then
    resp.set (bytes "key") (base64Encode e.result.key) else resp
  let resp := setUnlessEmpty resp (bytes "iv") e.result.iv (base64Encode e.result.iv)
  setUnlessEmpty resp (bytes "tag") e.result.tag (base64Encode e.result.tag)

def hashRecord (req : Header) (hex : Bytes) : HashRecord where
  alg := req.get (bytes "hash")
  hex := hex
  fileName := req.get (bytes "file_name")

def sendResult (resp : Header) (data : Bytes) : Handler Unit := do
  let sent : Bool ← perform (ServerCall.sendHeader resp)
  guardOr sent () (pure ())
  perform_ (.sendData data)

def recordFile (username op : Bytes) (size : Nat) (detail : Bytes) : Handler Unit := do
  onStats fun stats => SecurityMonitor.recordFileOp cfg.monitor stats username op 1 size
  perform_ (.logEvent op username detail)

def encryptRequest (req : Header) (fileSize : Nat) : Handler Encryption := do
  let cipher ← orFail (CryptoEngine.cipherFromString (req.get (bytes "cipher"))) (bytes "Unknown cipher")
  let alg ← orFail (CryptoEngine.hashFromString (req.get (bytes "hash")))
    (bytes "Unknown hash algorithm")
  require (alg != .streebog)
    (bytes "Legacy streebog label is not supported for new encryption; select SHA-256")
  let payload ← readExact fileSize
  let plain ← orFail payload (bytes "Failed to read file")
  let hex ← okOrFail (CryptoEngine.hash lib alg plain) (bytes "Hash failed: ")
  let encrypted ← lift (CryptoEngine.encrypt lib cipher plain)
  let result ← okOrFail encrypted (bytes "Encrypt failed: ")
  require (keyStorage req == bytes "server" || keyStorage req == bytes "client")
    (bytes "Invalid key_storage")
  let keyId ← keepKey cfg (keyStorage req) result.toKeyMaterial
  let fileId ← randomHex 16
  -- whether this write succeeds is not looked at
  perform_ (.writeFile (hashPath cfg fileId) (hashRecord req hex).payload)
  return ⟨plain, cipher, alg, hex, result, keyId, fileId⟩

/-- The part of `handle_encrypt` behind the checks. -/
def encryptFile (req : Header) (fileSize : Nat) : Handler Unit := do
  let e ← encryptRequest cfg lib req fileSize
  sendResult (encryptedHeader req e) e.result.data
  recordFile cfg (req.get (bytes "username")) (bytes "encrypt") fileSize
    (bytes "file=" ++ req.get (bytes "file_name") ++ bytes " file_size=" ++ decimal fileSize ++
      bytes " enc_size=" ++ decimal e.result.data.length ++ bytes " cipher=" ++
      req.get (bytes "cipher"))

def handleEncrypt (req : Header) : Handler Unit := do
  let fileSize ← checkRequest cfg kdf req (bytes "encrypt") 1
    (bytes "Encryption is not allowed for this account")
  encryptFile cfg lib req fileSize

/-! ## Decryption -/

def decoded (text : Bytes) : Option Bytes :=
  if (base64Decode text).2 then some (base64Decode text).1 else none

def decodeOrFail (text message : Bytes) : Handler Bytes :=
  if text = [] then pure [] else orFail (decoded text) message

def findKey (req : Header) : Handler KeyMaterial := do
  if req.get (bytes "key_id") ≠ [] then do
    let found ← loadKey (keyPath cfg (req.get (bytes "key_id")))
    orFail found (bytes "Key not found")
  else do
    let key ← orFail (decoded (req.get (bytes "key"))) (bytes "Invalid key")
    require (key != []) (bytes "Invalid key")
    let iv ← decodeOrFail (req.get (bytes "iv")) (bytes "Invalid IV")
    let tag ← decodeOrFail (req.get (bytes "tag")) (bytes "Invalid tag")
    return { key := key, iv := iv, tag := tag }

/-- A GOST file that is no frame. -/
def isLegacyGost (cipher : Cipher) (ciphertext : Bytes) : Bool :=
  (cipher == .kuznechik || cipher == .magma) &&
    (ciphertext.length < 8 || ciphertext.take 8 != GostNative.magic)

def trustedRecord (fileId : Bytes) : Handler (HashAlg × Bytes) := do
  let message := bytes "Legacy GOST requires the original trusted server hash record"
  require (fileId != []) message
  let found ← loadHashRecord (hashPath cfg fileId)
  let trusted ← orFail found message
  let alg ← orFail (CryptoEngine.hashFromString trusted.alg) message
  return (alg, trusted.hex)

def openCiphertext (fileId : Bytes) (cipher : Cipher) (ciphertext : Bytes) (m : KeyMaterial) :
    Handler (Except Bytes Unit × CryptoResult) :=
  if isLegacyGost cipher ciphertext then do
    let (alg, digest) ← trustedRecord cfg fileId
    return CryptoEngine.recoverLegacyGost lib ciphertext m.key alg digest {}
  else return CryptoEngine.decrypt lib cipher ciphertext m {}

def openFile (fileId : Bytes) (cipher : Cipher) (ciphertext : Bytes) (m : KeyMaterial) :
    Handler Bytes := do
  let (opened, r) ← openCiphertext cfg lib fileId cipher ciphertext m
  okOrFail opened (bytes "Decrypt failed: ")
  return r.data

/-- A request may name another algorithm; the stored one counts. -/
def noteMismatch (username fileId hashStr : Bytes) (record : HashRecord) : Handler Unit :=
  if hashStr ≠ [] ∧ hashStr ≠ record.alg then
    perform_ (.logEvent (bytes "hash_mismatch") username (bytes "file_id=" ++ fileId ++
      bytes " request=" ++ hashStr ++ bytes " stored=" ++ record.alg))
  else return ()

/-- Nothing is checked without a file number. -/
def checkDigest (username fileId hashStr plain : Bytes) : Handler Unit := do
  if fileId = [] then return ()
  else do
    let found ← loadHashRecord (hashPath cfg fileId)
    let record ← orFail found (bytes "Hash record not found")
    noteMismatch username fileId hashStr record
    let alg ← orFail (CryptoEngine.hashFromString record.alg) (bytes "Unknown hash algorithm")
    let hex ← okOrFail (CryptoEngine.hash lib alg plain) (bytes "Hash failed: ")
    -- nothing has been sent yet
    guardOr (hex == record.hex) () do
      perform_ (.logAlert (bytes "integrity_failed") username (bytes "file_id=" ++ fileId ++
        bytes " expected=" ++ record.hex ++ bytes " got=" ++ hex))
      sendError (bytes "Integrity check failed")

def decryptedHeader (plain : Bytes) : Header :=
  (Header.set {} (bytes "status") (bytes "ok")).set (bytes "plain_size") (decimal plain.length)

def openRequest (req : Header) (fileSize : Nat) : Handler Bytes := do
  let fileId := req.get (bytes "file_id")
  let cipher ← orFail (CryptoEngine.cipherFromString (req.get (bytes "cipher"))) (bytes "Unknown cipher")
  let payload ← readExact fileSize
  let ciphertext ← orFail payload (bytes "Failed to read file")
  let m ← findKey cfg req
  let plain ← openFile cfg lib fileId cipher ciphertext m
  checkDigest cfg lib (req.get (bytes "username")) fileId (req.get (bytes "hash")) plain
  return plain

/-- The part of `handle_decrypt` behind the checks. -/
def decryptFile (req : Header) (fileSize : Nat) : Handler Unit := do
  let plain ← openRequest cfg lib req fileSize
  sendResult (decryptedHeader plain) plain
  recordFile cfg (req.get (bytes "username")) (bytes "decrypt") plain.length
    (bytes "file_id=" ++ req.get (bytes "file_id") ++ bytes " enc_size=" ++ decimal fileSize ++
      bytes " plain_size=" ++ decimal plain.length ++ bytes " cipher=" ++ req.get (bytes "cipher"))

def handleDecrypt (req : Header) : Handler Unit := do
  let fileSize ← checkRequest cfg kdf req (bytes "decrypt") 2
    (bytes "Decryption is not allowed for this account")
  decryptFile cfg lib req fileSize

/-! ## One session -/

def handleRequest (adminOnly : Bool) (req : Header) : Handler Unit :=
  let op := req.get (bytes "op")
  let admin := (bytes "admin_").isPrefixOf op
  if adminOnly && !admin then
    sendError (bytes "Administrative port accepts only admin operations")
  else if admin then handleAdmin cfg kdf op req
  else if op = bytes "encrypt" then handleEncrypt cfg kdf lib req
  else if op = bytes "decrypt" then handleDecrypt cfg kdf lib req
  else if op = bytes "change_password" then handleChangePassword cfg kdf req
  else if op = bytes "auth_check" then handleAuthCheck cfg kdf req
  else sendError (bytes "Unknown operation")

def handleSession (adminOnly : Bool) : Handler Unit := do
  let read : Option Header ← perform (ServerCall.readHeader cfg.maxHeaderBytes)
  match read with
  | none => return ()
  | some req => handleRequest cfg kdf lib adminOnly req

end Server

end EncoderNext
