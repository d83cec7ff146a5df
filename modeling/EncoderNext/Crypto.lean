import EncoderNext.Decimal

/-!
# Ciphers and digests by name

The names on the wire and in files, and what the cryptographic library is asked
for under them. The library itself is a parameter.
-/

namespace EncoderNext

inductive Cipher where
  | kuznechik | magma | chacha20 | chacha20Poly1305 | aes128Ecb | aes128Cbc | aes128Cfb
  | aes128Ofb | aes128Ctr | aes128Gcm | aes128Ccm | aes128Xts | aes128Ocb | aes192Ecb | aes192Cbc
  | aes192Cfb | aes192Ofb | aes192Ctr | aes192Gcm | aes192Ccm | aes192Ocb | aes256Ecb | aes256Cbc
  | aes256Cfb | aes256Ofb | aes256Ctr | aes256Gcm | aes256Ccm | aes256Xts | aes256Ocb
  | twofish128Ecb | twofish128Cbc | twofish128Cfb | twofish128Ofb | twofish128Ctr | twofish192Ecb
  | twofish192Cbc | twofish192Cfb | twofish192Ofb | twofish192Ctr | twofish256Ecb | twofish256Cbc
  | twofish256Cfb | twofish256Ofb | twofish256Ctr | desEcb | desCbc | desCfb | desOfb | desCtr
  | rc4 | rc4_40 | rc4_128
  deriving DecidableEq

inductive HashAlg where
  | sha256 | sha512 | sha3_256 | sha3_512 | blake2b_512 | streebog
  deriving DecidableEq

structure CipherSpec where
  cipher : Cipher
  wireName : Bytes
  opensslName : Option Bytes
  gost : Bool
  aead : Bool
  ccm : Bool

def cipherSpecs : List CipherSpec := [
  ⟨.kuznechik, bytes "kuznechik", none, true, false, false⟩,
  ⟨.magma, bytes "magma", none, true, false, false⟩,
  ⟨.chacha20, bytes "chacha20", some (bytes "chacha20"), false, false, false⟩,
  ⟨.chacha20Poly1305, bytes "chacha20-poly1305", some (bytes "chacha20-poly1305"), false, true, false⟩,
  ⟨.aes128Ecb, bytes "aes-128-ecb", some (bytes "aes-128-ecb"), false, false, false⟩,
  ⟨.aes128Cbc, bytes "aes-128-cbc", some (bytes "aes-128-cbc"), false, false, false⟩,
  ⟨.aes128Cfb, bytes "aes-128-cfb", some (bytes "aes-128-cfb"), false, false, false⟩,
  ⟨.aes128Ofb, bytes "aes-128-ofb", some (bytes "aes-128-ofb"), false, false, false⟩,
  ⟨.aes128Ctr, bytes "aes-128-ctr", some (bytes "aes-128-ctr"), false, false, false⟩,
  ⟨.aes128Gcm, bytes "aes-128-gcm", some (bytes "aes-128-gcm"), false, true, false⟩,
  ⟨.aes128Ccm, bytes "aes-128-ccm", some (bytes "aes-128-ccm"), false, true, true⟩,
  ⟨.aes128Xts, bytes "aes-128-xts", some (bytes "aes-128-xts"), false, false, false⟩,
  ⟨.aes128Ocb, bytes "aes-128-ocb", some (bytes "aes-128-ocb"), false, true, false⟩,
  ⟨.aes192Ecb, bytes "aes-192-ecb", some (bytes "aes-192-ecb"), false, false, false⟩,
  ⟨.aes192Cbc, bytes "aes-192-cbc", some (bytes "aes-192-cbc"), false, false, false⟩,
  ⟨.aes192Cfb, bytes "aes-192-cfb", some (bytes "aes-192-cfb"), false, false, false⟩,
  ⟨.aes192Ofb, bytes "aes-192-ofb", some (bytes "aes-192-ofb"), false, false, false⟩,
  ⟨.aes192Ctr, bytes "aes-192-ctr", some (bytes "aes-192-ctr"), false, false, false⟩,
  ⟨.aes192Gcm, bytes "aes-192-gcm", some (bytes "aes-192-gcm"), false, true, false⟩,
  ⟨.aes192Ccm, bytes "aes-192-ccm", some (bytes "aes-192-ccm"), false, true, true⟩,
  ⟨.aes192Ocb, bytes "aes-192-ocb", some (bytes "aes-192-ocb"), false, true, false⟩,
  ⟨.aes256Ecb, bytes "aes-256-ecb", some (bytes "aes-256-ecb"), false, false, false⟩,
  ⟨.aes256Cbc, bytes "aes-256-cbc", some (bytes "aes-256-cbc"), false, false, false⟩,
  ⟨.aes256Cfb, bytes "aes-256-cfb", some (bytes "aes-256-cfb"), false, false, false⟩,
  ⟨.aes256Ofb, bytes "aes-256-ofb", some (bytes "aes-256-ofb"), false, false, false⟩,
  ⟨.aes256Ctr, bytes "aes-256-ctr", some (bytes "aes-256-ctr"), false, false, false⟩,
  ⟨.aes256Gcm, bytes "aes-256-gcm", some (bytes "aes-256-gcm"), false, true, false⟩,
  ⟨.aes256Ccm, bytes "aes-256-ccm", some (bytes "aes-256-ccm"), false, true, true⟩,
  ⟨.aes256Xts, bytes "aes-256-xts", some (bytes "aes-256-xts"), false, false, false⟩,
  ⟨.aes256Ocb, bytes "aes-256-ocb", some (bytes "aes-256-ocb"), false, true, false⟩,
  ⟨.twofish128Ecb, bytes "twofish-128-ecb", some (bytes "twofish-128-ecb"), false, false, false⟩,
  ⟨.twofish128Cbc, bytes "twofish-128-cbc", some (bytes "twofish-128-cbc"), false, false, false⟩,
  ⟨.twofish128Cfb, bytes "twofish-128-cfb", some (bytes "twofish-128-cfb"), false, false, false⟩,
  ⟨.twofish128Ofb, bytes "twofish-128-ofb", some (bytes "twofish-128-ofb"), false, false, false⟩,
  ⟨.twofish128Ctr, bytes "twofish-128-ctr", some (bytes "twofish-128-ctr"), false, false, false⟩,
  ⟨.twofish192Ecb, bytes "twofish-192-ecb", some (bytes "twofish-192-ecb"), false, false, false⟩,
  ⟨.twofish192Cbc, bytes "twofish-192-cbc", some (bytes "twofish-192-cbc"), false, false, false⟩,
  ⟨.twofish192Cfb, bytes "twofish-192-cfb", some (bytes "twofish-192-cfb"), false, false, false⟩,
  ⟨.twofish192Ofb, bytes "twofish-192-ofb", some (bytes "twofish-192-ofb"), false, false, false⟩,
  ⟨.twofish192Ctr, bytes "twofish-192-ctr", some (bytes "twofish-192-ctr"), false, false, false⟩,
  ⟨.twofish256Ecb, bytes "twofish-256-ecb", some (bytes "twofish-256-ecb"), false, false, false⟩,
  ⟨.twofish256Cbc, bytes "twofish-256-cbc", some (bytes "twofish-256-cbc"), false, false, false⟩,
  ⟨.twofish256Cfb, bytes "twofish-256-cfb", some (bytes "twofish-256-cfb"), false, false, false⟩,
  ⟨.twofish256Ofb, bytes "twofish-256-ofb", some (bytes "twofish-256-ofb"), false, false, false⟩,
  ⟨.twofish256Ctr, bytes "twofish-256-ctr", some (bytes "twofish-256-ctr"), false, false, false⟩,
  ⟨.desEcb, bytes "des-ecb", some (bytes "des-ecb"), false, false, false⟩,
  ⟨.desCbc, bytes "des-cbc", some (bytes "des-cbc"), false, false, false⟩,
  ⟨.desCfb, bytes "des-cfb", some (bytes "des-cfb"), false, false, false⟩,
  ⟨.desOfb, bytes "des-ofb", some (bytes "des-ofb"), false, false, false⟩,
  ⟨.desCtr, bytes "des-ctr", some (bytes "des-ctr"), false, false, false⟩,
  ⟨.rc4, bytes "rc4", some (bytes "rc4"), false, false, false⟩,
  ⟨.rc4_40, bytes "rc4-40", some (bytes "rc4-40"), false, false, false⟩,
  ⟨.rc4_128, bytes "rc4-128", some (bytes "rc4"), false, false, false⟩]

def normalizeCipherName (value : Bytes) : Bytes :=
  ((value.dropWhile isSpace).rdropWhile isSpace).map fun c =>
    if c = byte '_' then byte '-' else if byte 'A' ≤ c && c ≤ byte 'Z' then c + 32 else c

namespace CryptoEngine

def findSpec (cipher : Cipher) : Option CipherSpec := cipherSpecs.find? (·.cipher == cipher)

def cipherToString (cipher : Cipher) : Bytes :=
  match findSpec cipher with
  | none => bytes "unknown"
  | some spec => spec.wireName

def cipherFromString (value : Bytes) : Option Cipher :=
  (cipherSpecs.find? fun spec => normalizeCipherName value == spec.wireName).map (·.cipher)

def hashToString : HashAlg → Bytes
  | .sha256 => bytes "sha256"
  | .sha512 => bytes "sha512"
  | .sha3_256 => bytes "sha3-256"
  | .sha3_512 => bytes "sha3-512"
  | .blake2b_512 => bytes "blake2b-512"
  | .streebog => bytes "streebog"

def hashFromString (value : Bytes) : Option HashAlg :=
  let v := normalizeCipherName value
  if v = bytes "sha256" then some .sha256
  else if v = bytes "sha512" then some .sha512
  else if v = bytes "sha3-256" then some .sha3_256
  else if v = bytes "sha3-512" then some .sha3_512
  else if v = bytes "blake2b-512" ∨ v = bytes "blake2b512" then some .blake2b_512
  else if v = bytes "streebog" then some .streebog
  else none

theorem wireNames_plain : ∀ spec ∈ cipherSpecs, normalizeCipherName spec.wireName = spec.wireName ∧
    spec.wireName.all (fun b => !isBlank b) = true ∧ spec.wireName ≠ [] := by
  have hall : (cipherSpecs.all fun spec => normalizeCipherName spec.wireName == spec.wireName &&
      spec.wireName.all (fun b => !isBlank b) && spec.wireName != []) = true := by decide
  intro spec hspec
  have hone := List.all_eq_true.mp hall spec hspec
  simpa only [Bool.and_eq_true, beq_iff_eq, bne_iff_ne, and_assoc] using hone

theorem wireNames_nodup : (cipherSpecs.map (·.wireName)).Nodup := by decide

theorem findSpec_isSome (cipher : Cipher) : (findSpec cipher).isSome = true := by
  cases cipher <;> rfl

theorem cipherFromString_wireName {spec : CipherSpec} (h : spec ∈ cipherSpecs) :
    cipherFromString spec.wireName = some spec.cipher := by
  unfold cipherFromString
  rw [(wireNames_plain spec h).1]
  cases hf : cipherSpecs.find? fun s => spec.wireName == s.wireName with
  | none => simpa using List.find?_eq_none.mp hf spec h
  | some found =>
    have hname : spec.wireName = found.wireName := by simpa using List.find?_some hf
    have hsame := List.inj_on_of_nodup_map wireNames_nodup h (List.mem_of_find?_eq_some hf) hname
    rw [hsame]
    rfl

theorem cipherToString_spec (c : Cipher) : cipherFromString (cipherToString c) = some c ∧
    (cipherToString c).all (fun b => !isBlank b) = true ∧ cipherToString c ≠ [] := by
  obtain ⟨spec, hspec⟩ := Option.isSome_iff_exists.mp (findSpec_isSome c)
  have hmem : spec ∈ cipherSpecs := List.mem_of_find?_eq_some hspec
  have hcipher : spec.cipher = c := by simpa using List.find?_some hspec
  have hname : cipherToString c = spec.wireName := by rw [cipherToString, hspec]
  rw [hname, cipherFromString_wireName hmem, hcipher]
  exact ⟨rfl, (wireNames_plain spec hmem).2⟩

theorem hashToString_spec : ∀ a : HashAlg, hashFromString (hashToString a) = some a ∧
    (hashToString a).all (fun b => !isBlank b && b != byte ':') = true ∧ hashToString a ≠ [] := by
  intro a
  cases a <;> decide

end CryptoEngine

/-! ## The library -/

inductive EvpMode where
  | ecb | cbc | other
  deriving DecidableEq

structure EvpCipher where
  keyLength : Int32
  ivLength : Int32
  blockSize : Nat
  mode : EvpMode

/-- One encryption or decryption: what the calls on its context set up. Padding
is only set for a cipher that is no AEAD, the IV is null when it is empty, and
CCM is told the lengths of IV, tag and data first. -/
structure EvpCall where
  name : Bytes
  aead : Bool
  ccm : Bool
  padding : Option Bool
  key : Bytes
  iv : Option Bytes
  data : Bytes
  tag : Option Bytes

structure Digest where
  size : Nat
  pos : 0 < size
  run : Bytes → Option (Vector UInt8 size)

def Digest.of32 (run : Bytes → Option (Vector UInt8 32)) : Digest := ⟨32, by decide, run⟩

def Digest.of64 (run : Bytes → Option (Vector UInt8 64)) : Digest := ⟨64, by decide, run⟩

def gostBlock : Cipher → Nat
  | .magma => 8
  | _ => 16

/-- The GOST library; encryption writes as many bytes as it is given. -/
structure Akrypt where
  ready : Bool
  sealMgm : (cipher : Cipher) → (key aad plain iv : Bytes) →
    Option (Vector UInt8 plain.length × Vector UInt8 (gostBlock cipher))
  openMgm : (cipher : Cipher) → (key aad data iv tag : Bytes) → Option (Vector UInt8 data.length)
  openCbc : (key iv data : Bytes) → Option (Vector UInt8 data.length)

def Akrypt.Inverts (lib : Akrypt) : Prop :=
  ∀ {cipher : Cipher} {key aad plain iv : Bytes} {data : Vector UInt8 plain.length}
    {tag : Vector UInt8 (gostBlock cipher)},
    lib.sealMgm cipher key aad plain iv = some (data, tag) →
      (lib.openMgm cipher key aad data.toList iv tag.toList).map Vector.toList = some plain

structure CryptoLibrary where
  cipherByName : Bytes → Option EvpCipher
  sealCipher : EvpCall → Except Bytes (Bytes × Vector UInt8 16)
  openCipher : EvpCall → Except Bytes Bytes
  sha256 : Digest
  sha512 : Digest
  digestByName : Bytes → Option Digest
  gost : Option Akrypt

namespace CryptoEngine

variable (lib : CryptoLibrary)

/-- The legacy label stands for SHA-256. -/
def digestOf : HashAlg → Option Digest
  | .sha256 => some lib.sha256
  | .sha512 => some lib.sha512
  | .sha3_256 => (lib.digestByName (bytes "sha3-256")).or (lib.digestByName (bytes "SHA3-256"))
  | .sha3_512 => (lib.digestByName (bytes "sha3-512")).or (lib.digestByName (bytes "SHA3-512"))
  | .blake2b_512 =>
    (lib.digestByName (bytes "blake2b512")).or (lib.digestByName (bytes "BLAKE2b512"))
  | .streebog => some lib.sha256

def hash (alg : HashAlg) (data : Bytes) : Except Bytes Bytes :=
  match digestOf lib alg with
  | none => .error (bytes "Digest algorithm not available")
  | some digest =>
    match digest.run data with
    | none => .error (bytes "EVP_DigestFinal_ex failed")
    | some out => .ok (toHex out.toList)

theorem hash_hex {alg : HashAlg} {data hex : Bytes} (h : hash lib alg data = .ok hex) :
    hex ≠ [] ∧ hex.all isHexDigit = true := by
  unfold hash at h
  split at h
  · cases h
  rename_i digest _
  split at h
  · cases h
  rename_i out _
  cases h
  refine ⟨?_, toHex_all _⟩
  intro hn
  have hl := congrArg List.length hn
  have hpos := digest.pos
  simp at hl
  omega

end CryptoEngine

end EncoderNext
