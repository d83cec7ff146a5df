import EncoderNext.Chaining
import EncoderNext.GostNative

/-!
# Files of the old GOST program

`gost.c` chains the blocks by hand and pads only a block that is not full, so the
text alone does not say whether its end is padding. `decr.c` gives out the blocks
as they are, and two readers, in the server and in a script, choose between whole
and stripped text by a trusted digest.
-/

namespace EncoderNext

namespace LegacyGost

abbrev Block : Type := Vector UInt8 16

def mix (a b : Block) : Block := Vector.zipWith (· ^^^ ·) a b

def joinBlocks (blocks : List Block) : Bytes := blocks.flatMap Vector.toList

/-! ## `gost.c` -/

/-- A block read into the buffer, filled up with the number of the missing bytes. -/
def padded (chunk : Bytes) : Block := Vector.ofFn fun i => chunk.getD i (UInt8.ofNat (16 - chunk.length))

def encryptFile (e : Equiv.Perm Block) (iv : Block) (plain : Bytes) : Bytes :=
  iv.toList ++ joinBlocks (Chaining.sealed mix e iv ((Chaining.pieces 16 plain).map padded))

/-! ## `decr.c` -/

def asBlock (chunk : Bytes) : Option Block :=
  if h : chunk.length = 16 then some ⟨chunk.toArray, h⟩ else none

/-- A block that is not whole is an error, whatever was written before. -/
def decryptBlocks (e : Equiv.Perm Block) : Block → List Bytes → Option (List Block)
  | _, [] => some []
  | iv, chunk :: rest => do
    let c ← asBlock chunk
    let blocks ← decryptBlocks e c rest
    return mix (e.symm c) iv :: blocks

/-- Without the raw mode the last block loses what looks like padding. -/
def writeLast (raw : Bool) (b : Block) : Bytes :=
  let size := b[15].toNat
  if !raw && 0 < size && size ≤ 16 && (b.toList.drop (16 - size)).all (· == b[15]) then
    b.toList.take (16 - size)
  else b.toList

def writeBlocks (raw : Bool) : List Block → Bytes
  | [] => []
  | [b] => writeLast raw b
  | b :: b' :: rest => b.toList ++ writeBlocks raw (b' :: rest)

def decryptFile (e : Equiv.Perm Block) (raw : Bool) (file : Bytes) : Option Bytes := do
  let iv ← asBlock (file.take 16)
  let blocks ← decryptBlocks e iv (Chaining.pieces 16 (file.drop 16))
  return writeBlocks raw blocks

/-- The program on the content of its key file; only the first bytes of that are read. -/
def decryptWith (cipher : Bytes → Equiv.Perm Block) (raw : Bool) (file keyFile : Bytes) : Option Bytes :=
  if keyFile.length < 32 then none else decryptFile (cipher (keyFile.take 32)) raw file

/-! ## `recover_legacy_gost.py` -/

def algorithms : List (Bytes × Bytes) :=
  [(bytes "sha256", bytes "sha256"), (bytes "sha512", bytes "sha512"),
    (bytes "sha3-256", bytes "sha3_256"), (bytes "sha3-512", bytes "sha3_512"),
    (bytes "blake2b-512", bytes "blake2b")]

structure PyDigest where
  size : Nat
  run : Bytes → Vector UInt8 size

def PyDigest.hexdigest (d : PyDigest) (data : Bytes) : Bytes := toHex (d.run data).toList

inductive Decoder where
  | raw (data : Bytes)
  | failed
  | timedOut

/-- What the script finds around itself. -/
structure Surroundings where
  outputTaken : Bool
  decoder : (ciphertext key : Bytes) → Decoder
  published : Bool

inductive RecoveryError where
  | value (message : Bytes)
  | system

def candidates (data : Bytes) : List Nat :=
  match data.getLast? with
  | none => [data.length]
  | some padding =>
    if 1 ≤ padding ∧ padding ≤ 15 ∧ List.replicate padding.toNat padding <:+ data then
      [data.length, data.length - padding.toNat]
    else [data.length]

def recover (hashlib : Bytes → PyDigest) (s : Surroundings) (ciphertext key algorithm expected : Bytes) :
    Except RecoveryError Bytes :=
  match algorithms.lookup algorithm with
  | none => .error (.value (bytes "Unsupported digest; use the actual stored hash algorithm"))
  | some name =>
    let digest := hashlib name
    if expected.length ≠ digest.size * 2 ∨ expected.any (fun c => !isHexDigit c) = true then
      .error (.value (bytes "Invalid trusted digest"))
    else if s.outputTaken then .error (.value (bytes "Output already exists"))
    else if key.length ≠ 32 then .error (.value (bytes "Expected a 32-byte legacy key"))
    else if ciphertext.length < 16 ∨ (ciphertext.length - 16) % 16 ≠ 0 ∨
        ciphertext.length > 100 * 1024 * 1024 + 32 then
      .error (.value (bytes "Invalid legacy ciphertext length"))
    else
      match s.decoder ciphertext key with
      | .timedOut => .error .system
      | .failed => .error (.value (bytes "Legacy decoder failed"))
      | .raw data =>
        if data.length ≠ ciphertext.length - 16 then .error (.value (bytes "Legacy decoder failed"))
        else
          match (candidates data).filter fun size => digest.hexdigest (data.take size) == expected with
          | [size] => if s.published then .ok (data.take size) else .error .system
          -- neither candidate has the digest, or both have
          | _ => .error (.value (bytes "No unique match with trusted digest; no output written"))

/-- The script with nothing in its way and the decoder built from `decr.c`. -/
def clear (cipher : Bytes → Equiv.Perm Block) : Surroundings where
  outputTaken := false
  decoder file key :=
    match decryptWith cipher true file key with
    | some data => .raw data
    | none => .failed
  published := true

/-- The name under which the script is to be told an algorithm: the old label of Streebog stood
for SHA-256. -/
def toolName : HashAlg → Bytes
  | .streebog => bytes "sha256"
  | alg => CryptoEngine.hashToString alg

/-! ## Blocks -/

theorem mix_mix (a b : Block) : mix (mix a b) b = a := by
  refine Vector.ext fun i hi => ?_
  rw [mix, mix, Vector.getElem_zipWith, Vector.getElem_zipWith, UInt8.xor_assoc, UInt8.xor_self,
    UInt8.xor_zero]

@[simp] theorem asBlock_toList (b : Block) : asBlock b.toList = some b := by
  obtain ⟨b, hb⟩ := b
  simp [asBlock, Vector.toList, hb]

@[simp] theorem length_joinBlocks (blocks : List Block) : (joinBlocks blocks).length = 16 * blocks.length := by
  induction blocks with
  | nil => rfl
  | cons b blocks ih =>
    rw [joinBlocks, List.flatMap_cons, List.length_append, Vector.length_toList, List.length_cons]
    rw [joinBlocks] at ih
    omega

theorem pieces_joinBlocks (blocks : List Block) :
    Chaining.pieces 16 (joinBlocks blocks) = blocks.map Vector.toList := by
  rw [joinBlocks, List.flatMap_def]
  exact Chaining.pieces_blocks (by omega) (by simp)

theorem exists_blocks : ∀ (k : Nat) (b : Bytes), b.length = 16 * k → ∃ blocks, b = joinBlocks blocks
  | 0, b, h => ⟨[], List.eq_nil_of_length_eq_zero h⟩
  | k + 1, b, h => by
    have hfirst : (b.take 16).length = 16 := by
      rw [List.length_take]
      omega
    obtain ⟨blocks, hblocks⟩ := exists_blocks k (b.drop 16) (by rw [List.length_drop]; omega)
    refine ⟨⟨(b.take 16).toArray, hfirst⟩ :: blocks, ?_⟩
    rw [joinBlocks, List.flatMap_cons]
    show b = b.take 16 ++ joinBlocks blocks
    rw [← hblocks, List.take_append_drop]

theorem exists_frame {file : Bytes} (h16 : 16 ≤ file.length) (hmod : (file.length - 16) % 16 = 0) :
    ∃ (iv : Block) (cs : List Block), file = iv.toList ++ joinBlocks cs := by
  obtain ⟨blocks, hblocks⟩ := exists_blocks (file.length / 16) file (by omega)
  cases blocks with
  | nil =>
    rw [hblocks] at h16
    simp at h16
  | cons iv cs => exact ⟨iv, cs, hblocks⟩

/-! ## What the decoder gives out -/

theorem decryptBlocks_eq (e : Equiv.Perm Block) : ∀ (iv : Block) (cs : List Block),
    decryptBlocks e iv (cs.map Vector.toList) = some (Chaining.opened mix e iv cs)
  | _, [] => rfl
  | iv, c :: cs => by simp [decryptBlocks, decryptBlocks_eq e c cs, Chaining.opened]

theorem writeBlocks_raw : ∀ blocks : List Block, writeBlocks true blocks = joinBlocks blocks
  | [] => rfl
  | [b] => by simp [writeBlocks, writeLast, joinBlocks]
  | b :: b' :: rest => by
    rw [writeBlocks, writeBlocks_raw (b' :: rest)]
    simp [joinBlocks]

theorem decryptFile_raw (e : Equiv.Perm Block) (iv : Block) (cs : List Block) :
    decryptFile e true (iv.toList ++ joinBlocks cs) = some (joinBlocks (Chaining.opened mix e iv cs)) := by
  have hiv : iv.toList.length = 16 := Vector.length_toList
  have htake : (iv.toList ++ joinBlocks cs).take 16 = iv.toList := List.take_left' hiv
  have hdrop : (iv.toList ++ joinBlocks cs).drop 16 = joinBlocks cs := List.drop_left' hiv
  simp [decryptFile, htake, hdrop, pieces_joinBlocks, decryptBlocks_eq, writeBlocks_raw]

/-! ## What the writer pads -/

def padding (n : Nat) : Bytes :=
  if n % 16 = 0 then [] else List.replicate (16 - n % 16) (UInt8.ofNat (16 - n % 16))

theorem padded_toList {chunk : Bytes} (h : chunk.length ≤ 16) :
    (padded chunk).toList =
      chunk ++ List.replicate (16 - chunk.length) (UInt8.ofNat (16 - chunk.length)) := by
  apply List.ext_getElem
  · simp
    omega
  · intro i hi hi'
    simp [padded, List.getElem_append, List.getD_eq_getElem?_getD]
    by_cases hlt : i < chunk.length
    · simp [hlt]
    · simp [hlt]

theorem joinBlocks_padded : ∀ {fuel : Nat} {plain : Bytes}, plain.length ≤ fuel →
    joinBlocks ((Chaining.reads 16 fuel plain).map padded) = plain ++ padding plain.length
  | 0, [], _ => rfl
  | _ + 1, [], _ => rfl
  | fuel + 1, c :: plain, h => by
    have hrest : ((c :: plain).drop 16).length ≤ fuel := by
      simp only [List.length_drop, List.length_cons] at h ⊢
      omega
    have ih := joinBlocks_padded hrest
    rw [Chaining.reads, List.map_cons, joinBlocks, List.flatMap_cons, ← joinBlocks, ih,
      padded_toList (by simp), List.append_assoc]
    by_cases hlong : 16 ≤ (c :: plain).length
    · have hmod : ((c :: plain).drop 16).length % 16 = (c :: plain).length % 16 := by
        rw [List.length_drop]
        omega
      have hfull : ((c :: plain).take 16).length = 16 := by
        rw [List.length_take]
        omega
      rw [hfull, padding, hmod, ← padding]
      simp only [Nat.sub_self, List.replicate_zero, List.nil_append, ← List.append_assoc,
        List.take_append_drop]
    · have hwhole : (c :: plain).take 16 = c :: plain := List.take_of_length_le (by omega)
      have hnone : (c :: plain).drop 16 = [] := List.drop_of_length_le (by omega)
      have hmod : (c :: plain).length % 16 = (c :: plain).length := Nat.mod_eq_of_lt (by omega)
      rw [hwhole, hnone, padding, padding, hmod]
      simp

/-! ## Whole or stripped -/

open GostNative (unpad)

theorem all_iff_suffix {data : Bytes} {p : UInt8} (h : p.toNat ≤ data.length) :
    (data.drop (data.length - p.toNat)).all (· == p) = true ↔
      List.replicate p.toNat p <:+ data := by
  have hlength : (data.drop (data.length - p.toNat)).length = p.toNat := by
    rw [List.length_drop]
    omega
  rw [List.suffix_iff_eq_drop, List.length_replicate, @eq_comm _ (List.replicate _ _),
    List.eq_replicate_iff, List.all_eq_true]
  simp only [hlength, beq_iff_eq, true_and]

theorem candidates_eq {data : Bytes} (h : data = [] ∨ 16 ≤ data.length) :
    candidates data = data.length :: ((unpad data).map List.length).toList ∧
      ∀ stripped, unpad data = some stripped → data.take stripped.length = stripped ∧
        stripped.length ≠ data.length := by
  unfold candidates unpad
  cases hlast : data.getLast? with
  | none => simp
  | some p =>
    have hne : data ≠ [] := by
      rintro rfl
      simp at hlast
    have h16 : 16 ≤ data.length := h.resolve_left hne
    by_cases hp : p = 0 ∨ p > 15
    · have hnot : ¬ (1 ≤ p ∧ p ≤ 15 ∧ List.replicate p.toNat p <:+ data) := by
        rintro ⟨hlow, hhigh, -⟩
        rcases hp with rfl | hp
        · exact absurd hlow (by decide)
        · exact absurd hhigh (UInt8.not_le.mpr hp)
      simp [hp, hnot]
    · have hlow : 1 ≤ p.toNat := by
        have h0 : p.toNat ≠ 0 := fun h0 => hp (.inl (UInt8.toNat_inj.mp h0))
        omega
      have hhigh : p.toNat ≤ 15 := UInt8.le_iff_toNat_le.mp (UInt8.not_lt.mp fun h => hp (.inr h))
      have hall := @all_iff_suffix data p (by omega)
      have hle1 : 1 ≤ p := UInt8.le_iff_toNat_le.mpr hlow
      have hle15 : p ≤ 15 := UInt8.le_iff_toNat_le.mpr hhigh
      by_cases hsuffix : List.replicate p.toNat p <:+ data
      · have hall := hall.mpr hsuffix
        simp only [hp, hall, hle1, hle15, hsuffix, and_self, if_true, if_false, Option.map_some,
          Option.toList_some, List.length_take, Option.some.injEq, forall_eq']
        have hmin : min (data.length - p.toNat) data.length = data.length - p.toNat := by omega
        rw [hmin]
        exact ⟨rfl, rfl, by omega⟩
      · have hall : (data.drop (data.length - p.toNat)).all (· == p) = false := by
          rw [← Bool.not_eq_true, hall]
          exact hsuffix
        simp [hp, hall, hsuffix]

/-- What is opened of a text by its digest, under a function that computes digests. -/
def chosen (digest : Bytes → Bytes) (data expected : Bytes) : Option Bytes :=
  if digest data = expected then some data
  else (unpad data).filter fun stripped => digest stripped == expected

def Distinct (digest : Bytes → Bytes) (data : Bytes) : Prop :=
  ∀ stripped, unpad data = some stripped → digest data ≠ digest stripped

theorem matches_chosen {digest : Bytes → Bytes} {data expected : Bytes}
    (h : data = [] ∨ 16 ≤ data.length) (hdistinct : Distinct digest data) :
    ((candidates data).filter fun size => digest (data.take size) == expected) =
      ((chosen digest data expected).map List.length).toList ∧
    ∀ found, chosen digest data expected = some found → data.take found.length = found := by
  obtain ⟨hcandidates, hstripped⟩ := candidates_eq h
  rw [hcandidates]
  unfold chosen
  have hwhole : data.take data.length = data := List.take_length
  cases hu : unpad data with
  | none => by_cases hd : digest data = expected <;> simp [hd]
  | some stripped =>
    obtain ⟨htake, -⟩ := hstripped stripped hu
    have hne := hdistinct stripped hu
    by_cases hd : digest data = expected
    · have hother : digest stripped ≠ expected := fun he => hne (hd.trans he.symm)
      simp [hd, htake, hother]
    · by_cases hs : digest stripped = expected
      · simp [hd, hs, htake, Option.filter]
      · simp [hd, hs, htake, Option.filter]

theorem digest_of_chosen {digest : Bytes → Bytes} {data expected found : Bytes}
    (h : chosen digest data expected = some found) : digest found = expected := by
  unfold chosen at h
  by_cases hd : digest data = expected
  · simp only [hd, if_true, Option.some.injEq] at h
    rwa [← h]
  · simp only [hd, if_false, Option.filter_eq_some_iff] at h
    simpa using h.2

theorem unpad_padded {plain : Bytes} (h : plain.length % 16 ≠ 0) :
    unpad (plain ++ padding plain.length) = some plain := by
  have hr : plain.length % 16 < 16 := Nat.mod_lt _ (by omega)
  obtain ⟨k, hk, hk15⟩ : ∃ k, 16 - plain.length % 16 = k + 1 ∧ k + 1 ≤ 15 :=
    ⟨15 - plain.length % 16, by omega, by omega⟩
  have hp : (UInt8.ofNat (k + 1)).toNat = k + 1 := by
    rw [UInt8.toNat_ofNat']
    omega
  have hlow : ¬ (UInt8.ofNat (k + 1) = 0 ∨ UInt8.ofNat (k + 1) > 15) := by
    rintro (h0 | h15)
    · have := congrArg UInt8.toNat h0
      rw [hp] at this
      simp at this
    · have := UInt8.lt_iff_toNat_lt.mp h15
      rw [hp] at this
      simp at this
      omega
  have hcut : (plain ++ List.replicate (k + 1) (UInt8.ofNat (k + 1))).length - (k + 1) = plain.length := by
    simp
  rw [padding, if_neg h, hk]
  unfold unpad
  have hlast : (plain ++ List.replicate (k + 1) (UInt8.ofNat (k + 1))).getLast? =
      some (UInt8.ofNat (k + 1)) := by
    rw [List.replicate_succ', ← List.append_assoc, List.getLast?_concat]
  rw [hlast]
  simp only [hlow, hp, hcut, if_false, List.drop_left, List.take_left]
  simp

/-! ## Two readers -/

def digestOf (hashlib : Bytes → PyDigest) (alg : HashAlg) : PyDigest :=
  hashlib ((algorithms.lookup (toolName alg)).getD [])

theorem lookup_toolName (alg : HashAlg) :
    algorithms.lookup (toolName alg) = some ((algorithms.lookup (toolName alg)).getD []) := by
  cases alg <;> decide

/-- What server and script rest on: the library opens what was chained by hand, and both compute
the same digest. -/
structure Agree (lib : CryptoLibrary) (gost : Akrypt) (cipher : Bytes → Equiv.Perm Block)
    (hashlib : Bytes → PyDigest) (alg : HashAlg) : Prop where
  ready : gost.ready = true
  cbc (key : Bytes) (iv : Block) (blocks : List Block) : key.length = 32 → blocks ≠ [] →
    (gost.openCbc key iv.toList
      (joinBlocks (Chaining.sealed mix (cipher key) iv blocks))).map Vector.toList =
        some (joinBlocks blocks)
  hash (data : Bytes) : CryptoEngine.hash lib alg data = .ok ((digestOf hashlib alg).hexdigest data)

section
variable {lib : CryptoLibrary} {gost : Akrypt} {cipher : Bytes → Equiv.Perm Block}
  {hashlib : Bytes → PyDigest} {alg : HashAlg} {key expected : Bytes} {iv : Block} {cs : List Block}

theorem length_hexdigest (d : PyDigest) (data : Bytes) : (d.hexdigest data).length = d.size * 2 := by
  rw [PyDigest.hexdigest, length_toHex, Vector.length_toList]
  omega

theorem recover_frame (hkey : key.length = 32)
    (hsize : (iv.toList ++ joinBlocks cs).length ≤ GostNative.maxSize + 32)
    (hdistinct : Distinct (digestOf hashlib alg).hexdigest
      (joinBlocks (Chaining.opened mix (cipher key) iv cs))) :
    (recover hashlib (clear cipher) (iv.toList ++ joinBlocks cs) key (toolName alg) expected).toOption =
      chosen (digestOf hashlib alg).hexdigest (joinBlocks (Chaining.opened mix (cipher key) iv cs))
        expected := by
  have hlen : (iv.toList ++ joinBlocks cs).length = 16 + 16 * cs.length := by simp
  have hdata : (joinBlocks (Chaining.opened mix (cipher key) iv cs)).length = 16 * cs.length := by simp
  have hempty : joinBlocks (Chaining.opened mix (cipher key) iv cs) = [] ∨
      16 ≤ (joinBlocks (Chaining.opened mix (cipher key) iv cs)).length := by
    cases cs with
    | nil => exact .inl rfl
    | cons c cs =>
      rw [hdata, List.length_cons]
      exact .inr (by omega)
  have hdecode : (clear cipher).decoder (iv.toList ++ joinBlocks cs) key =
      .raw (joinBlocks (Chaining.opened mix (cipher key) iv cs)) := by
    have htake : key.take 32 = key := List.take_of_length_le (by omega)
    simp [clear, decryptWith, hkey, htake, decryptFile_raw]
  obtain ⟨hmatches, hfound⟩ := @matches_chosen _ _ expected hempty hdistinct
  have hname : hashlib ((algorithms.lookup (toolName alg)).getD []) = digestOf hashlib alg := rfl
  unfold recover
  rw [lookup_toolName]
  simp only [hname]
  by_cases hshape : expected.length ≠ (digestOf hashlib alg).size * 2 ∨
      expected.any (fun c => !isHexDigit c) = true
  -- what has not the shape of a digest is the digest of nothing
  · rw [if_pos hshape]
    cases hc : chosen (digestOf hashlib alg).hexdigest
      (joinBlocks (Chaining.opened mix (cipher key) iv cs)) expected with
    | none => rfl
    | some found =>
      have hd := digest_of_chosen hc
      rcases hshape with h | h
      · exact absurd (hd ▸ length_hexdigest _ found) h
      · obtain ⟨c, hmem, hdigit⟩ := List.any_eq_true.mp h
        rw [← hd] at hmem
        exact absurd hmem (not_mem_toHex (by simpa using hdigit) _)
  · rw [if_neg hshape, if_neg (by simp [clear]), if_neg (by simp [hkey]), hdecode]
    rw [GostNative.maxSize] at hsize
    rw [if_neg (by omega)]
    dsimp only
    rw [if_neg (by omega), hmatches]
    cases hc : chosen (digestOf hashlib alg).hexdigest
      (joinBlocks (Chaining.opened mix (cipher key) iv cs)) expected with
    | none => rfl
    | some found =>
      rw [← hfound found hc]
      simp [clear, Except.toOption]

theorem recoverLegacy_frame (h : Agree lib gost cipher hashlib alg) (hkey : key.length = 32)
    (hsize : (iv.toList ++ joinBlocks cs).length ≤ GostNative.maxSize + 32) :
    (GostNative.recoverLegacy lib gost (iv.toList ++ joinBlocks cs) key alg expected).toOption =
      chosen (digestOf hashlib alg).hexdigest (joinBlocks (Chaining.opened mix (cipher key) iv cs))
        expected := by
  have hlen : (iv.toList ++ joinBlocks cs).length = 16 + 16 * cs.length := by simp
  have hiv : iv.toList.length = 16 := Vector.length_toList
  have htake : (iv.toList ++ joinBlocks cs).take 16 = iv.toList := List.take_left' hiv
  have hdrop : (iv.toList ++ joinBlocks cs).drop 16 = joinBlocks cs := List.drop_left' hiv
  have hopen : (if (iv.toList ++ joinBlocks cs).length = 16 then some [] else
      (gost.openCbc key ((iv.toList ++ joinBlocks cs).take 16)
        ((iv.toList ++ joinBlocks cs).drop 16)).map Vector.toList) =
      some (joinBlocks (Chaining.opened mix (cipher key) iv cs)) := by
    rw [htake, hdrop]
    cases cs with
    | nil => simp [joinBlocks, Chaining.opened]
    | cons c cs =>
      have hcbc := h.cbc key iv (Chaining.opened mix (cipher key) iv (c :: cs)) hkey
        (by simp [Chaining.opened])
      rw [Chaining.sealed_opened (cipher key) mix_mix] at hcbc
      rw [if_neg (by rw [hlen, List.length_cons]; omega), hcbc]
  by_cases hexpected : expected = []
  · subst hexpected
    have hnone : chosen (digestOf hashlib alg).hexdigest
        (joinBlocks (Chaining.opened mix (cipher key) iv cs)) [] = none := by
      cases hc : chosen (digestOf hashlib alg).hexdigest
        (joinBlocks (Chaining.opened mix (cipher key) iv cs)) [] with
      | none => rfl
      | some found => exact absurd (digest_of_chosen hc) (CryptoEngine.hash_hex lib (h.hash found)).1
    rw [hnone, GostNative.recoverLegacy, if_pos (by simp)]
    rfl
  · unfold GostNative.recoverLegacy
    rw [if_neg (by simp only [hexpected, or_false]; omega), if_neg (by simp [h.ready])]
    simp only [hopen, h.hash, chosen, Except.ok.injEq]
    by_cases hd : (digestOf hashlib alg).hexdigest
        (joinBlocks (Chaining.opened mix (cipher key) iv cs)) = expected
    · simp [hd, Except.toOption]
    · simp only [hd, if_false]
      cases unpad (joinBlocks (Chaining.opened mix (cipher key) iv cs)) with
      | none => rfl
      | some stripped =>
        by_cases hs : (digestOf hashlib alg).hexdigest stripped = expected
        · simp [hs, Except.toOption, Option.filter]
        · simp [hs, Except.toOption, Option.filter]

theorem refused {file : Bytes} (s : Surroundings) (h : key.length ≠ 32 ∨ file.length < 16 ∨
    (file.length - 16) % 16 ≠ 0 ∨ file.length > GostNative.maxSize + 32) :
    (recover hashlib s file key (toolName alg) expected).toOption = none ∧
      (GostNative.recoverLegacy lib gost file key alg expected).toOption = none := by
  constructor
  · have hshape : ¬ (¬ key.length ≠ 32 ∧ ¬ (file.length < 16 ∨ (file.length - 16) % 16 ≠ 0 ∨
        file.length > 100 * 1024 * 1024 + 32)) := by
      rw [GostNative.maxSize] at h
      tauto
    unfold recover
    rw [lookup_toolName]
    simp only
    repeat' split
    all_goals first | rfl | exact absurd ⟨‹_›, ‹_›⟩ hshape
  · unfold GostNative.recoverLegacy
    rw [if_pos (by tauto)]
    rfl

theorem digest_of_recover {s : Surroundings} {file algorithm data : Bytes}
    (h : recover hashlib s file key algorithm expected = .ok data) :
    ∃ name, algorithms.lookup algorithm = some name ∧ (hashlib name).hexdigest data = expected := by
  unfold recover at h
  cases hname : algorithms.lookup algorithm with
  | none => simp [hname] at h
  | some name =>
    rw [hname] at h
    refine ⟨name, rfl, ?_⟩
    dsimp only at h
    split at h
    · cases h
    split at h
    · cases h
    split at h
    · cases h
    split at h
    · cases h
    split at h
    · cases h
    · cases h
    rename_i text _
    split at h
    · cases h
    split at h
    · rename_i size hmatch
      split at h
      · cases h
        have hmem : size ∈ (candidates text).filter fun n =>
            (hashlib name).hexdigest (text.take n) == expected := by simp [hmatch]
        simpa using (List.mem_filter.mp hmem).2
      · cases h
    · cases h

theorem digest_of_recoverLegacy {file data : Bytes}
    (h : GostNative.recoverLegacy lib gost file key alg expected = .ok data) :
    CryptoEngine.hash lib alg data = .ok expected := by
  unfold GostNative.recoverLegacy at h
  split at h
  · cases h
  split at h
  · cases h
  dsimp only at h
  split at h
  · cases h
  split at h
  · cases h
  rename_i calculated hcalculated
  by_cases hd : calculated = expected
  · rw [if_pos hd] at h
    cases h
    rw [hcalculated, hd]
  · rw [if_neg hd] at h
    split at h
    · cases h
    rename_i stripped _
    by_cases hs : CryptoEngine.hash lib alg stripped = .ok expected
    · rw [if_pos hs] at h
      cases h
      exact hs
    · rw [if_neg hs] at h
      cases h

theorem chosen_padded {digest : Bytes → Bytes} {plain : Bytes}
    (h : Distinct digest (plain ++ padding plain.length)) :
    chosen digest (plain ++ padding plain.length) (digest plain) = some plain := by
  unfold chosen
  by_cases hr : plain.length % 16 = 0
  · have hnone : padding plain.length = [] := by rw [padding, if_pos hr]
    simp [hnone]
  · have hunpad := unpad_padded hr
    rw [if_neg (h plain hunpad), hunpad]
    simp [Option.filter]

end

theorem ok_of_toOption {ε α : Type} {x : Except ε α} {a : α} (h : x.toOption = some a) : x = .ok a := by
  cases x with
  | error e => cases h
  | ok b =>
    cases h
    rfl

/-- **Both readers of the old files.** Given the digest of the text, both give back a file of the
old program as it was; neither gives out a text with another digest; and on every file, digest and
key the two accept the same text or none. -/
theorem legacy_recovery {lib : CryptoLibrary} {gost : Akrypt} {cipher : Bytes → Equiv.Perm Block}
    {hashlib : Bytes → PyDigest} {alg : HashAlg} (h : Agree lib gost cipher hashlib alg) :
    (∀ key iv plain, key.length = 32 → plain.length ≤ 100 * 1024 * 1024 →
      Distinct (digestOf hashlib alg).hexdigest (plain ++ padding plain.length) →
      GostNative.recoverLegacy lib gost (encryptFile (cipher key) iv plain) key alg
          ((digestOf hashlib alg).hexdigest plain) = .ok plain ∧
        recover hashlib (clear cipher) (encryptFile (cipher key) iv plain) key (toolName alg)
          ((digestOf hashlib alg).hexdigest plain) = .ok plain) ∧
    (∀ file key digest data, GostNative.recoverLegacy lib gost file key alg digest = .ok data →
      (digestOf hashlib alg).hexdigest data = digest) ∧
    (∀ s file key digest data, recover hashlib s file key (toolName alg) digest = .ok data →
      (digestOf hashlib alg).hexdigest data = digest) ∧
    ∀ file key digest, (∀ data, decryptWith cipher true file key = some data →
        Distinct (digestOf hashlib alg).hexdigest data) →
      (GostNative.recoverLegacy lib gost file key alg digest).toOption =
        (recover hashlib (clear cipher) file key (toolName alg) digest).toOption := by
  refine ⟨fun key iv plain hkey hplain hdistinct => ?_, fun file key digest data hok => ?_,
    fun s file key digest data hok => ?_, fun file key digest hdistinct => ?_⟩
  -- opening undoes the chaining, so the padded text is there
  · have hopened := Chaining.opened_sealed (cipher key) mix_mix iv ((Chaining.pieces 16 plain).map padded)
    have htext : joinBlocks ((Chaining.pieces 16 plain).map padded) = plain ++ padding plain.length :=
      joinBlocks_padded (Nat.le_refl _)
    have hsize : (iv.toList ++ joinBlocks (Chaining.sealed mix (cipher key) iv
        ((Chaining.pieces 16 plain).map padded))).length ≤ GostNative.maxSize + 32 := by
      have hlength := congrArg List.length htext
      have hpadding : (padding plain.length).length ≤ 16 := by
        unfold padding
        split <;> simp
      simp only [length_joinBlocks, List.length_map, List.length_append] at hlength
      simp only [List.length_append, Vector.length_toList, length_joinBlocks, Chaining.length_sealed,
        List.length_map, GostNative.maxSize]
      omega
    have hchosen := chosen_padded hdistinct
    rw [← htext, ← hopened] at hchosen hdistinct
    exact ⟨ok_of_toOption ((recoverLegacy_frame h hkey hsize).trans hchosen),
      ok_of_toOption ((recover_frame hkey hsize hdistinct).trans hchosen)⟩
  · have hhash := digest_of_recoverLegacy hok
    rw [h.hash data] at hhash
    exact Except.ok.inj hhash
  · obtain ⟨name, hname, hdigest⟩ := digest_of_recover hok
    rw [digestOf, hname]
    exact hdigest
  · by_cases hbad : key.length ≠ 32 ∨ file.length < 16 ∨ (file.length - 16) % 16 ≠ 0 ∨
        file.length > GostNative.maxSize + 32
    · obtain ⟨hscript, hserver⟩ := @refused lib gost hashlib alg key digest file (clear cipher) hbad
      rw [hscript, hserver]
    · simp only [not_or, not_not, Nat.not_lt] at hbad
      obtain ⟨hkey, h16, hmod, hsize⟩ := hbad
      obtain ⟨iv, cs, rfl⟩ := exists_frame h16 hmod
      have htake : key.take 32 = key := List.take_of_length_le (by omega)
      have hopen := hdistinct (joinBlocks (Chaining.opened mix (cipher key) iv cs))
        (by simp [decryptWith, hkey, htake, decryptFile_raw])
      rw [recoverLegacy_frame h hkey hsize, recover_frame hkey hsize hopen]

/-! ## Three bytes -/

def plainGost : Akrypt where
  ready := true
  sealMgm _ _ _ _ _ := none
  openMgm _ _ _ _ _ _ := none
  openCbc _ iv data :=
    match decryptFile (Equiv.refl Block) true (iv ++ data) with
    | none => none
    | some out => if h : out.length = data.length then some ⟨out.toArray, h⟩ else none

def lengthDigest (data : Bytes) : Vector UInt8 32 := Vector.replicate 32 (UInt8.ofNat data.length)

def lengthLibrary : CryptoLibrary where
  cipherByName _ := none
  sealCipher _ := .error []
  openCipher _ := .error []
  sha256 := .of32 fun data => some (lengthDigest data)
  sha512 := .of32 fun data => some (lengthDigest data)
  digestByName _ := none
  gost := some plainGost

def lengthHashlib (_ : Bytes) : PyDigest := ⟨32, lengthDigest⟩

theorem agree_lengthLibrary :
    Agree lengthLibrary plainGost (fun _ => Equiv.refl Block) lengthHashlib .streebog where
  ready := rfl
  cbc key iv blocks _ _ := by
    have hopen := decryptFile_raw (Equiv.refl Block) iv (Chaining.sealed mix (Equiv.refl Block) iv blocks)
    rw [Chaining.opened_sealed (Equiv.refl Block) mix_mix] at hopen
    simp only [plainGost, hopen]
    simp [Vector.toList]
  hash _ := rfl

theorem legacy_recovery_three :
    GostNative.recoverLegacy lengthLibrary plainGost
        (encryptFile (Equiv.refl Block) (Vector.replicate 16 7) [1, 2, 3]) (List.replicate 32 9) .streebog
        ((digestOf lengthHashlib .streebog).hexdigest [1, 2, 3]) = .ok [1, 2, 3] ∧
      recover lengthHashlib (clear fun _ => Equiv.refl Block)
        (encryptFile (Equiv.refl Block) (Vector.replicate 16 7) [1, 2, 3]) (List.replicate 32 9)
        (toolName .streebog) ((digestOf lengthHashlib .streebog).hexdigest [1, 2, 3]) = .ok [1, 2, 3] := by
  refine (legacy_recovery agree_lengthLibrary).1 (List.replicate 32 9) (Vector.replicate 16 7) [1, 2, 3]
    (by decide) (by decide) fun stripped hstripped => ?_
  have hunpad := @unpad_padded [1, 2, 3] (by decide)
  rw [hunpad] at hstripped
  cases hstripped
  decide

end LegacyGost

end EncoderNext
