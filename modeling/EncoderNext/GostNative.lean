import EncoderNext.Crypto
import EncoderNext.Records
import EncoderNext.ServerCall

/-!
# GOST frames

Magma and Kuznyechik in MGM mode write one frame: a header that names cipher,
block and length and is authenticated with the data, the IV, the data and the
tag. Older files are CBC without a header and only open against a trusted
digest.
-/

namespace EncoderNext

open Program

structure CryptoResult extends KeyMaterial where
  data : Bytes := []

namespace GostNative

def headerSize : Nat := 18
def maxSize : Nat := 100 * 1024 * 1024
def magic : Bytes := bytes "ENGOST02"
def failure : Bytes := bytes "GOST-MGM operation failed or data authentication rejected"

def id (cipher : Cipher) : UInt8 :=
  if cipher = .magma then 1 else if cipher = .kuznechik then 2 else 0

def putLe : Nat → Nat → Bytes
  | 0, _ => []
  | k + 1, n => UInt8.ofNat n :: putLe k (n / 256)

def getLe : Bytes → Nat
  | [] => 0
  | c :: rest => c.toNat + 256 * getLe rest

def frameHeader (cipher : Cipher) (size : Nat) : Bytes :=
  magic ++ [id cipher, UInt8.ofNat (gostBlock cipher)] ++ putLe 8 size

/-- MGM reserves the highest bit of the IV. -/
def clearHigh (block : Nat) (iv : Bytes) : Bytes :=
  (iv.modify 0 (· &&& 0x7f)).modify (block - 1) (· &&& 0x7f)

def frame (cipher : Cipher) (size : Nat) (iv data tag : Bytes) : Bytes :=
  frameHeader cipher size ++ iv ++ data ++ tag

def encrypt (lib : Akrypt) (cipher : Cipher) (plain : Bytes) :
    ServerProgram (Except Bytes CryptoResult) := do
  if id cipher = 0 ∨ plain.length > maxSize ∨ lib.ready = false then return .error failure
  else do
    let (keyDrawn, key) ← act (.random 32)
    if keyDrawn = false then return .error failure
    else do
      let (ivDrawn, iv) ← act (.random (gostBlock cipher))
      if ivDrawn = false then return .error failure
      else
        let iv := clearHigh (gostBlock cipher) iv.toList
        match lib.sealMgm cipher key.toList (frameHeader cipher plain.length) plain iv with
        | none => return .error failure
        | some (data, tag) =>
          return .ok { data := frame cipher plain.length iv data.toList tag.toList, key := key.toList }

def openFrame (lib : Akrypt) (cipher : Cipher) (key aad data iv tag : Bytes) : Except Bytes Bytes :=
  match lib.openMgm cipher key aad data iv tag with
  | none => .error failure
  | some plain => .ok plain.toList

/-- The plaintext of a frame; the length field is a 64-bit number. -/
def opened (lib : Akrypt) (cipher : Cipher) (frame key : Bytes) : Except Bytes Bytes :=
  let block := gostBlock cipher
  if id cipher = 0 ∨ key.length ≠ 32 ∨ frame.length < headerSize then .error failure
  else if frame.take 10 ≠ magic ++ [id cipher, UInt8.ofNat block] then .error failure
  else
    let size := UInt64.ofNat (getLe (slice frame 10 8))
    if size.toNat > maxSize ∨ frame.length ≠ (UInt64.ofNat (headerSize + block * 2) + size).toNat then
      .error failure
    else if lib.ready = false then .error failure
    else
      openFrame lib cipher key (frame.take headerSize)
        (slice frame (headerSize + block) size.toNat) (slice frame headerSize block)
        (slice frame (headerSize + block + size.toNat) block)

def decrypt (lib : Akrypt) (cipher : Cipher) (frame key : Bytes) (out : CryptoResult) :
    Except Bytes Unit × CryptoResult :=
  match opened lib cipher frame key with
  | .error e => (.error e, out)
  | .ok plain => (.ok (), { data := plain })

def unpad (plain : Bytes) : Option Bytes :=
  match plain.getLast? with
  | none => none
  | some padding =>
    if padding = 0 ∨ padding > 15 then none
    else if (plain.drop (plain.length - padding.toNat)).all (· == padding) then
      some (plain.take (plain.length - padding.toNat))
    else none

def recoverLegacy (lib : CryptoLibrary) (gost : Akrypt) (frame key : Bytes) (hash : HashAlg)
    (digest : Bytes) : Except Bytes Bytes :=
  if key.length ≠ 32 ∨ frame.length < 16 ∨ (frame.length - 16) % 16 ≠ 0 ∨
      frame.length > maxSize + 32 ∨ digest = [] then .error failure
  else if gost.ready = false then .error failure
  else
    let opened :=
      if frame.length = 16 then some [] else
        (gost.openCbc key (frame.take 16) (frame.drop 16)).map (·.toList)
    match opened with
    | none => .error failure
    | some plain =>
      match CryptoEngine.hash lib hash plain with
      | .error e => .error e
      | .ok calculated =>
        -- padding is only stripped where the whole text has another digest
        if calculated = digest then .ok plain
        else
          match unpad plain with
          | none => .error failure
          | some plain =>
            if CryptoEngine.hash lib hash plain = .ok digest then .ok plain else .error failure

/-! ## Opening what was sealed -/

@[simp] theorem length_putLe : ∀ k n : Nat, (putLe k n).length = k
  | 0, _ => rfl
  | k + 1, n => by simp [putLe, length_putLe k]

theorem getLe_putLe : ∀ k n : Nat, getLe (putLe k n) = n % 256 ^ k
  | 0, n => by simp [putLe, getLe, Nat.mod_one]
  | k + 1, n => by
    have hlow : (UInt8.ofNat n).toNat = n % 256 := by simp
    rw [putLe, getLe, getLe_putLe k, hlow, Nat.pow_succ', Nat.mod_mul]

theorem getLe_lt : ∀ b : Bytes, getLe b < 256 ^ b.length
  | [] => by simp [getLe]
  | c :: b => by
    have hc : c.toNat < 256 := c.toNat_lt
    have ih := getLe_lt b
    rw [getLe, List.length_cons, Nat.pow_succ]
    omega

theorem putLe_getLe : ∀ b : Bytes, putLe b.length (getLe b) = b
  | [] => rfl
  | c :: b => by
    have hc : c.toNat < 256 := c.toNat_lt
    have hhigh : (c.toNat + 256 * getLe b) / 256 = getLe b := by omega
    have hlow : UInt8.ofNat (c.toNat + 256 * getLe b) = c := by
      apply UInt8.toNat_inj.mp
      rw [UInt8.toNat_ofNat']
      omega
    rw [getLe, List.length_cons, putLe, hhigh, hlow, putLe_getLe b]

@[simp] theorem length_clearHigh (block : Nat) (iv : Bytes) :
    (clearHigh block iv).length = iv.length := by
  simp [clearHigh]

@[simp] theorem length_frameHeader (cipher : Cipher) (size : Nat) :
    (frameHeader cipher size).length = headerSize := by
  simp [frameHeader, headerSize, magic, bytes]

structure Sealed (lib : Akrypt) (cipher : Cipher) (plain : Bytes) (r : CryptoResult) : Prop where
  named : id cipher ≠ 0
  size : plain.length ≤ maxSize
  ready : lib.ready = true
  keySize : r.key.length = 32
  noIv : r.iv = []
  noTag : r.tag = []
  frame : ∃ iv data tag, iv.length = gostBlock cipher ∧
    lib.sealMgm cipher r.key (frameHeader cipher plain.length) plain iv = some (data, tag) ∧
    r.data = GostNative.frame cipher plain.length iv data.toList tag.toList

theorem length_frame {cipher : Cipher} {iv : Bytes} {n : Nat} (data : Vector UInt8 n)
    (tag : Vector UInt8 (gostBlock cipher)) (hiv : iv.length = gostBlock cipher) :
    (frame cipher n iv data.toList tag.toList).length = headerSize + gostBlock cipher * 2 + n := by
  simp only [frame, List.length_append, length_frameHeader, hiv, Vector.length_toList]
  omega

/-- The length of a whole frame does not wrap. -/
theorem frameSize_exact (cipher : Cipher) {size : UInt64} (h : size.toNat ≤ maxSize) :
    (UInt64.ofNat (headerSize + gostBlock cipher * 2) + size).toNat =
      headerSize + gostBlock cipher * 2 + size.toNat := by
  have hblock : gostBlock cipher ≤ 16 := by
    unfold gostBlock
    split <;> omega
  have hfront : (UInt64.ofNat (headerSize + gostBlock cipher * 2)).toNat =
      headerSize + gostBlock cipher * 2 := by
    refine UInt64.toNat_ofNat_of_lt' ?_
    simp only [headerSize, UInt64.size]
    omega
  rw [UInt64.toNat_add, hfront]
  refine Nat.mod_eq_of_lt ?_
  simp only [headerSize, maxSize] at h ⊢
  omega

/-- The test of the 64-bit length field is the one of exact numbers. -/
theorem sizeTest_exact (cipher : Cipher) (size : UInt64) (n : Nat) :
    (size.toNat > maxSize ∨ n ≠ (UInt64.ofNat (headerSize + gostBlock cipher * 2) + size).toNat) ↔
      ¬(size.toNat ≤ maxSize ∧ n = headerSize + gostBlock cipher * 2 + size.toNat) := by
  rw [not_and_or, Nat.not_le]
  by_cases h : size.toNat ≤ maxSize
  · rw [frameSize_exact cipher h]
  · exact iff_of_true (.inl (Nat.lt_of_not_le h)) (.inl (Nat.lt_of_not_le h))

theorem opened_refused {lib : Akrypt} {cipher : Cipher} {image key : Bytes}
    (h : ¬(getLe (slice image 10 8) ≤ maxSize ∧
      image.length = headerSize + gostBlock cipher * 2 + getLe (slice image 10 8))) :
    opened lib cipher image key = .error failure := by
  have hlt : getLe (slice image 10 8) < 256 ^ 8 :=
    Nat.lt_of_lt_of_le (getLe_lt _) (Nat.pow_le_pow_right (by decide) (List.length_take_le _ _))
  have hfield : (UInt64.ofNat (getLe (slice image 10 8))).toNat = getLe (slice image 10 8) :=
    UInt64.toNat_ofNat_of_lt' hlt
  unfold opened
  dsimp only
  split
  · rfl
  split
  · rfl
  rw [if_pos ((sizeTest_exact cipher _ _).mpr (by rwa [hfield]))]

theorem opened_frame {lib : Akrypt} {cipher : Cipher} {key iv : Bytes} {n : Nat}
    {data : Vector UInt8 n} {tag : Vector UInt8 (gostBlock cipher)} (hid : id cipher ≠ 0)
    (hready : lib.ready = true) (hkey : key.length = 32) (hn : n ≤ maxSize)
    (hiv : iv.length = gostBlock cipher) :
    opened lib cipher (frame cipher n iv data.toList tag.toList) key =
      openFrame lib cipher key (frameHeader cipher n) data.toList iv tag.toList := by
  have hlen := length_frame data tag hiv
  have hhead : (frame cipher n iv data.toList tag.toList).take 10 =
      magic ++ [id cipher, UInt8.ofNat (gostBlock cipher)] := by
    simp only [frame, frameHeader, List.append_assoc]
    rfl
  have hsize : slice (frame cipher n iv data.toList tag.toList) 10 8 = putLe 8 n := by
    have hcut : frame cipher n iv data.toList tag.toList =
        (magic ++ [id cipher, UInt8.ofNat (gostBlock cipher)]) ++ putLe 8 n ++
          (iv ++ data.toList ++ tag.toList) := by
      simp only [frame, frameHeader, List.append_assoc]
    rw [hcut]
    exact slice_mid rfl (length_putLe 8 n)
  -- no length that is allowed wraps
  have hvalue : (UInt64.ofNat (getLe (putLe 8 n))).toNat = n := by
    have hmax : maxSize < 2 ^ 64 := by decide
    have hmod : n % 256 ^ 8 = n := Nat.mod_eq_of_lt (by omega)
    rw [getLe_putLe, hmod]
    exact UInt64.toNat_ofNat_of_lt' (by simp only [UInt64.size]; omega)
  have hwhole := @frameSize_exact cipher (UInt64.ofNat (getLe (putLe 8 n))) (by rw [hvalue]; exact hn)
  have haad : (frame cipher n iv data.toList tag.toList).take headerSize = frameHeader cipher n := by
    rw [frame, List.append_assoc, List.append_assoc, ← length_frameHeader cipher n, List.take_left]
  have hivs : slice (frame cipher n iv data.toList tag.toList) headerSize (gostBlock cipher) = iv := by
    rw [frame, List.append_assoc]
    exact slice_mid (length_frameHeader cipher n) hiv
  have hdata : slice (frame cipher n iv data.toList tag.toList) (headerSize + gostBlock cipher) n =
      data.toList :=
    slice_mid (by rw [List.length_append, length_frameHeader, hiv]) (Vector.length_toList ..)
  have htag : slice (frame cipher n iv data.toList tag.toList)
      (headerSize + gostBlock cipher + n) (gostBlock cipher) = tag.toList := by
    have hcut : frame cipher n iv data.toList tag.toList =
        (frameHeader cipher n ++ iv ++ data.toList) ++ tag.toList ++ [] := by
      rw [List.append_nil]
      rfl
    rw [hcut]
    refine slice_mid ?_ (Vector.length_toList ..)
    simp only [List.length_append, length_frameHeader, hiv, Vector.length_toList]
  rw [hvalue] at hwhole
  unfold opened
  simp only [hsize, hvalue, hwhole, hlen, hhead, haad, hivs, hdata, htag]
  rw [if_neg (by simp [hid, hkey]; omega), if_neg (by simp), if_neg (by simp; omega),
    if_neg (by simp [hready])]

theorem openFrame_ok {lib : Akrypt} {cipher : Cipher} {key aad data iv tag plain : Bytes} :
    openFrame lib cipher key aad data iv tag = .ok plain ↔
      (lib.openMgm cipher key aad data iv tag).map Vector.toList = some plain := by
  unfold openFrame
  cases lib.openMgm cipher key aad data iv tag <;> simp

/-- **What is sealed opens again.** -/
theorem opened_sealed {lib : Akrypt} (hinv : lib.Inverts) {cipher : Cipher} {plain : Bytes}
    {r : CryptoResult} (h : Sealed lib cipher plain r) : opened lib cipher r.data r.key = .ok plain := by
  obtain ⟨iv, data, tag, hiv, hseal, hdata⟩ := h.frame
  rw [hdata, opened_frame h.named h.ready h.keySize h.size hiv]
  exact openFrame_ok.mpr (hinv hseal)

/-- **What opens is a whole frame**, and its header was authenticated. -/
theorem frame_of_opened {lib : Akrypt} {cipher : Cipher} {image key plain : Bytes}
    (h : opened lib cipher image key = .ok plain) :
    id cipher ≠ 0 ∧ key.length = 32 ∧ ∃ iv data tag : Bytes,
      iv.length = gostBlock cipher ∧ tag.length = gostBlock cipher ∧ data.length ≤ maxSize ∧
      image = frame cipher data.length iv data tag ∧
      (lib.openMgm cipher key (frameHeader cipher data.length) data iv tag).map Vector.toList =
        some plain := by
  unfold opened at h
  dsimp only at h
  split at h
  · cases h
  rename_i hshape
  split at h
  · cases h
  rename_i hhead
  split at h
  · cases h
  rename_i hsize
  split at h
  · cases h
  simp only [not_or, ne_eq, Decidable.not_not, Nat.not_lt] at hshape hhead hsize
  obtain ⟨hid, hkey, hmin⟩ := hshape
  obtain ⟨hmax, hlen⟩ := hsize
  rw [frameSize_exact cipher hmax] at hlen
  let size := (UInt64.ofNat (getLe (slice image 10 8))).toNat
  have hlen : image.length = headerSize + gostBlock cipher * 2 + size := hlen
  have hiv : (slice image headerSize (gostBlock cipher)).length = gostBlock cipher :=
    length_slice (by omega)
  have hdata : (slice image (headerSize + gostBlock cipher) size).length = size :=
    length_slice (by omega)
  have htag : (slice image (headerSize + gostBlock cipher + size) (gostBlock cipher)).length =
      gostBlock cipher := length_slice (by omega)
  -- the length field spells the number that is read of it
  have hnumber : putLe 8 size = slice image 10 8 := by
    have hfield : (slice image 10 8).length = 8 := length_slice (by simp only [headerSize] at hmin; omega)
    have hlt := getLe_lt (slice image 10 8)
    have hback := putLe_getLe (slice image 10 8)
    rw [hfield] at hlt hback
    have hsame : size = getLe (slice image 10 8) :=
      UInt64.toNat_ofNat_of_lt' (by simp only [UInt64.size]; omega)
    rw [hsame, hback]
  have hheader : frameHeader cipher size = image.take headerSize := by
    have hjoin : image.take 10 ++ slice image 10 8 = image.take headerSize := slice_add image 0 10 8
    rw [frameHeader, ← hhead, hnumber, hjoin]
  -- the parts that are read lie side by side
  have hwhole : image = frame cipher size (slice image headerSize (gostBlock cipher))
      (slice image (headerSize + gostBlock cipher) size)
      (slice image (headerSize + gostBlock cipher + size) (gostBlock cipher)) := by
    have h1 := slice_add image 0 headerSize (gostBlock cipher)
    have h2 := slice_add image 0 (headerSize + gostBlock cipher) size
    have h3 := slice_add image 0 (headerSize + gostBlock cipher + size) (gostBlock cipher)
    rw [Nat.zero_add] at h1 h2 h3
    have hfirst : image.take headerSize = slice image 0 headerSize := rfl
    have hall : slice image 0 (headerSize + gostBlock cipher + size + gostBlock cipher) = image :=
      List.take_of_length_le (by simp only [List.drop_zero]; omega)
    rw [frame, hheader, hfirst, h1, h2, h3, hall]
  refine ⟨hid, hkey, _, _, _, hiv, htag, by rw [hdata]; exact hmax, by rw [hdata]; exact hwhole, ?_⟩
  rw [← openFrame_ok, hdata, hheader]
  exact h

theorem encrypt_spec {W : Type} {env : Env W ServerCall ServerCall.Reply} {K : W → Prop}
    (hdraw : ∀ w n r w', K w → env w (.random n) r w' → K w') (lib : Akrypt) (cipher : Cipher)
    (plain : Bytes) {w : W} (hw : K w) :
    wp env (fun r _ => ∀ res, r = .ok res → Sealed lib cipher plain res) K
      (encrypt lib cipher plain) w := by
  unfold encrypt
  split
  · exact ⟨hw, fun _ he => by cases he⟩
  rename_i hshape
  simp only [not_or, Nat.not_lt, Bool.not_eq_false] at hshape
  obtain ⟨hid, hsize, hready⟩ := hshape
  rw [wp_ask_bind]
  refine ⟨hw, fun r w₁ h₁ => ?_⟩
  have hw₁ := hdraw _ _ _ _ hw h₁
  obtain ⟨keyDrawn, key⟩ := r
  dsimp only
  split
  · exact ⟨hw₁, fun _ he => by cases he⟩
  rw [wp_ask_bind]
  refine ⟨hw₁, fun r w₂ h₂ => ?_⟩
  have hw₂ := hdraw _ _ _ _ hw₁ h₂
  obtain ⟨ivDrawn, iv⟩ := r
  dsimp only
  split
  · exact ⟨hw₂, fun _ he => by cases he⟩
  split
  · exact ⟨hw₂, fun _ he => by cases he⟩
  · rename_i data tag hseal
    refine ⟨hw₂, fun res he => ?_⟩
    cases he
    exact
      { named := hid
        size := hsize
        ready := hready
        keySize := Vector.length_toList
        noIv := rfl
        noTag := rfl
        frame := ⟨_, data, tag, by simp, hseal, rfl⟩ }

def drawing (key iv : Bytes) : Env Unit ServerCall ServerCall.Reply
  | _, .random n, r, _ =>
    r.1 = true ∧ (n = key.length → r.2.toList = key) ∧ (n = iv.length → r.2.toList = iv)
  | _, _, _, _ => True

theorem drawing_total {key iv : Bytes} (h : key.length ≠ iv.length) (w : Unit) (c : ServerCall) :
    ∃ r w', drawing key iv w c r w' := by
  have hanswer : ∃ r : c.Reply, drawing key iv w c r () := by
    cases c with
    | random n =>
      by_cases hkey : n = key.length
      · subst hkey
        exact ⟨(true, ⟨key.toArray, by simp⟩), rfl, fun _ => rfl, fun hn => absurd hn h⟩
      · by_cases hiv : n = iv.length
        · subst hiv
          exact ⟨(true, ⟨iv.toArray, by simp⟩), rfl, fun hn => absurd hn hkey, fun _ => rfl⟩
        · exact ⟨(true, .replicate n 0), rfl, fun hn => absurd hn hkey, fun hn => absurd hn hiv⟩
    | _ => exact ⟨ServerCall.plain 0 _, trivial⟩
  obtain ⟨r, hr⟩ := hanswer
  exact ⟨r, (), hr⟩

theorem encrypt_works {lib : Akrypt} {cipher : Cipher} {plain : Bytes} {key : Vector UInt8 32}
    {iv : Vector UInt8 (gostBlock cipher)} {data : Vector UInt8 plain.length}
    {tag : Vector UInt8 (gostBlock cipher)} (hid : id cipher ≠ 0) (hsize : plain.length ≤ maxSize)
    (hready : lib.ready = true)
    (hseal : lib.sealMgm cipher key.toList (frameHeader cipher plain.length) plain
      (clearHigh (gostBlock cipher) iv.toList) = some (data, tag)) :
    wp (drawing key.toList iv.toList) (fun r _ => r = .ok
        { data := frame cipher plain.length (clearHigh (gostBlock cipher) iv.toList) data.toList
            tag.toList
          key := key.toList }) (fun _ => True) (encrypt lib cipher plain) () := by
  unfold encrypt
  rw [if_neg (by simp [hid, hready]; omega), wp_ask_bind]
  refine ⟨trivial, fun r _ ⟨hdrawn, hkey, _⟩ => ?_⟩
  obtain ⟨keyDrawn, key'⟩ := r
  obtain rfl : keyDrawn = true := hdrawn
  have hkey : key'.toList = key.toList := hkey (by simp)
  dsimp only
  rw [if_neg (by decide), wp_ask_bind]
  refine ⟨trivial, fun r _ ⟨hdrawn, _, hiv⟩ => ?_⟩
  obtain ⟨ivDrawn, iv'⟩ := r
  obtain rfl : ivDrawn = true := hdrawn
  have hiv : iv'.toList = iv.toList := hiv (by simp)
  dsimp only
  rw [if_neg (by decide), hkey, hiv, hseal]
  exact ⟨trivial, rfl⟩

end GostNative

end EncoderNext
