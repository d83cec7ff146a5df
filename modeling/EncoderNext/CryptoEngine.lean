import EncoderNext.GostNative

/-!
# The crypto engine

Encryption draws a key and an IV and hands both to the caller with the data;
decryption takes them back. Magma and Kuznyechik go to the GOST library.
-/

namespace EncoderNext

open Program

namespace CryptoEngine

variable (lib : CryptoLibrary)

def evpOf (spec : CipherSpec) : Option (Bytes × EvpCipher) :=
  spec.opensslName.bind fun name => (lib.cipherByName name).map fun evp => (name, evp)

def keySize (evp : EvpCipher) : Nat := evp.keyLength.toInt.toNat

/-- A negative length counts as none. -/
def ivSize (evp : EvpCipher) : Nat := evp.ivLength.toInt.toNat

def evpCall (spec : CipherSpec) (evp : Bytes × EvpCipher) (key iv data : Bytes)
    (tag : Option Bytes) : EvpCall where
  name := evp.1
  aead := spec.aead
  ccm := spec.ccm
  padding := if spec.aead then none else some (evp.2.mode == .cbc || evp.2.mode == .ecb)
  key := key
  iv := if iv = [] then none else some iv
  data := data
  tag := tag

def drawIv (size : Nat) : ServerProgram (Bool × Bytes) := do
  if size = 0 then return (true, [])
  else do
    let (drawn, iv) ← act (.random size)
    return (drawn, iv.toList)

def encryptEvp (spec : CipherSpec) (evp : Bytes × EvpCipher) (plain : Bytes) :
    ServerProgram (Except Bytes CryptoResult) := do
  if evp.2.keyLength.toInt ≤ 0 then return .error (bytes "Invalid key length for cipher")
  else do
    let (keyDrawn, key) ← act (.random (keySize evp.2))
    if keyDrawn = false then return .error (bytes "RAND_bytes failed (key)")
    else do
      let (ivDrawn, iv) ← drawIv (ivSize evp.2)
      if ivDrawn = false then return .error (bytes "RAND_bytes failed (iv)")
      else
        match lib.sealCipher (evpCall spec evp key.toList iv plain none) with
        | .error e => return .error e
        | .ok (data, tag) =>
          return .ok
            { data := data, key := key.toList, iv := iv, tag := if spec.aead then tag.toList else [] }

def unavailable (spec : CipherSpec) : Bytes :=
  bytes "Cipher is not available in OpenSSL: " ++ spec.wireName

def encrypt (cipher : Cipher) (plain : Bytes) : ServerProgram (Except Bytes CryptoResult) :=
  match findSpec cipher with
  | none => pure (.error (bytes "Unsupported cipher"))
  | some spec =>
    if spec.gost then
      match lib.gost with
      | none => pure (.error
          (bytes "Native GOST-MGM backend is not enabled; legacy encryption is disabled"))
      | some gost => GostNative.encrypt gost cipher plain
    else
      match evpOf lib spec with
      | none => pure (.error (unavailable spec))
      | some evp => encryptEvp lib spec evp plain

/-- The result is emptied first, and only filled by a success. -/
def decrypt (cipher : Cipher) (ciphertext : Bytes) (m : KeyMaterial) (_out : CryptoResult) :
    Except Bytes Unit × CryptoResult :=
  let out : CryptoResult := {}
  match findSpec cipher with
  | none => (.error (bytes "Unsupported cipher"), out)
  | some spec =>
    if spec.gost then
      match lib.gost with
      | none => (.error
          (bytes "Native GOST-MGM backend is not enabled; legacy files require verified recovery"),
          out)
      | some gost => GostNative.decrypt gost cipher ciphertext m.key out
    else if spec.aead && m.tag == [] then
      (.error (bytes "Missing authentication tag for AEAD cipher"), out)
    else
      match evpOf lib spec with
      | none => (.error (unavailable spec), out)
      | some evp =>
        match lib.openCipher (evpCall spec evp m.key m.iv ciphertext
          (if spec.aead then some m.tag else none)) with
        | .error e => (.error e, out)
        | .ok plain => (.ok (), { out with data := plain })

def recoverLegacyGost (ciphertext key : Bytes) (hash : HashAlg) (digest : Bytes)
    (out : CryptoResult) : Except Bytes Unit × CryptoResult :=
  let out := { out with data := [] }
  match lib.gost with
  | none => (.error (bytes "Native GOST backend required for verified legacy recovery"), out)
  | some gost =>
    match GostNative.recoverLegacy lib gost ciphertext key hash digest with
    | .error e => (.error e, out)
    | .ok plain => (.ok (), { out with data := plain })

/-! ## Decryption inverts encryption -/

inductive Encrypted (cipher : Cipher) (plain : Bytes) (r : CryptoResult) : Prop
  | gost {spec : CipherSpec} {gost : Akrypt} (hspec : findSpec cipher = some spec)
      (hkind : spec.gost = true) (hlib : lib.gost = some gost)
      (h : GostNative.Sealed gost cipher plain r)
  | evp {spec : CipherSpec} {evp : Bytes × EvpCipher} {tag : Vector UInt8 16}
      (hspec : findSpec cipher = some spec) (hkind : spec.gost = false)
      (hevp : evpOf lib spec = some evp) (hpos : 0 < evp.2.keyLength.toInt)
      (hkey : r.key.length = keySize evp.2) (hiv : r.iv.length = ivSize evp.2)
      (htag : r.tag = if spec.aead then tag.toList else [])
      (h : lib.sealCipher (evpCall spec evp r.key r.iv plain none) = .ok (r.data, tag))

variable {lib} {cipher : Cipher} {plain : Bytes}

section
variable {W : Type} {env : Env W ServerCall ServerCall.Reply} {K : W → Prop}
  (hdraw : ∀ w n r w', K w → env w (.random n) r w' → K w')
include hdraw

theorem drawIv_spec {size : Nat} {w : W} (hw : K w) :
    wp env (fun r w' => K w' ∧ r.2.length = size) K (drawIv size) w := by
  unfold drawIv
  split
  · rename_i hsize
    exact ⟨hw, hw, hsize.symm⟩
  · rw [wp_ask_bind]
    refine ⟨hw, fun r w' h => ?_⟩
    have hw' := hdraw _ _ _ _ hw h
    exact ⟨hw', hw', Vector.length_toList⟩

theorem encrypt_spec {w : W} (hw : K w) :
    wp env (fun r _ => ∀ res, r = .ok res → Encrypted lib cipher plain res) K
      (encrypt lib cipher plain) w := by
  unfold encrypt
  split
  · exact ⟨hw, fun _ he => by cases he⟩
  rename_i spec hspec
  split
  · rename_i hkind
    split
    · exact ⟨hw, fun _ he => by cases he⟩
    rename_i gost hlib
    refine wp_post (GostNative.encrypt_spec hdraw gost cipher plain hw) fun r w' _ hr res he => ?_
    exact .gost hspec hkind hlib (hr res he)
  rename_i hkind
  split
  · exact ⟨hw, fun _ he => by cases he⟩
  rename_i evp hevp
  unfold encryptEvp
  split
  · exact ⟨hw, fun _ he => by cases he⟩
  rename_i hpos
  rw [wp_ask_bind]
  refine ⟨hw, fun r w₁ h₁ => ?_⟩
  have hw₁ := hdraw _ _ _ _ hw h₁
  obtain ⟨keyDrawn, key⟩ := r
  dsimp only
  split
  · exact ⟨hw₁, fun _ he => by cases he⟩
  rw [wp_bind]
  refine wp_post (drawIv_spec hdraw hw₁) fun r w₂ _ hr => ?_
  obtain ⟨hw₂, hiv⟩ := hr
  obtain ⟨ivDrawn, iv⟩ := r
  dsimp only
  split
  · exact ⟨hw₂, fun _ he => by cases he⟩
  split
  · exact ⟨hw₂, fun _ he => by cases he⟩
  rename_i data tag hseal
  refine ⟨hw₂, fun res he => ?_⟩
  cases he
  exact .evp hspec (by simpa using hkind) hevp (by omega) Vector.length_toList hiv rfl hseal

end

structure Inverts (lib : CryptoLibrary) : Prop where
  evp : ∀ call data tag, lib.sealCipher call = .ok (data, tag) →
    lib.openCipher { call with data := data, tag := if call.aead then some tag.toList else none } =
      .ok call.data
  gost : ∀ gost, lib.gost = some gost → gost.Inverts

theorem decrypt_encrypted (hinv : Inverts lib) {r : CryptoResult} (h : Encrypted lib cipher plain r)
    (out : CryptoResult) :
    decrypt lib cipher r.data r.toKeyMaterial out = (.ok (), { data := plain }) := by
  cases h with
  | gost hspec hkind hlib h =>
    have hopen := GostNative.opened_sealed (hinv.gost _ hlib) h
    unfold decrypt
    simp only [hspec, hkind, hlib, if_true, GostNative.decrypt, hopen]
  | @evp spec evp tag hspec hkind hevp hpos hkey hiv htag h =>
    have hopen := hinv.evp _ _ _ h
    have hcall : { evpCall spec evp r.key r.iv plain none with
        data := r.data, tag := if spec.aead then some tag.toList else none } =
        evpCall spec evp r.key r.iv r.data (if spec.aead then some r.tag else none) := by
      cases ha : spec.aead <;> simp [evpCall, htag, ha]
    have hopen' : lib.openCipher
        (evpCall spec evp r.key r.iv r.data (if spec.aead then some r.tag else none)) = .ok plain := by
      rw [← hcall]
      exact hopen
    have hpresent : (spec.aead && r.tag == []) = false := by
      cases ha : spec.aead with
      | false => rfl
      | true =>
        have hne : r.tag ≠ [] := by
          intro hn
          have hlen := congrArg List.length (htag.symm.trans hn)
          simp [ha] at hlen
        simp [hne]
    unfold decrypt
    simp only [hspec, hkind, hpresent, hevp, hopen', Bool.false_eq_true, if_false]

/-- **A rejection leaves no plaintext.** -/
theorem decrypt_rejected {ciphertext : Bytes} {m : KeyMaterial} {out : CryptoResult} {e : Bytes}
    (h : (decrypt lib cipher ciphertext m out).1 = .error e) :
    (decrypt lib cipher ciphertext m out).2 = {} := by
  unfold decrypt at h ⊢
  dsimp only at h ⊢
  split
  · rfl
  rename_i spec hspec
  simp only [hspec] at h
  split
  · rename_i hkind
    rw [if_pos hkind] at h
    split
    · rfl
    rename_i gost hlib
    simp only [hlib, GostNative.decrypt] at h ⊢
    split
    · rfl
    · rename_i ho
      rw [ho] at h
      cases h
  rename_i hkind
  rw [if_neg hkind] at h
  split
  · rfl
  rename_i htag
  rw [if_neg htag] at h
  split
  · rfl
  rename_i evp hevp
  simp only [hevp] at h
  split
  · rfl
  · rename_i ho
    rw [ho] at h
    cases h

/-! ## Lengths -/

theorem fits_of_encrypted {r : CryptoResult} (h : Encrypted lib cipher plain r) :
    r.toKeyMaterial.Fits := by
  cases h with
  | gost hspec hkind hlib h =>
    have hkey := h.keySize
    refine ⟨?_, ?_, ?_⟩
    · show r.key.length < _
      omega
    · show r.iv.length < _
      rw [h.noIv]
      decide
    · show r.tag.length < _
      rw [h.noTag]
      decide
  | @evp spec evp tag hspec hkind hevp hpos hkey hiv htag h =>
    have hk := evp.2.keyLength.toInt_lt
    have hi := evp.2.ivLength.toInt_lt
    refine ⟨?_, ?_, ?_⟩
    · show r.key.length < _
      rw [hkey, keySize]
      omega
    · show r.iv.length < _
      rw [hiv, ivSize]
      omega
    · show r.tag.length < _
      rw [htag]
      split <;> simp

theorem key_ne_nil_of_encrypted {r : CryptoResult} (h : Encrypted lib cipher plain r) : r.key ≠ [] := by
  intro hn
  cases h with
  | gost hspec hkind hlib h =>
    have hkey := h.keySize
    rw [hn] at hkey
    cases hkey
  | @evp spec evp tag hspec hkind hevp hpos hkey hiv htag h =>
    rw [hn, keySize] at hkey
    simp only [List.length_nil] at hkey
    omega

/-- The documented length of what a cipher writes: whole blocks with padding. -/
def Lengths (lib : CryptoLibrary) : Prop :=
  ∀ call data tag evp, lib.sealCipher call = .ok (data, tag) → lib.cipherByName call.name = some evp →
    data.length =
      if call.padding = some true then
        call.data.length + (evp.blockSize - call.data.length % evp.blockSize)
      else call.data.length

def sealedSize (lib : CryptoLibrary) (cipher : Cipher) (n : Nat) : Nat :=
  match findSpec cipher with
  | none => n
  | some spec =>
    if spec.gost then GostNative.headerSize + gostBlock cipher * 2 + n
    else
      match evpOf lib spec with
      | none => n
      | some evp =>
        if !spec.aead && (evp.2.mode == .cbc || evp.2.mode == .ecb) then
          n + (evp.2.blockSize - n % evp.2.blockSize)
        else n

theorem length_encrypted (hlen : Lengths lib) {r : CryptoResult} (h : Encrypted lib cipher plain r) :
    r.data.length = sealedSize lib cipher plain.length := by
  cases h with
  | gost hspec hkind hlib h =>
    obtain ⟨iv, data, tag, hiv, _, hdata⟩ := h.frame
    rw [hdata, GostNative.length_frame data tag hiv, sealedSize, hspec]
    simp only [hkind, if_true]
  | @evp spec evp tag hspec hkind hevp hpos hkey hiv htag h =>
    obtain ⟨name, hname, hmap⟩ := Option.bind_eq_some_iff.mp hevp
    obtain ⟨evp', hbyName, rfl⟩ := Option.map_eq_some_iff.mp hmap
    have hl := hlen _ _ _ evp' h hbyName
    rw [hl, sealedSize, hspec]
    simp only [hkind, hevp, Bool.false_eq_true, if_false, evpCall]
    cases spec.aead <;> simp

/-! ## GOST frames -/

def anyAnswer : Env Unit ServerCall ServerCall.Reply := fun _ _ _ _ => True

/-- **GOST frames are exact.** Encryption answers with the frame of what it drew and sealed,
and decryption undoes it; what decryption accepts is one whole frame whose header the library has
authenticated; the test of the length field is exact in 64 bits as well; a rejection leaves nothing
in the result. -/
theorem gost_frames_exact (gost : Akrypt) (hinv : gost.Inverts) (cipher : Cipher) :
    (∀ plain r, Runs anyAnswer (GostNative.encrypt gost cipher plain) () (.ok r) () →
      ∀ out, GostNative.decrypt gost cipher r.data r.key out = (.ok (), { data := plain })) ∧
    (∀ (plain : Bytes) (key : Vector UInt8 32) (iv : Vector UInt8 (gostBlock cipher))
        (data : Vector UInt8 plain.length) (tag : Vector UInt8 (gostBlock cipher)),
      GostNative.id cipher ≠ 0 → plain.length ≤ GostNative.maxSize → gost.ready = true →
      gost.sealMgm cipher key.toList (GostNative.frameHeader cipher plain.length) plain
        (GostNative.clearHigh (gostBlock cipher) iv.toList) = some (data, tag) →
      (∃ r, Runs (GostNative.drawing key.toList iv.toList)
        (GostNative.encrypt gost cipher plain) () r ()) ∧
      ∀ r, Runs (GostNative.drawing key.toList iv.toList)
          (GostNative.encrypt gost cipher plain) () r () →
        r = .ok
          { data := GostNative.frame cipher plain.length
              (GostNative.clearHigh (gostBlock cipher) iv.toList) data.toList tag.toList
            key := key.toList }) ∧
    (∀ frame key out, (GostNative.decrypt gost cipher frame key out).1 = .ok () →
      ∃ iv data tag : Bytes, iv.length = gostBlock cipher ∧ tag.length = gostBlock cipher ∧
        data.length ≤ GostNative.maxSize ∧
        frame = GostNative.magic ++ [GostNative.id cipher, UInt8.ofNat (gostBlock cipher)] ++
          GostNative.putLe 8 data.length ++ iv ++ data ++ tag ∧
        frame.length = GostNative.headerSize + gostBlock cipher * 2 + data.length ∧
        (gost.openMgm cipher key (frame.take GostNative.headerSize) data iv tag).map Vector.toList =
          some (GostNative.decrypt gost cipher frame key out).2.data) ∧
    (∀ (size : UInt64) (n : Nat), (size.toNat > GostNative.maxSize ∨
        n ≠ (UInt64.ofNat (GostNative.headerSize + gostBlock cipher * 2) + size).toNat) ↔
      ¬(size.toNat ≤ GostNative.maxSize ∧
        n = GostNative.headerSize + gostBlock cipher * 2 + size.toNat)) ∧
    (∀ frame key out, ¬(GostNative.getLe (slice frame 10 8) ≤ GostNative.maxSize ∧
        frame.length = GostNative.headerSize + gostBlock cipher * 2 +
          GostNative.getLe (slice frame 10 8)) →
      GostNative.decrypt gost cipher frame key out = (.error GostNative.failure, out)) ∧
    ∀ (lib : CryptoLibrary) frame m out e, (decrypt lib cipher frame m out).1 = .error e →
      (decrypt lib cipher frame m out).2 = {} := by
  refine ⟨?_, ?_, ?_, GostNative.sizeTest_exact cipher, ?_, fun _ _ _ _ _ => decrypt_rejected⟩
  · intro plain r hr out
    have hspec : wp anyAnswer (fun r _ => ∀ res, r = .ok res → GostNative.Sealed gost cipher plain res)
        (fun _ => True) (GostNative.encrypt gost cipher plain) () :=
      GostNative.encrypt_spec (fun _ _ _ _ _ _ => trivial) gost cipher plain trivial
    have hsealed := runs_of_wp hspec hr r rfl
    rw [GostNative.decrypt, GostNative.opened_sealed hinv hsealed]
  · intro plain key iv data tag hid hsize hready hseal
    constructor
    · have hblock : gostBlock cipher ≤ 16 := by
        unfold gostBlock
        split <;> omega
      -- the two draws are told apart by their lengths
      have hlengths : key.toList.length ≠ iv.toList.length := by
        simp only [Vector.length_toList]
        omega
      obtain ⟨r, ⟨⟩, hr⟩ := exists_runs (P := fun _ => True)
        (fun w c _ => GostNative.drawing_total hlengths w c) ()
        (uses_true (GostNative.encrypt gost cipher plain))
      exact ⟨r, hr⟩
    · intro r hr
      have hanswer := runs_of_wp (GostNative.encrypt_works hid hsize hready hseal) hr
      exact hanswer
  · intro image key out h
    unfold GostNative.decrypt at h
    split at h
    · cases h
    rename_i plain hopen
    obtain ⟨_, _, iv, data, tag, hiv, htag, hmax, hframe, hlib⟩ := GostNative.frame_of_opened hopen
    have hhead : image.take GostNative.headerSize = GostNative.frameHeader cipher data.length := by
      rw [hframe, GostNative.frame, List.append_assoc, List.append_assoc,
        ← GostNative.length_frameHeader cipher data.length, List.take_left]
    refine ⟨iv, data, tag, hiv, htag, hmax, hframe, ?_, ?_⟩
    · rw [hframe]
      simp only [GostNative.frame, List.length_append, GostNative.length_frameHeader, hiv, htag]
      omega
    · rw [hhead, hlib, GostNative.decrypt, hopen]
  · intro image key out h
    rw [GostNative.decrypt, GostNative.opened_refused h]

def countingKey : Vector UInt8 32 := .ofFn fun i => .ofNat i

def clearedOnes : Bytes := [127, 255, 255, 255, 255, 255, 255, 127]

def wordMagma : Akrypt where
  ready := true
  sealMgm cipher key aad plain iv :=
    match cipher, plain with
    | .magma, [69, 110, 99, 111, 100, 101] =>
      if key = countingKey.toList ∧ aad = GostNative.frameHeader .magma 6 ∧ iv = clearedOnes then
        some (#v[177, 151, 122, 114, 69, 238], #v[203, 118, 114, 219, 131, 154, 52, 253])
      else none
    | _, _ => none
  openMgm cipher key aad data iv tag :=
    match cipher, data with
    | .magma, [177, 151, 122, 114, 69, 238] =>
      if key = countingKey.toList ∧ aad = GostNative.frameHeader .magma 6 ∧ iv = clearedOnes ∧
          tag = [203, 118, 114, 219, 131, 154, 52, 253] then some #v[69, 110, 99, 111, 100, 101]
      else none
    | _, _ => none
  openCbc _ _ _ := none

theorem wordMagma_inverts : wordMagma.Inverts := by
  intro cipher key aad plain iv data tag h
  simp only [wordMagma] at h
  split at h
  · simp only [Option.ite_none_right_eq_some, Option.some.injEq] at h
    obtain ⟨⟨rfl, rfl, rfl⟩, rfl, rfl⟩ := h
    rfl
  · cases h

/-- The word is sealed into a frame, and the frame opens again. -/
theorem gost_frames_exact_magma : ∃ r,
    Runs (GostNative.drawing countingKey.toList (List.replicate 8 255))
      (GostNative.encrypt wordMagma .magma (bytes "Encode")) () (.ok r) () ∧
    r.data = GostNative.frame .magma 6 clearedOnes [177, 151, 122, 114, 69, 238]
      [203, 118, 114, 219, 131, 154, 52, 253] ∧
    GostNative.decrypt wordMagma .magma r.data r.key {} = (.ok (), { data := bytes "Encode" }) := by
  obtain ⟨hundone, hencrypt, -⟩ := gost_frames_exact wordMagma wordMagma_inverts .magma
  obtain ⟨⟨r, hr⟩, hframe⟩ := hencrypt (bytes "Encode") countingKey (.replicate 8 255)
    #v[177, 151, 122, 114, 69, 238] #v[203, 118, 114, 219, 131, 154, 52, 253]
    (by decide) (by decide) rfl (by decide)
  obtain rfl := hframe r hr
  refine ⟨_, hr, rfl, ?_⟩
  exact hundone _ _ (runs_env (fun _ _ _ _ _ => trivial) hr) {}

end CryptoEngine

end EncoderNext
