import EncoderNext.Bytes

/-!
# The recovery record and its image on disk

A record is stored as a fixed header, the backup and a digest of both. The
digest belongs to the cryptographic library and is a parameter.
-/

namespace EncoderNext

abbrev Sha256 := Bytes → Option (Vector UInt8 32)

def zeroSha : Sha256 := fun _ => some (Vector.replicate 32 0)

inductive RecoveryPhase where
  | pending | committed | restored
  deriving DecidableEq

namespace RecoveryPhase

def toByte : RecoveryPhase → UInt8
  | pending => 1
  | committed => 2
  | restored => 3

def ofByte? (c : UInt8) : Option RecoveryPhase :=
  if c = 1 then some pending
  else if c = 2 then some committed
  else if c = 3 then some restored
  else none

theorem ofByte?_toByte (phase : RecoveryPhase) : ofByte? phase.toByte = some phase := by
  cases phase <;> rfl

theorem toByte_of_ofByte? {c : UInt8} {phase : RecoveryPhase} (h : ofByte? c = some phase) :
    phase.toByte = c := by
  unfold ofByte? at h
  split at h
  · cases h
    exact Eq.symm ‹c = 1›
  · split at h
    · cases h
      exact Eq.symm ‹c = 2›
    · split at h
      · cases h
        exact Eq.symm ‹c = 3›
      · cases h

end RecoveryPhase

structure RecoveryRecord where
  phase : RecoveryPhase := .pending
  previousExists : Bool := false
  transaction : Bytes := []
  bootId : Bytes := []
  deadlineMs : UInt64 := 0
  previous : Bytes := []
  deriving DecidableEq

def hexString (text : Bytes) (length : Nat) : Bool :=
  text.length == length && text.all isHexDigit

def dashes : List Nat := [8, 13, 18, 23]

def bootValid (boot : Bytes) : Bool :=
  boot.length == 36 && dashes.all (fun i => boot[i]? == some (byte '-')) &&
  hexString ((boot.zipIdx.filter fun p => p.2 ∉ dashes).map Prod.fst) 32

namespace RecoveryRecord

def header : Nat := 90
def digestSize : Nat := 32
def maxBackup : Nat := 65536

def valid (record : RecoveryRecord) : Bool :=
  hexString record.transaction 32 && bootValid record.bootId &&
  record.deadlineMs > 0 && record.previous.length ≤ maxBackup &&
  (record.previousExists || record.previous.length == 0)

def backup (record : RecoveryRecord) : Option Bytes :=
  if record.previousExists then some record.previous else none

def resolved (record : RecoveryRecord) (phase : RecoveryPhase) : RecoveryRecord :=
  { record with phase := phase, previous := [] }

@[irreducible] def magic : Bytes := bytes "ENCWIFI1"

/-! ## The image -/

def body (record : RecoveryRecord) : Bytes :=
  magic ++ [record.phase.toByte] ++ [if record.previousExists then 1 else 0] ++
  record.transaction ++ record.bootId ++ putBe 8 record.deadlineMs.toNat ++
  putBe 4 record.previous.length ++ record.previous

def encode (sha256 : Sha256) (record : RecoveryRecord) : Option Bytes :=
  (sha256 record.body).map fun digest => record.body ++ digest.toList

def fields (image : Bytes) : Option RecoveryRecord :=
  (RecoveryPhase.ofByte? (image.getD 8 0)).map fun phase =>
    { phase := phase
      previousExists := image.getD 9 0 ≠ 0
      transaction := slice image 10 32
      bootId := slice image 42 36
      deadlineMs := UInt64.ofNat (getBe (slice image 78 8))
      previous := slice image header (image.length - header - digestSize) }

def framed (sha256 : Sha256) (image : Bytes) : Bool :=
  image.take 8 = magic ∧ image.getD 9 0 ≤ 1 ∧
  getBe (slice image 86 4) = image.length - header - digestSize ∧
  ((sha256 (image.take (image.length - digestSize))).map Vector.toList =
    some (image.drop (image.length - digestSize)))

def decode (sha256 : Sha256) (image : Bytes) : Except String RecoveryRecord :=
  if image.length < header + digestSize ∨ image.length > header + maxBackup + digestSize then
    .error "Unsafe or invalid recovery journal"
  else if !framed sha256 image then .error "Corrupted recovery journal"
  else
    match fields image with
    | some record => if record.valid then .ok record else .error "Invalid recovery journal fields"
    | none => .error "Invalid recovery journal fields"

def ofFile (sha256 : Sha256) (file : Option Bytes) : Option RecoveryRecord :=
  file.bind fun image => (decode sha256 image).toOption

/-! ## What is stored is loaded -/

theorem valid_lengths {record : RecoveryRecord} (h : record.valid = true) :
    record.transaction.length = 32 ∧ record.bootId.length = 36 ∧
      record.previous.length ≤ maxBackup := by
  simp only [valid, hexString, bootValid, Bool.and_eq_true, beq_iff_eq, decide_eq_true_eq] at h
  exact ⟨h.1.1.1.1.1, h.1.1.1.2.1.1, h.1.2⟩

theorem length_magic : magic.length = 8 := by decide +kernel

theorem length_body {record : RecoveryRecord} (h : record.valid = true) :
    record.body.length = header + record.previous.length := by
  obtain ⟨ht, hb, -⟩ := valid_lengths h
  simp only [body, List.length_append, List.length_singleton, length_magic, length_putBe, ht, hb,
    header]

section
variable {record : RecoveryRecord} {digest : Bytes}

theorem image_fields (h : record.valid = true) :
    (record.body ++ digest).take 8 = magic ∧
    (record.body ++ digest).getD 8 0 = record.phase.toByte ∧
    (record.body ++ digest).getD 9 0 = (if record.previousExists then 1 else 0) ∧
    slice (record.body ++ digest) 10 32 = record.transaction ∧
    slice (record.body ++ digest) 42 36 = record.bootId ∧
    slice (record.body ++ digest) 78 8 = putBe 8 record.deadlineMs.toNat ∧
    slice (record.body ++ digest) 86 4 = putBe 4 record.previous.length ∧
    slice (record.body ++ digest) header record.previous.length = record.previous := by
  obtain ⟨ht, hb, -⟩ := valid_lengths h
  have hm := length_magic
  -- one field: the fields before it, itself, and all that follows
  have field : ∀ (a b c : Bytes) (i n : Nat), record.body ++ digest = a ++ b ++ c →
      a.length = i → b.length = n → slice (record.body ++ digest) i n = b := by
    intro a b c i n himage ha hb
    rw [himage]
    exact slice_mid ha hb
  let front := magic ++ [record.phase.toByte] ++ [if record.previousExists then (1 : UInt8) else 0]
  have hfront : front.length = 10 := by simp [front, hm]
  let deadline := putBe 8 record.deadlineMs.toNat
  let size := putBe 4 record.previous.length
  refine ⟨?_, ?_, ?_, ?_, ?_, ?_, ?_, ?_⟩
  · simp only [body, List.append_assoc]
    rw [← hm, List.take_left]
  · simp [body, List.getD, hm]
  · simp [body, List.getD, List.getElem?_append, hm]
  · exact field front _ (record.bootId ++ deadline ++ size ++ record.previous ++ digest) _ _
      (by simp [body, front, deadline, size]) hfront ht
  · exact field (front ++ record.transaction) _ (deadline ++ size ++ record.previous ++ digest) _ _
      (by simp [body, front, deadline, size]) (by simp [hfront, ht]) hb
  · exact field (front ++ record.transaction ++ record.bootId) _ (size ++ record.previous ++ digest)
      _ _ (by simp [body, front, size]) (by simp [hfront, ht, hb]) (length_putBe ..)
  · exact field (front ++ record.transaction ++ record.bootId ++ deadline) _
      (record.previous ++ digest) _ _ (by simp [body, front, deadline])
      (by simp [hfront, ht, hb, deadline]) (length_putBe ..)
  · exact field (front ++ record.transaction ++ record.bootId ++ deadline ++ size) _ digest _ _
      (by simp [body, front, deadline, size]) (by simp [hfront, ht, hb, deadline, size, header]) rfl

end

/-- **A stored record is loaded as it was.** -/
theorem decode_encode {sha256 : Sha256} {record : RecoveryRecord} {image : Bytes}
    (h : record.valid = true) (he : encode sha256 record = some image) :
    decode sha256 image = .ok record := by
  obtain ⟨digest, hd, rfl⟩ := Option.map_eq_some_iff.mp he
  obtain ⟨hmagic, hphase, hexists, htr, hboot, hdl, hsize, hprev⟩ : _ ∧ _ :=
    @image_fields record digest.toList h
  have hl := length_body h
  have hbackup := (valid_lengths h).2.2
  have hlen : (record.body ++ digest.toList).length = header + record.previous.length + digestSize := by
    simp [hl, digestSize]
  have hsub : (record.body ++ digest.toList).length - header - digestSize =
      record.previous.length := by omega
  have hcut : (record.body ++ digest.toList).length - digestSize = record.body.length := by omega
  have hframed : framed sha256 (record.body ++ digest.toList) = true := by
    have hsmall : record.previous.length < 256 ^ 4 := by
      simp only [maxBackup] at hbackup
      omega
    have hflag : (if record.previousExists then (1 : UInt8) else 0) ≤ 1 := by
      cases record.previousExists <;> decide
    simp only [framed, hcut, hsub, List.take_left, List.drop_left, hd, hmagic, hexists, hsize,
      getBe_putBe, Nat.mod_eq_of_lt hsmall, Option.map_some, decide_eq_true_eq]
    exact ⟨trivial, hflag, trivial, trivial⟩
  have hfields : fields (record.body ++ digest.toList) = some record := by
    have hflag : ((if record.previousExists then (1 : UInt8) else 0) ≠ 0) = record.previousExists := by
      cases record.previousExists <;> simp
    have hdeadline : record.deadlineMs.toNat < 256 ^ 8 := record.deadlineMs.toNat_lt
    simp only [fields, hphase, RecoveryPhase.ofByte?_toByte, Option.map_some, hexists, hflag, htr,
      hboot, hdl, getBe_putBe, Nat.mod_eq_of_lt hdeadline, UInt64.ofNat_toNat, hsub, hprev,
      Bool.decide_eq_true]
  unfold decode
  rw [if_neg (by rw [hlen]; simp only [digestSize, header, maxBackup] at hbackup ⊢; omega)]
  simp [hframed, hfields, h]

theorem valid_of_decode {sha256 : Sha256} {record : RecoveryRecord} {image : Bytes}
    (h : decode sha256 image = .ok record) : record.valid = true := by
  unfold decode at h
  split at h
  · cases h
  split at h
  · cases h
  split at h
  · split at h
    · cases h
      assumption
    · cases h
  · cases h

/-! ## What is loaded was stored -/

theorem length_digest {image : Bytes} (h : header + digestSize ≤ image.length) :
    (image.drop (image.length - digestSize)).length = digestSize := by
  rw [List.length_drop]
  omega

/-- The parts that are read lie side by side and fill the file. -/
theorem parts_tile {image : Bytes} (h : header + digestSize ≤ image.length) :
    image.take 8 ++ [image.getD 8 0] ++ [image.getD 9 0] ++ slice image 10 32 ++ slice image 42 36 ++
      slice image 78 8 ++ slice image 86 4 ++
      slice image header (image.length - header - digestSize) ++
      image.drop (image.length - digestSize) = image := by
  have h8 : 8 < image.length := by simp only [header, digestSize] at h; omega
  have h9 : 9 < image.length := by simp only [header, digestSize] at h; omega
  have h1 : slice image 0 8 ++ slice image 8 1 = slice image 0 9 := slice_add image 0 8 1
  have h2 : slice image 0 9 ++ slice image 9 1 = slice image 0 10 := slice_add image 0 9 1
  have h3 : slice image 0 10 ++ slice image 10 32 = slice image 0 42 := slice_add image 0 10 32
  have h4 : slice image 0 42 ++ slice image 42 36 = slice image 0 78 := slice_add image 0 42 36
  have h5 : slice image 0 78 ++ slice image 78 8 = slice image 0 86 := slice_add image 0 78 8
  have h6 : slice image 0 86 ++ slice image 86 4 = slice image 0 header := slice_add image 0 86 4
  have h7 : slice image 0 header ++ slice image header (image.length - header - digestSize) =
      slice image 0 (image.length - digestSize) := by
    have hall := slice_add image 0 header (image.length - header - digestSize)
    have hsum : header + (image.length - header - digestSize) = image.length - digestSize := by omega
    rw [Nat.zero_add, hsum] at hall
    exact hall
  rw [← slice_one h8, ← slice_one h9, show image.take 8 = slice image 0 8 from rfl, h1, h2, h3, h4, h5,
    h6, h7]
  exact List.take_append_drop (image.length - digestSize) image

structure Inside (image : Bytes) : Prop where
  magic : (image.take 8).length = 8
  phase : 8 < image.length
  flag : 9 < image.length
  transaction : (slice image 10 32).length = 32
  bootId : (slice image 42 36).length = 36
  deadline : (slice image 78 8).length = 8
  size : (slice image 86 4).length = 4
  previous : (slice image header (image.length - header - digestSize)).length =
    image.length - header - digestSize
  hashed : (image.take (image.length - digestSize)).length = image.length - digestSize
  digest : (image.drop (image.length - digestSize)).length = digestSize

theorem inside_of_length {image : Bytes} (h : header + digestSize ≤ image.length) : Inside image := by
  have hlen : 122 ≤ image.length := h
  exact
    { magic := by rw [List.length_take]; omega
      phase := by omega
      flag := by omega
      transaction := length_slice (by omega)
      bootId := length_slice (by omega)
      deadline := length_slice (by omega)
      size := length_slice (by omega)
      previous := length_slice (by omega)
      hashed := by rw [List.length_take]; omega
      digest := length_digest h }

/-- **A record that is loaded is the one its file spells.** -/
theorem encode_decode {sha256 : Sha256} {record : RecoveryRecord} {image : Bytes}
    (h : decode sha256 image = .ok record) : encode sha256 record = some image := by
  unfold decode at h
  split at h
  · cases h
  rename_i hlen
  split at h
  · cases h
  rename_i hframed
  split at h
  · rename_i loaded hfields
    split at h
    · cases h
      rw [not_or, Nat.not_lt, Nat.not_lt] at hlen
      obtain ⟨hmin, hmax⟩ := hlen
      simp only [framed, Bool.not_eq_true', Bool.not_eq_false, decide_eq_true_eq] at hframed
      obtain ⟨hmagic, hflag, hsize, hdigest⟩ := hframed
      obtain ⟨phase, hphase, rfl⟩ := Option.map_eq_some_iff.mp hfields
      obtain ⟨-, -, -, -, -, hdeadline, hlength, hprev, -⟩ := inside_of_length hmin
      -- both numbers fill their fields
      have hput : putBe 8 (UInt64.ofNat (getBe (slice image 78 8))).toNat = slice image 78 8 := by
        have hlt := getBe_lt (slice image 78 8)
        have hback := putBe_getBe (slice image 78 8)
        rw [hdeadline] at hlt hback
        rw [UInt64.toNat_ofNat_of_lt' (by simpa using hlt), hback]
      have hput' : putBe 4 (slice image header (image.length - header - digestSize)).length =
          slice image 86 4 := by
        have hback := putBe_getBe (slice image 86 4)
        rw [hlength] at hback
        rw [hprev, ← hsize, hback]
      -- the flag was read as zero or one
      have hbit : (if decide (image.getD 9 0 ≠ 0) = true then (1 : UInt8) else 0) = image.getD 9 0 := by
        have hcases : ∀ c : UInt8, c ≤ 1 → (if decide (c ≠ 0) = true then (1 : UInt8) else 0) = c :=
          forall_byte (by decide +kernel)
        exact hcases _ hflag
      have htile := parts_tile hmin
      have hbody : body
          { phase := phase, previousExists := image.getD 9 0 ≠ 0, transaction := slice image 10 32,
            bootId := slice image 42 36,
            deadlineMs := UInt64.ofNat (getBe (slice image 78 8)),
            previous := slice image header (image.length - header - digestSize) } =
          image.take (image.length - digestSize) := by
        rw [← List.take_append_drop (image.length - digestSize) image] at htile
        refine (List.append_left_inj (image.drop (image.length - digestSize))).mp ?_
        rw [List.take_append_drop] at htile ⊢
        simp only [body, hput, hput', hbit, RecoveryPhase.toByte_of_ofByte? hphase, ← hmagic]
        exact htile
      obtain ⟨digest, hd, hdrop⟩ := Option.map_eq_some_iff.mp hdigest
      rw [encode, hbody, hd, Option.map_some, hdrop, List.take_append_drop]
    · cases h
  · cases h

theorem ofFile_of_decode {sha256 : Sha256} {record : RecoveryRecord} {image : Bytes}
    (h : decode sha256 image = .ok record) : ofFile sha256 (some image) = some record := by
  simp [ofFile, h, Except.toOption]

theorem valid_of_ofFile {sha256 : Sha256} {record : RecoveryRecord} {file : Option Bytes}
    (h : ofFile sha256 file = some record) : record.valid = true := by
  obtain ⟨image, -, hd⟩ := Option.bind_eq_some_iff.mp h
  cases he : decode sha256 image with
  | error e => simp [he, Except.toOption] at hd
  | ok r =>
    simp only [he, Except.toOption, Option.some.injEq] at hd
    subst hd
    exact valid_of_decode he

theorem transaction_ne_nil {sha256 : Sha256} {record : RecoveryRecord} {file : Option Bytes}
    (h : ofFile sha256 file = some record) : record.transaction ≠ [] := by
  intro hn
  have hl := (valid_lengths (valid_of_ofFile h)).1
  simp [hn] at hl

end RecoveryRecord

end EncoderNext
