import EncoderNext.Bytes

/-!
# The records of a file

The key record holds three lengths and three byte strings; the hash record
holds an algorithm, a digest and a file name between colons.
-/

namespace EncoderNext

structure KeyMaterial where
  key : Bytes := []
  iv : Bytes := []
  tag : Bytes := []
  deriving DecidableEq

namespace KeyMaterial

/-- What `store_key` writes; a length is cut to 32 bits. -/
def blob (m : KeyMaterial) : Bytes :=
  putBe 4 m.key.length ++ putBe 4 m.iv.length ++ putBe 4 m.tag.length ++ m.key ++ m.iv ++ m.tag

def ofBlob (b : Bytes) : Option KeyMaterial :=
  if b.length < 12 then none
  else
    let keyLength := getBe (slice b 0 4)
    let ivLength := getBe (slice b 4 4)
    let tagLength := getBe (slice b 8 4)
    if b.length < 12 + keyLength + ivLength + tagLength then none
    else some
      { key := slice b 12 keyLength
        iv := slice b (12 + keyLength) ivLength
        tag := slice b (12 + keyLength + ivLength) tagLength }

def Fits (m : KeyMaterial) : Prop :=
  m.key.length < 2 ^ 32 ∧ m.iv.length < 2 ^ 32 ∧ m.tag.length < 2 ^ 32

theorem slice_part {a b c s : Bytes} {i n : Nat} (hs : s = a ++ b ++ c) (hi : a.length = i)
    (hn : b.length = n) : slice s i n = b := hs ▸ slice_mid hi hn

/-- **A stored key is loaded as it was.** -/
theorem ofBlob_blob {m : KeyMaterial} (h : m.Fits) : ofBlob m.blob = some m := by
  obtain ⟨hk, hi, ht⟩ := h
  have hlen : m.blob.length = 12 + m.key.length + m.iv.length + m.tag.length := by
    simp only [blob, List.length_append, length_putBe]
  let front := putBe 4 m.key.length ++ putBe 4 m.iv.length ++ putBe 4 m.tag.length
  have hfront : front.length = 12 := by simp [front]
  have hkey : slice m.blob 0 4 = putBe 4 m.key.length :=
    slice_part (a := []) (c := putBe 4 m.iv.length ++ putBe 4 m.tag.length ++ m.key ++ m.iv ++ m.tag)
      (by simp [blob]) rfl (length_putBe ..)
  have hiv : slice m.blob 4 4 = putBe 4 m.iv.length :=
    slice_part (c := putBe 4 m.tag.length ++ m.key ++ m.iv ++ m.tag) (by simp [blob])
      (length_putBe 4 m.key.length) (length_putBe ..)
  have htag : slice m.blob 8 4 = putBe 4 m.tag.length :=
    slice_part (a := putBe 4 m.key.length ++ putBe 4 m.iv.length) (c := m.key ++ m.iv ++ m.tag)
      (by simp [blob]) (by simp) (length_putBe ..)
  have hkey' : slice m.blob 12 m.key.length = m.key :=
    slice_part (a := front) (c := m.iv ++ m.tag) (by simp [blob, front]) hfront rfl
  have hiv' : slice m.blob (12 + m.key.length) m.iv.length = m.iv :=
    slice_part (a := front ++ m.key) (c := m.tag) (by simp [blob, front]) (by simp [hfront]) rfl
  have htag' : slice m.blob (12 + m.key.length + m.iv.length) m.tag.length = m.tag :=
    slice_part (a := front ++ m.key ++ m.iv) (c := []) (by simp [blob, front])
      (by simp [hfront, Nat.add_assoc]) rfl
  have hmod : ∀ {n : Nat}, n < 2 ^ 32 → getBe (putBe 4 n) = n := fun hn => by
    rw [getBe_putBe]
    exact Nat.mod_eq_of_lt (by omega)
  unfold ofBlob
  rw [if_neg (by omega), hkey, hiv, htag, hmod hk, hmod hi, hmod ht]
  simp only
  rw [if_neg (by omega), hkey', hiv', htag']

end KeyMaterial

structure HashRecord where
  alg : Bytes
  hex : Bytes
  fileName : Bytes
  deriving DecidableEq

namespace HashRecord

def payload (r : HashRecord) : Bytes := r.alg ++ byte ':' :: r.hex ++ byte ':' :: r.fileName

/-- `parse_hash_record`: cut at the first two colons; algorithm and digest may
not be empty. -/
def parse (payload : Bytes) : Option HashRecord := do
  let (alg, rest) ← splitAt? (byte ':') payload
  let (hex, fileName) ← splitAt? (byte ':') rest
  if alg != [] && hex != [] then some ⟨alg, hex, fileName⟩ else none

def ofFile (file : Option Bytes) : Option HashRecord :=
  file.bind fun data => if data = [] then none else parse data

/-- **A stored digest is loaded as it was**, whatever the file is called. -/
theorem ofFile_payload {r : HashRecord} (ha : r.alg ≠ []) (hh : r.hex ≠ [])
    (hac : byte ':' ∉ r.alg) (hhc : byte ':' ∉ r.hex) : ofFile (some r.payload) = some r := by
  have hne : r.payload ≠ [] := by simp [payload]
  have hcut : splitAt? (byte ':') r.payload = some (r.alg, r.hex ++ byte ':' :: r.fileName) := by
    rw [payload, List.append_assoc]
    exact splitAt?_append hac
  simp [ofFile, hne, parse, hcut, splitAt?_append hhc, ha, hh]

end HashRecord

end EncoderNext
