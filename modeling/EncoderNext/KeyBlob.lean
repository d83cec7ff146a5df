import EncoderNext.Records

/-!
# The key record, byte by byte

The server and the client each write and read the record of a key by pointers and iterators
into one vector. Here every access is checked: one outside the vector ends the call with a
fault.
-/

namespace EncoderNext

namespace KeyBlob

inductive Fault
  | outside
  deriving DecidableEq

abbrev Checked := Except Fault

def load (b : Bytes) (i : Nat) : Checked UInt8 := if h : i < b.length then .ok b[i] else .error .outside

def store (b : Bytes) (i : Nat) (c : UInt8) : Checked Bytes :=
  if i < b.length then .ok (b.set i c) else .error .outside

def assign (b : Bytes) (first last : UInt64) : Checked Bytes :=
  if first ≤ last ∧ last.toNat ≤ b.length then .ok (slice b first.toNat (last.toNat - first.toNat))
  else .error .outside

def readBe32 (b : Bytes) (i : Nat) : Checked UInt32 := do
  let b0 ← load b i
  let b1 ← load b (i + 1)
  let b2 ← load b (i + 2)
  let b3 ← load b (i + 3)
  return b0.toUInt32 <<< 24 ||| b1.toUInt32 <<< 16 ||| b2.toUInt32 <<< 8 ||| b3.toUInt32

def writeBe32 (value : UInt32) (b : Bytes) (i : Nat) : Checked Bytes := do
  let b ← store b i ((value >>> 24) &&& 0xFF).toUInt8
  let b ← store b (i + 1) ((value >>> 16) &&& 0xFF).toUInt8
  let b ← store b (i + 2) ((value >>> 8) &&& 0xFF).toUInt8
  store b (i + 3) (value &&& 0xFF).toUInt8

def record (m : KeyMaterial) : Checked Bytes := do
  let blob := List.replicate 12 0
  let blob ← writeBe32 (.ofNat m.key.length) blob 0
  let blob ← writeBe32 (.ofNat m.iv.length) blob 4
  let blob ← writeBe32 (.ofNat m.tag.length) blob 8
  return blob ++ m.key ++ m.iv ++ m.tag

/-- What the two readers do with a file; the vectors of the caller are touched only at the end. -/
def parse (file : Option Bytes) (out : KeyMaterial) : Checked (Bool × KeyMaterial) :=
  match file with
  | none => return (false, out)
  | some blob => do
    let size := UInt64.ofNat blob.length
    if size < 12 then return (false, out)
    let keyLen ← readBe32 blob 0
    let ivLen ← readBe32 blob 4
    let tagLen ← readBe32 blob 8
    let offset : UInt64 := 12
    -- the sum is taken in 64 bits
    if size < offset + keyLen.toUInt64 + ivLen.toUInt64 + tagLen.toUInt64 then return (false, out)
    let key ← assign blob offset (offset + keyLen.toUInt64)
    let offset := offset + keyLen.toUInt64
    let iv ← assign blob offset (offset + ivLen.toUInt64)
    let offset := offset + ivLen.toUInt64
    let tag ← assign blob offset (offset + tagLen.toUInt64)
    return (true, { key, iv, tag })

abbrev Files := Bytes → Option Bytes

def storeKey (files : Files) (path : Bytes) (m : KeyMaterial) : Checked Files := do
  return Function.update files path (some (← record m))

def loadKey (files : Files) (path : Bytes) (out : KeyMaterial) : Checked (Bool × KeyMaterial) :=
  parse (files path) out

def storeKeyFile (files : Files) (path : Bytes) (m : KeyMaterial) : Checked Files := do
  return Function.update files path (some (← record m))

def loadKeyFile (files : Files) (path : Bytes) (out : KeyMaterial) : Checked (Bool × KeyMaterial) :=
  parse (files path) out

/-! ## Four bytes are one number -/

theorem or_low {hi lo : Nat} (k : Nat) (h : lo < 2 ^ k) : hi <<< k ||| lo = hi * 2 ^ k + lo := by
  rw [← Nat.shiftLeft_add_eq_or_of_lt h, Nat.shiftLeft_eq]

theorem toNat_be32 (b0 b1 b2 b3 : UInt8) :
    (b0.toUInt32 <<< 24 ||| b1.toUInt32 <<< 16 ||| b2.toUInt32 <<< 8 ||| b3.toUInt32).toNat =
      getBe [b0, b1, b2, b3] := by
  have h0 := b0.toNat_lt
  have h1 := b1.toNat_lt
  have h2 := b2.toNat_lt
  have h3 := b3.toNat_lt
  have hshift : ∀ (c : UInt8) {k : UInt32}, k.toNat ≤ 24 →
      (c.toUInt32 <<< k).toNat = c.toNat <<< k.toNat := by
    intro c k hk
    have hc := c.toNat_lt
    have hlt : c.toNat <<< k.toNat < 2 ^ 32 := by
      rw [Nat.shiftLeft_eq]
      calc c.toNat * 2 ^ k.toNat ≤ c.toNat * 2 ^ 24 :=
            Nat.mul_le_mul_left _ (Nat.pow_le_pow_right (by decide) hk)
        _ < 2 ^ 32 := by omega
    rw [UInt32.toNat_shiftLeft, UInt8.toNat_toUInt32, Nat.mod_eq_of_lt (by omega : k.toNat < 32),
      Nat.mod_eq_of_lt hlt]
  simp only [UInt32.toNat_or]
  rw [hshift b0 (by decide), hshift b1 (by decide), hshift b2 (by decide), UInt8.toNat_toUInt32,
    Nat.or_assoc, Nat.or_assoc]
  show b0.toNat <<< 24 ||| (b1.toNat <<< 16 ||| (b2.toNat <<< 8 ||| b3.toNat)) = _
  rw [or_low 8 (by omega), or_low 16 (by omega), or_low 24 (by omega)]
  simp only [getBe, List.foldl_cons, List.foldl_nil]
  omega

theorem byte_at (value : UInt32) {k : UInt32} {n : Nat} (hk : k.toNat = n) (hn : n < 32) :
    ((value >>> k) &&& 0xFF).toUInt8 = UInt8.ofNat (value.toNat / 2 ^ n) := by
  apply UInt8.toNat_inj.mp
  have hand : (value.toNat >>> n) &&& 255 = value.toNat >>> n % 256 :=
    Nat.and_two_pow_sub_one_eq_mod _ 8
  rw [UInt32.toNat_toUInt8, UInt32.toNat_and, UInt32.toNat_shiftRight, hk, Nat.mod_eq_of_lt hn]
  show (value.toNat >>> n &&& 255) % 2 ^ 8 = _
  rw [hand, Nat.shiftRight_eq_div_pow, UInt8.toNat_ofNat']
  omega

theorem putBe_four (n : Nat) : putBe 4 n =
    [UInt8.ofNat (n / 2 ^ 24), UInt8.ofNat (n / 2 ^ 16), UInt8.ofNat (n / 2 ^ 8), UInt8.ofNat n] := by
  have h2 : n / 256 / 256 = n / 2 ^ 16 := Nat.div_div_eq_div_mul n 256 256
  have h3 : n / 2 ^ 16 / 256 = n / 2 ^ 24 := Nat.div_div_eq_div_mul n (2 ^ 16) 256
  simp only [putBe, List.nil_append, List.cons_append, h2, h3]
  rfl

/-! ## Accesses -/

theorem ok_bind (a : α) (f : α → Checked β) : ((.ok a : Checked α) >>= f) = f a := rfl

theorem load_ok {b : Bytes} {i : Nat} (h : i < b.length) : load b i = .ok (b.getD i 0) := by
  rw [load, dif_pos h]
  simp [h]

theorem readBe32_ok {b : Bytes} {i : Nat} (h : i + 4 ≤ b.length) :
    ∃ n : UInt32, readBe32 b i = .ok n ∧ n.toNat = getBe (slice b i 4) := by
  have hslice : slice b i 4 = [b.getD i 0, b.getD (i + 1) 0, b.getD (i + 2) 0, b.getD (i + 3) 0] := by
    rw [show 4 = 1 + (1 + (1 + 1)) from rfl, ← slice_add, ← slice_add, ← slice_add,
      slice_one (by omega), slice_one (by omega), slice_one (by omega), slice_one (by omega)]
    rfl
  refine ⟨_, ?_, (toNat_be32 _ _ _ _).trans (by rw [hslice])⟩
  unfold readBe32
  rw [load_ok (by omega), load_ok (by omega), load_ok (by omega), load_ok (by omega)]
  rfl

theorem store_append (a b : Bytes) (i : Nat) (c : UInt8) :
    store (a ++ b) (a.length + i) c = (store b i c).map (a ++ ·) := by
  unfold store
  by_cases h : i < b.length
  · rw [if_pos (by rw [List.length_append]; omega), if_pos h]
    simp [Except.map]
  · rw [if_neg (by rw [List.length_append]; omega), if_neg h]
    rfl

theorem writeBe32_ok (value : UInt32) (a : Bytes) (x0 x1 x2 x3 : UInt8) (c : Bytes) :
    writeBe32 value (a ++ x0 :: x1 :: x2 :: x3 :: c) a.length = .ok (a ++ putBe 4 value.toNat ++ c) := by
  have hput : ∀ {b b' : Bytes} {i : Nat} {x : UInt8}, store b i x = .ok b' →
      store (a ++ b) (a.length + i) x = .ok (a ++ b') := by
    intro b b' i x h
    rw [store_append, h]
    rfl
  have hlow : (value &&& 0xFF).toUInt8 = UInt8.ofNat value.toNat := by
    have := byte_at value (k := 0) (n := 0) rfl (by decide)
    simpa using this
  unfold writeBe32
  rw [putBe_four, ← byte_at value (k := 24) (n := 24) rfl (by decide), ← byte_at value (k := 16) (n := 16) rfl (by decide),
    ← byte_at value (k := 8) (n := 8) rfl (by decide), ← hlow]
  have hfirst : ∀ x, store (a ++ x0 :: x1 :: x2 :: x3 :: c) a.length x =
      .ok (a ++ x :: x1 :: x2 :: x3 :: c) := fun x => hput (i := 0) rfl
  rw [hfirst, ok_bind, hput rfl, ok_bind, hput rfl, ok_bind, hput rfl]
  simp

/-! ## The writers -/

theorem toNat_length {b : Bytes} (h : b.length < 2 ^ 32) : (UInt32.ofNat b.length).toNat = b.length := by
  rw [UInt32.toNat_ofNat', Nat.mod_eq_of_lt h]

theorem record_ok {m : KeyMaterial} (hm : m.Fits) : record m = .ok m.blob := by
  obtain ⟨hk, hi, ht⟩ := hm
  have hkey : writeBe32 (.ofNat m.key.length) (List.replicate 12 0) 0 =
      .ok (putBe 4 m.key.length ++ List.replicate 8 0) := by
    have := writeBe32_ok (.ofNat m.key.length) [] 0 0 0 0 (List.replicate 8 0)
    rwa [toNat_length hk] at this
  have hiv : writeBe32 (.ofNat m.iv.length) (putBe 4 m.key.length ++ List.replicate 8 0) 4 =
      .ok (putBe 4 m.key.length ++ putBe 4 m.iv.length ++ List.replicate 4 0) := by
    have := writeBe32_ok (.ofNat m.iv.length) (putBe 4 m.key.length) 0 0 0 0 (List.replicate 4 0)
    rwa [toNat_length hi, length_putBe] at this
  have htag : writeBe32 (.ofNat m.tag.length)
      (putBe 4 m.key.length ++ putBe 4 m.iv.length ++ List.replicate 4 0) 8 =
      .ok (putBe 4 m.key.length ++ putBe 4 m.iv.length ++ putBe 4 m.tag.length) := by
    have := writeBe32_ok (.ofNat m.tag.length) (putBe 4 m.key.length ++ putBe 4 m.iv.length) 0 0 0 0 []
    rwa [toNat_length ht, List.length_append, length_putBe, length_putBe, List.append_nil] at this
  unfold record
  dsimp only
  rw [hkey, ok_bind, hiv, ok_bind, htag, ok_bind]
  rfl

/-! ## The readers -/

def lengthAt (b : Bytes) (i : Nat) : Nat := getBe (slice b i 4)

def Room (b : Bytes) : Prop := 12 + lengthAt b 0 + lengthAt b 4 + lengthAt b 8 ≤ b.length

theorem assign_ok {b : Bytes} {first last : UInt64} {i n : Nat} (hfirst : first.toNat = i)
    (hlast : last.toNat = i + n) (h : i + n ≤ b.length) : assign b first last = .ok (slice b i n) := by
  have hle : first ≤ last := by
    rw [UInt64.le_iff_toNat_le]
    omega
  rw [assign, if_pos ⟨hle, by omega⟩, hfirst, hlast, Nat.add_sub_cancel_left]

/-- The readers stay inside and find what the record says. -/
theorem parse_ok {blob : Bytes} (out : KeyMaterial) (h : blob.length < 2 ^ 64) :
    parse (some blob) out = .ok (match KeyMaterial.ofBlob blob with
      | some m => (true, m)
      | none => (false, out)) := by
  have hsize : (UInt64.ofNat blob.length).toNat = blob.length := by
    rw [UInt64.toNat_ofNat', Nat.mod_eq_of_lt h]
  unfold parse KeyMaterial.ofBlob
  dsimp only
  by_cases hshort : blob.length < 12
  · have hlt : UInt64.ofNat blob.length < 12 := by
      rw [UInt64.lt_iff_toNat_lt, hsize]
      exact hshort
    rw [if_pos hlt, if_pos hshort]
    rfl
  · have hlt : ¬UInt64.ofNat blob.length < 12 := by
      rw [UInt64.lt_iff_toNat_lt, hsize]
      exact hshort
    obtain ⟨k, hk, hkn⟩ := readBe32_ok (b := blob) (i := 0) (by omega)
    obtain ⟨i, hi, hin⟩ := readBe32_ok (b := blob) (i := 4) (by omega)
    obtain ⟨t, ht, htn⟩ := readBe32_ok (b := blob) (i := 8) (by omega)
    have hk32 := k.toNat_lt
    have hi32 := i.toNat_lt
    have ht32 := t.toNat_lt
    -- three numbers of 32 bits do not wrap in 64
    have h1 : ((12 : UInt64) + k.toUInt64).toNat = 12 + k.toNat := by
      rw [UInt64.toNat_add, UInt32.toNat_toUInt64]
      exact Nat.mod_eq_of_lt (by show 12 + k.toNat < 2 ^ 64; omega)
    have h2 : ((12 : UInt64) + k.toUInt64 + i.toUInt64).toNat = 12 + k.toNat + i.toNat := by
      rw [UInt64.toNat_add, h1, UInt32.toNat_toUInt64]
      exact Nat.mod_eq_of_lt (by omega)
    have h3 : ((12 : UInt64) + k.toUInt64 + i.toUInt64 + t.toUInt64).toNat =
        12 + k.toNat + i.toNat + t.toNat := by
      rw [UInt64.toNat_add, h2, UInt32.toNat_toUInt64]
      exact Nat.mod_eq_of_lt (by omega)
    rw [if_neg hlt, if_neg hshort, hk, hi, ht, ← hkn, ← hin, ← htn]
    show (if UInt64.ofNat blob.length < 12 + k.toUInt64 + i.toUInt64 + t.toUInt64 then _ else _) = _
    have hroom : UInt64.ofNat blob.length < 12 + k.toUInt64 + i.toUInt64 + t.toUInt64 ↔
        blob.length < 12 + k.toNat + i.toNat + t.toNat := by
      rw [UInt64.lt_iff_toNat_lt, hsize, h3]
    by_cases hover : blob.length < 12 + k.toNat + i.toNat + t.toNat
    · rw [if_pos (hroom.mpr hover), if_pos hover]
      rfl
    · rw [if_neg fun hlt => hover (hroom.mp hlt), if_neg hover,
        assign_ok (i := 12) (n := k.toNat) rfl h1 (by omega), ok_bind,
        assign_ok h1 h2 (by omega), ok_bind, assign_ok h2 h3 (by omega), ok_bind]
      rfl

theorem ofBlob_isSome {b : Bytes} : (KeyMaterial.ofBlob b).isSome ↔ Room b := by
  unfold KeyMaterial.ofBlob Room lengthAt
  dsimp only
  split
  · simp only [Option.isSome_none, Bool.false_eq_true, false_iff]
    omega
  · split
    · simp only [Option.isSome_none, Bool.false_eq_true, false_iff]
      omega
    · simp only [Option.isSome_some, true_iff]
      omega

theorem length_blob (m : KeyMaterial) :
    m.blob.length = 12 + m.key.length + m.iv.length + m.tag.length := by
  simp only [KeyMaterial.blob, List.length_append, length_putBe]

def writers : List (Files → Bytes → KeyMaterial → Checked Files) := [storeKey, storeKeyFile]

def readers : List (Files → Bytes → KeyMaterial → Checked (Bool × KeyMaterial)) :=
  [loadKey, loadKeyFile]

theorem writers_store {files : Files} {path : Bytes} {m : KeyMaterial} (hm : m.Fits) :
    ∀ store ∈ writers, store files path m = .ok (Function.update files path (some m.blob)) := by
  intro store hstore
  simp only [writers, List.mem_cons, List.not_mem_nil, or_false] at hstore
  rcases hstore with rfl | rfl
  · rw [storeKey, record_ok hm]
    rfl
  · rw [storeKeyFile, record_ok hm]
    rfl

theorem readers_parse {files : Files} {path : Bytes} {out : KeyMaterial} :
    ∀ load ∈ readers, load files path out = parse (files path) out := by
  intro load hload
  simp only [readers, List.mem_cons, List.not_mem_nil, or_false] at hload
  rcases hload with rfl | rfl <;> rfl

/-- **A key is read back as it was stored, and no record leads a reader outside.** -/
theorem key_blob_exact :
    (∀ (files : Files) (path : Bytes) (m out : KeyMaterial), m.Fits →
      ∀ store ∈ writers, ∀ load ∈ readers,
        (store files path m >>= fun files => load files path out) = .ok (true, m)) ∧
    ∀ (files : Files) (path blob : Bytes) (out : KeyMaterial), files path = some blob →
      blob.length < 2 ^ 64 →
        loadKey files path out = loadKeyFile files path out ∧
          ∀ load ∈ readers, ∃ accepted m, load files path out = .ok (accepted, m) ∧
            (accepted = true ↔ Room blob) := by
  refine ⟨?_, ?_⟩
  · intro files path m out hm store hstore load hload
    have hlen := length_blob m
    have hfits := hm
    obtain ⟨hk, hi, ht⟩ := hfits
    rw [writers_store hm store hstore]
    show load (Function.update files path (some m.blob)) path out = _
    rw [readers_parse load hload, Function.update_self, parse_ok out (by omega),
      KeyMaterial.ofBlob_blob hm]
  · intro files path blob out hfile hlen
    refine ⟨rfl, ?_⟩
    intro load hload
    rw [readers_parse load hload, hfile, parse_ok out hlen]
    have hroom := ofBlob_isSome (b := blob)
    cases hblob : KeyMaterial.ofBlob blob with
    | none => exact ⟨false, out, rfl, by rw [← hroom, hblob]; simp⟩
    | some m => exact ⟨true, m, rfl, by rw [← hroom, hblob]; simp⟩

/-- A key of the server in the client's reader, and a record that is cut short. -/
theorem key_blob_pair :
    (storeKey (fun _ => none) (bytes "k") { key := [1, 2], iv := [3], tag := [] } >>= fun files =>
      loadKeyFile files (bytes "k") {}) = .ok (true, { key := [1, 2], iv := [3], tag := [] }) ∧
    ∃ accepted m, loadKey (fun _ => some [0, 0, 0, 1, 0, 0]) (bytes "k") {} = .ok (accepted, m) ∧
      (accepted = true ↔ Room [0, 0, 0, 1, 0, 0]) :=
  ⟨key_blob_exact.1 _ _ _ _ ⟨by decide, by decide, by decide⟩ _ List.mem_cons_self _
      (List.mem_cons_of_mem _ List.mem_cons_self),
    (key_blob_exact.2 _ _ [0, 0, 0, 1, 0, 0] _ rfl (by decide)).2 _ List.mem_cons_self⟩

end KeyBlob

end EncoderNext
