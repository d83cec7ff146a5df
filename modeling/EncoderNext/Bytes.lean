import Mathlib.Data.List.Basic
import Mathlib.Data.UInt

/-!
# Byte strings

`std::string` and byte vectors are lists of bytes. Text in the source becomes
the bytes of its characters, hexadecimal is lower case as everywhere in the
source.
-/

namespace EncoderNext

abbrev Bytes := List UInt8

instance : LawfulBEq Bytes := inferInstance

def bytes (s : String) : Bytes := s.toList.map Char.toUInt8

def byte (c : Char) : UInt8 := c.toUInt8

-- Decoding a literal is what evaluates slowly, so a joined one is taken apart first.
theorem bytes_append (a b : String) : bytes (a ++ b) = bytes a ++ bytes b := by
  rw [bytes, String.toList_append, List.map_append, bytes, bytes]

theorem forall_byte {P : UInt8 → Prop} (h : ∀ n : Fin 256, P (UInt8.ofFin n)) (c : UInt8) : P c :=
  h c.toFin

/-! ## Hexadecimal -/

def hexDigits : Bytes := bytes "0123456789abcdef"

def hexDigit (n : UInt8) : UInt8 := hexDigits.getD n.toNat 0

def toHex : Bytes → Bytes
  | [] => []
  | c :: rest => hexDigit (c >>> 4) :: hexDigit (c &&& 15) :: toHex rest

def isHexDigit (c : UInt8) : Bool :=
  (byte '0' ≤ c && c ≤ byte '9') || (byte 'a' ≤ c && c ≤ byte 'f')

/-- The value of a lower-case digit; the source answers `-1` elsewhere. -/
def unhex (c : UInt8) : Option UInt8 :=
  if byte '0' ≤ c && c ≤ byte '9' then some (c - byte '0')
  else if byte 'a' ≤ c && c ≤ byte 'f' then some (c - byte 'a' + 10)
  else none

@[simp] theorem toHex_nil : toHex [] = [] := rfl

@[simp] theorem length_toHex : ∀ bs : Bytes, (toHex bs).length = 2 * bs.length
  | [] => rfl
  | _ :: bs => by simp only [toHex, List.length_cons, length_toHex bs]; omega

theorem byte_halves : ∀ c : UInt8, unhex (hexDigit (c >>> 4)) = some (c >>> 4) ∧
    unhex (hexDigit (c &&& 15)) = some (c &&& 15) ∧ (c >>> 4) <<< 4 ||| (c &&& 15) = c ∧
    isHexDigit (hexDigit (c >>> 4)) = true ∧ isHexDigit (hexDigit (c &&& 15)) = true :=
  forall_byte (by decide +kernel)

theorem unhex_high (c : UInt8) : unhex (hexDigit (c >>> 4)) = some (c >>> 4) := (byte_halves c).1

theorem unhex_low (c : UInt8) : unhex (hexDigit (c &&& 15)) = some (c &&& 15) := (byte_halves c).2.1

theorem join_halves (c : UInt8) : (c >>> 4) <<< 4 ||| (c &&& 15) = c := (byte_halves c).2.2.1

theorem isHexDigit_high (c : UInt8) : isHexDigit (hexDigit (c >>> 4)) = true := (byte_halves c).2.2.2.1

theorem isHexDigit_low (c : UInt8) : isHexDigit (hexDigit (c &&& 15)) = true :=
  (byte_halves c).2.2.2.2

theorem toHex_all : ∀ bs : Bytes, (toHex bs).all isHexDigit = true
  | [] => rfl
  | c :: bs => by
    simp only [toHex, List.all_cons, isHexDigit_high, isHexDigit_low, toHex_all bs, Bool.and_self]

theorem not_mem_toHex {c : UInt8} (hc : isHexDigit c = false) (bs : Bytes) : c ∉ toHex bs := by
  intro h
  have hdigit := List.all_eq_true.mp (toHex_all bs) c h
  exact absurd hdigit (by simp [hc])

theorem unhex_digit : ∀ {c v : UInt8}, unhex c = some v → v.toNat < 16 ∧ hexDigit v = c :=
  fun {c} => forall_byte (P := fun c => ∀ {v}, unhex c = some v → v.toNat < 16 ∧ hexDigit v = c)
    (fun n v h => by
      have key : ∀ n : Fin 256, (unhex (UInt8.ofFin n)).all fun v =>
          decide (v.toNat < 16) && hexDigit v == UInt8.ofFin n := by decide +kernel
      have := key n
      rw [h] at this
      simpa using this) c

theorem halves_join : ∀ m n : Fin 16,
    (UInt8.ofNat m <<< 4 ||| UInt8.ofNat n) >>> 4 = UInt8.ofNat m ∧
      (UInt8.ofNat m <<< 4 ||| UInt8.ofNat n) &&& 15 = UInt8.ofNat n := by decide

theorem toHex_unhex {hi lo h l : UInt8} (hh : unhex hi = some h) (hl : unhex lo = some l) :
    toHex [h <<< 4 ||| l] = [hi, lo] := by
  obtain ⟨h16, hd⟩ := unhex_digit hh
  obtain ⟨l16, ld⟩ := unhex_digit hl
  have key := halves_join ⟨h.toNat, h16⟩ ⟨l.toNat, l16⟩
  simp only [UInt8.ofNat_toNat] at key
  simp only [toHex, key.1, key.2, hd, ld]

theorem toHex_injective : Function.Injective toHex
  | [], [], _ => rfl
  | [], _ :: _, h => by cases h
  | _ :: _, [], h => by cases h
  | c :: bs, d :: ds, h => by
    simp only [toHex, List.cons.injEq] at h
    obtain ⟨h1, h2, h3⟩ := h
    have hi := congrArg unhex h1
    have lo := congrArg unhex h2
    rw [unhex_high, unhex_high, Option.some.injEq] at hi
    rw [unhex_low, unhex_low, Option.some.injEq] at lo
    rw [← join_halves c, ← join_halves d, hi, lo, toHex_injective h3]

/-! ## Positions -/

def slice (b : Bytes) (i n : Nat) : Bytes := (b.drop i).take n

theorem slice_mid {a b c : Bytes} {i n : Nat} (hi : a.length = i) (hn : b.length = n) :
    slice (a ++ b ++ c) i n = b := by
  subst hi
  subst hn
  rw [slice, List.append_assoc, List.drop_left, List.take_left]

theorem length_slice {b : Bytes} {i n : Nat} (h : i + n ≤ b.length) : (slice b i n).length = n := by
  rw [slice, List.length_take, List.length_drop]
  omega

theorem slice_add (b : Bytes) (i n m : Nat) : slice b i n ++ slice b (i + n) m = slice b i (n + m) := by
  rw [slice, slice, slice, ← List.drop_drop, List.take_add]

theorem slice_one {b : Bytes} {i : Nat} (h : i < b.length) : slice b i 1 = [b.getD i 0] := by
  have hget : b.getD i 0 = b[i] := by simp [h]
  rw [slice, List.drop_eq_getElem_cons h, hget, List.take_succ_cons, List.take_zero]

/-- The part before the first `c` and the part after it (`find` and `substr`). -/
def splitAt? (c : UInt8) : Bytes → Option (Bytes × Bytes)
  | [] => none
  | d :: rest => if d = c then some ([], rest) else (splitAt? c rest).map fun p => (d :: p.1, p.2)

theorem splitAt?_append {c : UInt8} {s rest : Bytes} (h : c ∉ s) :
    splitAt? c (s ++ c :: rest) = some (s, rest) := by
  induction s with
  | nil => simp [splitAt?]
  | cons d s ih =>
    have hd : d ≠ c := fun he => h (by simp [he])
    rw [List.cons_append, splitAt?, if_neg hd, ih fun hm => h (by simp [hm])]
    rfl

theorem splitAt?_eq {c : UInt8} : ∀ {s a b : Bytes}, splitAt? c s = some (a, b) → s = a ++ c :: b ∧ c ∉ a
  | [], _, _, h => by cases h
  | d :: s, a, b, h => by
    rw [splitAt?] at h
    split at h
    · rename_i hd
      cases h
      exact ⟨by rw [hd]; rfl, by simp⟩
    · rename_i hd
      obtain ⟨q, hq, he⟩ := Option.map_eq_some_iff.mp h
      cases he
      obtain ⟨hs, ha⟩ := splitAt?_eq hq
      refine ⟨by rw [hs]; rfl, ?_⟩
      rw [List.mem_cons, not_or]
      exact ⟨fun hc => hd hc.symm, ha⟩

/-! ## Numbers, most significant byte first -/

def putBe : Nat → Nat → Bytes
  | 0, _ => []
  | k + 1, n => putBe k (n / 256) ++ [UInt8.ofNat n]

def getBe (b : Bytes) : Nat := b.foldl (fun value c => value * 256 + c.toNat) 0

@[simp] theorem length_putBe : ∀ k n : Nat, (putBe k n).length = k
  | 0, _ => rfl
  | k + 1, n => by simp [putBe, length_putBe k]

theorem getBe_snoc (b : Bytes) (c : UInt8) : getBe (b ++ [c]) = getBe b * 256 + c.toNat := by
  simp [getBe]

theorem getBe_putBe : ∀ k n : Nat, getBe (putBe k n) = n % 256 ^ k
  | 0, n => by simp [putBe, getBe, Nat.mod_one]
  | k + 1, n => by
    have hlow : (UInt8.ofNat n).toNat = n % 256 := by simp
    rw [putBe, getBe_snoc, getBe_putBe k, hlow, Nat.pow_succ']
    have := Nat.mod_mul (x := n) (a := 256) (b := 256 ^ k)
    omega

theorem getBe_lt (b : Bytes) : getBe b < 256 ^ b.length := by
  induction b using List.reverseRecOn with
  | nil => simp [getBe]
  | append_singleton b c ih =>
    have hc : c.toNat < 256 := c.toNat_lt
    rw [getBe_snoc, List.length_append, List.length_singleton, Nat.pow_succ]
    omega

theorem putBe_getBe (b : Bytes) : putBe b.length (getBe b) = b := by
  induction b using List.reverseRecOn with
  | nil => rfl
  | append_singleton b c ih =>
    have hc : c.toNat < 256 := c.toNat_lt
    have hhigh : (getBe b * 256 + c.toNat) / 256 = getBe b := by omega
    have hlow : UInt8.ofNat (getBe b * 256 + c.toNat) = c := by
      apply UInt8.toNat_inj.mp
      rw [UInt8.toNat_ofNat']
      omega
    rw [getBe_snoc, List.length_append, List.length_singleton, putBe, hhigh, ih, hlow]

end EncoderNext
