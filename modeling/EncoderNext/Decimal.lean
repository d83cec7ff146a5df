import EncoderNext.Protocol
import Mathlib.Tactic.IntervalCases

/-!
# Decimal numbers

`std::to_string` and `std::stoull`: the reader skips white space, takes a sign,
stops at the first byte that is no digit, and refuses what does not fit.
-/

namespace EncoderNext

/-- `std::to_string` of an unsigned number. -/
def decimal (n : Nat) : Bytes := (Nat.toDigits 10 n).map Char.toUInt8

def decimalInt (n : Int) : Bytes :=
  if n < 0 then byte '-' :: decimal n.natAbs else decimal n.natAbs

def isDigit (c : UInt8) : Bool := byte '0' ≤ c && c ≤ byte '9'

def isSpace (c : UInt8) : Bool := c == 32 || (9 ≤ c && c ≤ 13)

def digitsValue (ds : Bytes) : Nat := ds.foldl (fun v c => v * 10 + (c - byte '0').toNat) 0

def signed : Bytes → Bool × Bytes
  | [] => (false, [])
  | c :: rest =>
    if c = byte '-' then (true, rest) else if c = byte '+' then (false, rest) else (false, c :: rest)

/-- `std::stoull`; nothing where it throws. A sign counts modulo 2⁶⁴. -/
def stoull (s : Bytes) : Option Nat :=
  let (negative, s) := signed (s.dropWhile isSpace)
  let ds := s.takeWhile isDigit
  if ds = [] then none
  else if digitsValue ds ≥ 2 ^ 64 then none
  else some (if negative then (2 ^ 64 - digitsValue ds) % 2 ^ 64 else digitsValue ds)

theorem digitChar_toUInt8 {d : Nat} (h : d < 10) :
    (Nat.digitChar d).toUInt8 = UInt8.ofNat (48 + d) := by
  interval_cases d <;> rfl

theorem decimal_small {n : Nat} (h : n < 10) : decimal n = [UInt8.ofNat (48 + n)] := by
  rw [decimal, Nat.toDigits_of_lt_base h, List.map_singleton, digitChar_toUInt8 h]

theorem decimal_step {n : Nat} (h : 10 ≤ n) :
    decimal n = decimal (n / 10) ++ [UInt8.ofNat (48 + n % 10)] := by
  have hlast : n % 10 < 10 := Nat.mod_lt n (by omega)
  rw [decimal, Nat.toDigits_of_base_le (by omega) h, List.map_append, List.map_singleton,
    digitChar_toUInt8 hlast]
  rfl

theorem digit_ofNat {d : Nat} (h : d < 10) : isDigit (UInt8.ofNat (48 + d)) = true ∧
    (UInt8.ofNat (48 + d) - byte '0').toNat = d ∧ isSpace (UInt8.ofNat (48 + d)) = false := by
  interval_cases d <;> decide

theorem decimal_ne_nil (n : Nat) : decimal n ≠ [] := by
  rcases Nat.lt_or_ge n 10 with h | h
  · simp [decimal_small h]
  · simp [decimal_step h]

theorem decimal_digits (n : Nat) : ∀ c ∈ decimal n, isDigit c = true := by
  induction n using Nat.strongRecOn with
  | ind n ih =>
    intro c hc
    rcases Nat.lt_or_ge n 10 with h | h
    · rw [decimal_small h, List.mem_singleton] at hc
      exact hc ▸ (digit_ofNat h).1
    · rw [decimal_step h, List.mem_append, List.mem_singleton] at hc
      rcases hc with hc | hc
      · exact ih (n / 10) (by omega) c hc
      · exact hc ▸ (digit_ofNat (Nat.mod_lt n (by omega))).1

theorem digitsValue_snoc (ds : Bytes) (c : UInt8) :
    digitsValue (ds ++ [c]) = digitsValue ds * 10 + (c - byte '0').toNat := by
  simp [digitsValue]

theorem digitsValue_decimal (n : Nat) : digitsValue (decimal n) = n := by
  induction n using Nat.strongRecOn with
  | ind n ih =>
    rcases Nat.lt_or_ge n 10 with h | h
    · have hd := (digit_ofNat h).2.1
      rw [decimal_small h, ← List.nil_append [_], digitsValue_snoc, hd]
      simp [digitsValue]
    · have hd := (digit_ofNat (Nat.mod_lt n (by omega : 10 > 0))).2.1
      rw [decimal_step h, digitsValue_snoc, ih (n / 10) (by omega), hd]
      omega

theorem digit_plain : ∀ c : UInt8, isDigit c = true →
    isSpace c = false ∧ isBlank c = false ∧ c ≠ byte '-' ∧ c ≠ byte '+' :=
  forall_byte (by decide +kernel)

theorem signed_decimal (n : Nat) : signed ((decimal n).dropWhile isSpace) = (false, decimal n) := by
  cases hd : decimal n with
  | nil => exact absurd hd (decimal_ne_nil n)
  | cons c rest =>
    have hc := digit_plain c (decimal_digits n c (by simp [hd]))
    simp [hc.1, signed, hc.2.2.1, hc.2.2.2]

theorem takeWhile_decimal (n : Nat) : (decimal n).takeWhile isDigit = decimal n :=
  List.takeWhile_eq_self_iff.mpr (decimal_digits n)

/-- **A size that was written is read**, if it fits. -/
theorem stoull_decimal (n : Nat) : stoull (decimal n) = if n < 2 ^ 64 then some n else none := by
  rw [stoull, signed_decimal]
  simp only [takeWhile_decimal, digitsValue_decimal, if_neg (decimal_ne_nil n)]
  by_cases hn : n < 2 ^ 64
  · rw [if_neg (by omega), if_pos hn]
    rfl
  · rw [if_pos (by omega), if_neg hn]

theorem length_decimal_le : ∀ (k n : Nat), n < 10 ^ (k + 1) → (decimal n).length ≤ k + 1
  | 0, n, h => by simp [decimal_small (show n < 10 by omega)]
  | k + 1, n, h => by
    rcases Nat.lt_or_ge n 10 with hn | hn
    · simp [decimal_small hn]
    · have hshort := length_decimal_le k (n / 10) (by rw [Nat.pow_succ] at h; omega)
      rw [decimal_step hn, List.length_append, List.length_singleton]
      omega

theorem length_decimal_word {n : Nat} (h : n < 2 ^ 64) : (decimal n).length ≤ 20 :=
  length_decimal_le 19 n (lt_of_lt_of_le h (by norm_num))

theorem length_decimal_count (n : UInt32) : (decimal n.toNat).length ≤ 10 :=
  length_decimal_le 9 _ (lt_of_lt_of_le n.toNat_lt (by norm_num))

/-! ## Signed numbers -/

def Int64Range (n : Int) : Prop := -2 ^ 63 ≤ n ∧ n < 2 ^ 63

instance (n : Int) : Decidable (Int64Range n) := inferInstanceAs (Decidable (_ ∧ _))

def stoll (s : Bytes) : Option Int :=
  let (negative, s) := signed (s.dropWhile isSpace)
  let ds := s.takeWhile isDigit
  let n : Int := if negative then -digitsValue ds else digitsValue ds
  if ds = [] then none else if Int64Range n then some n else none

def isNumeral (c : UInt8) : Bool := isDigit c || c == byte '-'

theorem decimal_numeral (n : Nat) : ∀ c ∈ decimal n, isNumeral c = true := by
  intro c hc
  simp [isNumeral, decimal_digits n c hc]

theorem decimalInt_numeral (n : Int) : ∀ c ∈ decimalInt n, isNumeral c = true := by
  intro c hc
  by_cases hn : n < 0
  · rw [decimalInt, if_pos hn, List.mem_cons] at hc
    rcases hc with rfl | hc
    · rfl
    · exact decimal_numeral n.natAbs c hc
  · rw [decimalInt, if_neg hn] at hc
    exact decimal_numeral n.natAbs c hc

theorem not_numeral {c : UInt8} (h : isNumeral c = false) {s : Bytes}
    (hs : ∀ d ∈ s, isNumeral d = true) : c ∉ s := by
  intro hc
  rw [hs c hc] at h
  cases h

theorem length_decimalInt {n : Int} (h : Int64Range n) : (decimalInt n).length ≤ 20 := by
  have hshort := length_decimal_le 18 n.natAbs (by unfold Int64Range at h; omega)
  unfold decimalInt
  split
  · rw [List.length_cons]
    omega
  · omega

theorem decimalInt_ne_nil (n : Int) : decimalInt n ≠ [] := by
  unfold decimalInt
  split
  · simp
  · exact decimal_ne_nil n.natAbs

/-- **A time that was written is read.** -/
theorem stoll_decimalInt (n : Int) :
    stoll (decimalInt n) = if Int64Range n then some n else none := by
  by_cases hn : n < 0
  · have hsign : signed ((decimalInt n).dropWhile isSpace) = (true, decimal n.natAbs) := by
      rw [decimalInt, if_pos hn, List.dropWhile_cons_of_neg (by decide), signed, if_pos rfl]
    have habs : -|n| = n := by rw [abs_of_neg hn, neg_neg]
    simp [stoll, hsign, takeWhile_decimal, digitsValue_decimal, decimal_ne_nil, habs]
  · have hsign : signed ((decimalInt n).dropWhile isSpace) = (false, decimal n.natAbs) := by
      rw [decimalInt, if_neg hn, signed_decimal]
    have habs : |n| = n := abs_of_nonneg (by omega)
    simp [stoll, hsign, takeWhile_decimal, digitsValue_decimal, decimal_ne_nil, habs]

theorem decimalInt_injective {n m : Int} (h : decimalInt n = decimalInt m) : n = m := by
  have hinj {n m : Nat} (h : decimal n = decimal m) : n = m := by
    rw [← digitsValue_decimal n, h, digitsValue_decimal]
  have hsign (n m : Nat) : byte '-' :: decimal n ≠ decimal m := by
    intro h
    have hminus := (digit_plain _ (decimal_digits m (byte '-') (by simp [← h]))).2.2.1
    exact hminus rfl
  unfold decimalInt at h
  by_cases hn : n < 0
  · by_cases hm : m < 0
    · simp only [hn, hm, if_true, List.cons.injEq, true_and] at h
      have := hinj h
      omega
    · simp only [hn, hm, if_true, if_false] at h
      exact absurd h (hsign _ _)
  · by_cases hm : m < 0
    · simp only [hn, hm, if_true, if_false] at h
      exact absurd h.symm (hsign _ _)
    · simp only [hn, hm, if_false] at h
      have := hinj h
      omega

end EncoderNext
