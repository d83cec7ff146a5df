import EncoderNext.Base64

/-!
# The reader's arithmetic

The accumulator of `base64_decode` is a signed 32-bit integer that is shifted with every
digit and never cleared. It stays in its range as long as the digits, read as one number,
do; a sixth digit is as a rule too many.
-/

namespace EncoderNext

namespace Base64

/-- At every digit the accumulator is not negative, the sum fits, and a shift count that
is used is below the width. -/
def Defined (val : BitVec 32) (valb : Int) : Bytes → Prop
  | [] => True
  | c :: rest =>
    if base64Skips c then Defined val valb rest
    else
      match base64Value c with
      | none => Defined val valb rest
      | some v =>
        0 ≤ val.toInt ∧ val.toInt * 2 ^ 6 + v ≤ 2 ^ 31 - 1 ∧
          if valb + 6 ≥ 0 then valb + 6 ≤ 31 ∧ Defined (base64Shift val v) (valb + 6 - 8) rest
          else Defined (base64Shift val v) (valb + 6) rest

/-! ## The condition -/

def isDigit64 (c : UInt8) : Bool := (base64Value c).isSome

def significant (text : Bytes) : Bytes := (text.filter isDigit64).dropWhile (· == byte 'A')

/-- Thirty-one bits hold five digits, or six of which the first is a `B`. -/
def FewDigits (text : Bytes) : Prop :=
  (significant text).length ≤ 5 ∨
    (significant text).length = 6 ∧ (significant text).head? = some (byte 'B')

instance (text : Bytes) : Decidable (FewDigits text) := inferInstanceAs (Decidable (_ ∨ _))

/-! ## Digits as one number -/

def digitOf (c : UInt8) : Nat := (base64Value c).getD 0

def valueFrom (val : Nat) (digits : Bytes) : Nat := digits.foldl (fun val c => val * 64 + digitOf c) val

theorem digitOf_lt : ∀ c : UInt8, digitOf c < 64 := forall_byte (by decide +kernel)

theorem digit_not_skipped : ∀ c : UInt8, isDigit64 c = true → base64Skips c = false :=
  forall_byte (by decide +kernel)

theorem digitOf_zero : ∀ c : UInt8, isDigit64 c = true → (digitOf c = 0 ↔ c = byte 'A') :=
  forall_byte (by decide +kernel)

theorem digitOf_one : ∀ c : UInt8, isDigit64 c = true → (digitOf c = 1 ↔ c = byte 'B') :=
  forall_byte (by decide +kernel)

theorem valueFrom_bounds (digits : Bytes) : ∀ val : Nat,
    val * 64 ^ digits.length ≤ valueFrom val digits ∧
      valueFrom val digits < (val + 1) * 64 ^ digits.length := by
  induction digits with
  | nil => intro val; simp [valueFrom]
  | cons c digits ih =>
    intro val
    obtain ⟨hlow, hhigh⟩ := ih (val * 64 + digitOf c)
    have hc := digitOf_lt c
    have hvalue : valueFrom val (c :: digits) = valueFrom (val * 64 + digitOf c) digits := rfl
    rw [hvalue, List.length_cons, Nat.pow_succ']
    constructor
    · calc val * (64 * 64 ^ digits.length) = val * 64 * 64 ^ digits.length := by rw [Nat.mul_assoc]
        _ ≤ (val * 64 + digitOf c) * 64 ^ digits.length := Nat.mul_le_mul_right _ (Nat.le_add_right _ _)
        _ ≤ _ := hlow
    · calc valueFrom (val * 64 + digitOf c) digits < (val * 64 + digitOf c + 1) * 64 ^ digits.length := hhigh
        _ ≤ (val + 1) * 64 * 64 ^ digits.length := Nat.mul_le_mul_right _ (by omega)
        _ = (val + 1) * (64 * 64 ^ digits.length) := by rw [Nat.mul_assoc]

theorem le_valueFrom (val : Nat) (digits : Bytes) : val ≤ valueFrom val digits :=
  (Nat.le_mul_of_pos_right val (Nat.pow_pos (by decide))).trans (valueFrom_bounds digits val).1

theorem valueFrom_significant : ∀ {digits : Bytes}, (∀ c ∈ digits, isDigit64 c = true) →
    valueFrom 0 digits = valueFrom 0 (digits.dropWhile (· == byte 'A'))
  | [], _ => rfl
  | c :: digits, h => by
    rw [List.dropWhile_cons]
    split
    · rename_i hc
      have hzero := (digitOf_zero c (h c List.mem_cons_self)).mpr (beq_iff_eq.mp hc)
      have hvalue : valueFrom 0 (c :: digits) = valueFrom (digitOf c) digits := by
        simp [valueFrom]
      rw [hvalue, hzero]
      exact valueFrom_significant fun d hd => h d (List.mem_cons_of_mem c hd)
    · rfl

theorem value_lt_iff (text : Bytes) : valueFrom 0 (text.filter isDigit64) < 2 ^ 31 ↔ FewDigits text := by
  have hdigits : ∀ c ∈ text.filter isDigit64, isDigit64 c = true := fun c hc => (List.mem_filter.mp hc).2
  rw [valueFrom_significant hdigits]
  show valueFrom 0 (significant text) < 2 ^ 31 ↔ _
  unfold FewDigits
  cases hs : significant text with
  | nil => simp [valueFrom]
  | cons c digits =>
    have hmem : c ∈ significant text := by rw [hs]; exact List.mem_cons_self
    have hdigit : isDigit64 c = true := hdigits c ((List.dropWhile_suffix _).subset hmem)
    have hfirst : c ≠ byte 'A' := by
      intro hc
      have hhead := List.head?_dropWhile_not (· == byte 'A') (text.filter isDigit64)
      rw [show (text.filter isDigit64).dropWhile (· == byte 'A') = c :: digits from hs] at hhead
      simp [hc] at hhead
    have hpos : digitOf c ≠ 0 := fun h => hfirst ((digitOf_zero c hdigit).mp h)
    have hvalue : valueFrom 0 (c :: digits) = valueFrom (digitOf c) digits := by simp [valueFrom]
    obtain ⟨hlow, hhigh⟩ := valueFrom_bounds digits (digitOf c)
    have hsmall := digitOf_lt c
    rw [hvalue, List.length_cons, List.head?_cons, Option.some.injEq, ← digitOf_one c hdigit]
    rcases Nat.lt_trichotomy digits.length 5 with hn | hn | hn
    · have hpow : 64 ^ digits.length ≤ 64 ^ 4 := Nat.pow_le_pow_right (by decide) (by omega)
      have hbound : (digitOf c + 1) * 64 ^ digits.length ≤ 64 * 64 ^ 4 := Nat.mul_le_mul (by omega) hpow
      constructor
      · intro _
        omega
      · intro _
        omega
    · rw [hn] at hlow hhigh ⊢
      omega
    · have hpow : 64 ^ 6 ≤ 64 ^ digits.length := Nat.pow_le_pow_right (by decide) (by omega)
      have hbound : 1 * 64 ^ 6 ≤ digitOf c * 64 ^ digits.length := Nat.mul_le_mul (by omega) hpow
      omega

/-! ## The accumulator is that number -/

theorem toInt_small {val : BitVec 32} (h : val.toNat < 2 ^ 31) : val.toInt = val.toNat := by
  rw [BitVec.toInt_eq_toNat_of_lt (by omega)]

theorem defined_iff_value : ∀ (text : Bytes) (val : BitVec 32) (valb : Int), val.toNat < 2 ^ 31 →
    -8 ≤ valb → valb < 0 →
      (Defined val valb text ↔ valueFrom val.toNat (text.filter isDigit64) < 2 ^ 31)
  | [], val, valb, hval, _, _ => by simpa [Defined, valueFrom] using hval
  | c :: rest, val, valb, hval, hfrom, hto => by
    rw [Defined]
    cases hv : base64Value c with
    | none =>
      have hdigit : isDigit64 c = false := by rw [isDigit64, hv]; rfl
      have hfilter : (c :: rest).filter isDigit64 = rest.filter isDigit64 := by simp [hdigit]
      rw [hfilter]
      dsimp only
      rw [ite_self]
      exact defined_iff_value rest val valb hval hfrom hto
    | some v =>
      have hdigit : isDigit64 c = true := by rw [isDigit64, hv]; rfl
      have hv64 : v < 64 := by
        have := digitOf_lt c
        rwa [digitOf, hv] at this
      have hvalue : valueFrom val.toNat ((c :: rest).filter isDigit64) =
          valueFrom (val.toNat * 64 + v) (rest.filter isDigit64) := by
        rw [List.filter_cons, if_pos hdigit, valueFrom, List.foldl_cons, digitOf, hv]
        rfl
      rw [if_neg (by simp [digit_not_skipped c hdigit]), hvalue]
      dsimp only
      rw [toInt_small hval]
      have hnext : val.toNat * 64 + v < 2 ^ 31 → (base64Shift val v).toNat = val.toNat * 64 + v := by
        intro hlt
        rw [toNat_shift]
        omega
      by_cases hlt : val.toNat * 64 + v < 2 ^ 31
      · have hsum : (val.toNat : Int) * 2 ^ 6 + v ≤ 2 ^ 31 - 1 := by omega
        rw [← hnext hlt]
        have hrest : (base64Shift val v).toNat < 2 ^ 31 := by rw [hnext hlt]; exact hlt
        split
        · rw [defined_iff_value rest _ _ hrest (by omega) (by omega)]
          exact ⟨fun h => h.2.2.2, fun h => ⟨by omega, hsum, by omega, h⟩⟩
        · rw [defined_iff_value rest _ _ hrest (by omega) (by omega)]
          exact ⟨fun h => h.2.2, fun h => ⟨by omega, hsum, h⟩⟩
      -- what does not fit now only grows with more digits
      · have hbig := le_valueFrom (val.toNat * 64 + v) (rest.filter isDigit64)
        constructor
        · intro h
          have := h.2.1
          omega
        · intro h
          omega

/-- **The arithmetic is defined exactly for few digits.** -/
theorem base64_defined_iff (text : Bytes) : Defined 0 (-8) text ↔ FewDigits text := by
  rw [defined_iff_value text 0 (-8) (by decide) (by decide) (by decide), ← value_lt_iff]
  rfl

/-- The text of five bytes is one digit too long. -/
theorem base64_overflows : base64Encode [255, 255, 255, 255, 255] = bytes "//////8=" ∧
    ¬Defined 0 (-8) (bytes "//////8=") := by
  refine ⟨by decide, ?_⟩
  rw [defined_iff_value _ 0 (-8) (by decide) (by decide) (by decide)]
  decide

end Base64

end EncoderNext
