import EncoderNext.Protocol

/-!
# Base64

The writer takes three bytes at a time and pads the last group. The reader
shifts six bits at a time into a 32-bit accumulator that it never clears, and
takes a byte off as soon as eight bits are there.
-/

namespace EncoderNext

def base64Alphabet : Bytes :=
  bytes "ABCDEFGHIJKLMNOPQRSTUVWXYZabcdefghijklmnopqrstuvwxyz0123456789+/"

def base64Digit (n : Nat) : UInt8 := base64Alphabet.getD n 0

def triple (a b c : UInt8) : Nat := a.toNat <<< 16 ||| b.toNat <<< 8 ||| c.toNat

def sextet (t i : Nat) : UInt8 := base64Digit ((t >>> i) &&& 0x3F)

def base64Encode : Bytes → Bytes
  | [] => []
  | [a] => let t := triple a 0 0; [sextet t 18, sextet t 12, byte '=', byte '=']
  | [a, b] => let t := triple a b 0; [sextet t 18, sextet t 12, sextet t 6, byte '=']
  | a :: b :: c :: rest =>
    let t := triple a b c
    sextet t 18 :: sextet t 12 :: sextet t 6 :: sextet t 0 :: base64Encode rest

def base64Value (c : UInt8) : Option Nat :=
  if byte 'A' ≤ c && c ≤ byte 'Z' then some (c - byte 'A').toNat
  else if byte 'a' ≤ c && c ≤ byte 'z' then some ((c - byte 'a').toNat + 26)
  else if byte '0' ≤ c && c ≤ byte '9' then some ((c - byte '0').toNat + 52)
  else if c = byte '+' then some 62
  else if c = byte '/' then some 63
  else none

def base64Skips (c : UInt8) : Bool := c == byte '=' || isBlank c

def base64Shift (val : BitVec 32) (v : Nat) : BitVec 32 := (val <<< 6) + BitVec.ofNat 32 v

def lowByte (val : BitVec 32) (k : Nat) : UInt8 := ⟨(val.sshiftRight k).setWidth 8⟩

/-- The decoded bytes, and whether every byte of the text was a digit or skipped. -/
def base64Loop (val : BitVec 32) (valb : Int) : Bytes → Bytes × Bool
  | [] => ([], true)
  | c :: rest =>
    if base64Skips c then base64Loop val valb rest
    else
      match base64Value c with
      | none => ((base64Loop val valb rest).1, false)
      | some v =>
        let val := base64Shift val v
        let valb := valb + 6
        if valb ≥ 0 then
          let r := base64Loop val (valb - 8) rest
          (lowByte val valb.toNat :: r.1, r.2)
        else base64Loop val valb rest

def base64Decode (text : Bytes) : Bytes × Bool := base64Loop 0 (-8) text

/-! ## What is encoded is decoded -/

theorem base64Digit_spec : ∀ n : Fin 64, base64Value (base64Digit n) = some n.val ∧
    base64Skips (base64Digit n) = false ∧ isBlank (base64Digit n) = false := by decide +kernel

theorem sextet_value (t i : Nat) : (t >>> i) &&& 0x3F = t / 2 ^ i % 64 := by
  rw [Nat.shiftRight_eq_div_pow]
  exact Nat.and_two_pow_sub_one_eq_mod _ 6

theorem sextet_lt (t i : Nat) : (t >>> i) &&& 0x3F < 64 := by
  rw [sextet_value]
  exact Nat.mod_lt _ (by omega)

theorem sextet_spec (t i : Nat) : base64Value (sextet t i) = some ((t >>> i) &&& 0x3F) ∧
    base64Skips (sextet t i) = false ∧ isBlank (sextet t i) = false :=
  base64Digit_spec ⟨_, sextet_lt t i⟩

theorem triple_eq (a b c : UInt8) : triple a b c = a.toNat * 65536 + b.toNat * 256 + c.toNat := by
  have ha := a.toNat_lt
  have hb := b.toNat_lt
  have hc := c.toNat_lt
  have hlow : b.toNat <<< 8 + c.toNat = b.toNat <<< 8 ||| c.toNat :=
    Nat.shiftLeft_add_eq_or_of_lt (by omega) _
  have hhigh : a.toNat <<< 16 + (b.toNat <<< 8 + c.toNat) =
      a.toNat <<< 16 ||| (b.toNat <<< 8 + c.toNat) :=
    Nat.shiftLeft_add_eq_or_of_lt (by simp only [Nat.shiftLeft_eq]; omega) _
  rw [triple, Nat.or_assoc, ← hlow, ← hhigh]
  simp only [Nat.shiftLeft_eq]
  omega

theorem toNat_lowByte (val : BitVec 32) {k : Nat} (hk : k ≤ 24) :
    (lowByte val k).toNat = val.toNat / 2 ^ k % 256 := by
  have hbits : (val.sshiftRight k).setWidth 8 = val.extractLsb' k 8 := by
    apply BitVec.eq_of_getLsbD_eq
    intro i hi
    have hin : k + i < 32 := by omega
    have hi' : ¬ 32 ≤ i := by omega
    simp [BitVec.getLsbD_sshiftRight, hi, hin, hi']
  show ((val.sshiftRight k).setWidth 8).toNat = _
  rw [hbits, BitVec.extractLsb'_toNat, Nat.shiftRight_eq_div_pow]

theorem toNat_shift (val : BitVec 32) (v : Nat) :
    (base64Shift val v).toNat = (val.toNat * 64 + v) % 2 ^ 32 := by
  simp only [base64Shift, BitVec.toNat_add, BitVec.toNat_shiftLeft, BitVec.toNat_ofNat, Nat.shiftLeft_eq]
  omega

theorem loop_sextet (val : BitVec 32) (valb : Int) (t i : Nat) (rest : Bytes) :
    base64Loop val valb (sextet t i :: rest) =
      let val := base64Shift val (t / 2 ^ i % 64)
      if valb + 6 ≥ 0 then
        (lowByte val (valb + 6).toNat :: (base64Loop val (valb + 6 - 8) rest).1,
          (base64Loop val (valb + 6 - 8) rest).2)
      else base64Loop val (valb + 6) rest := by
  obtain ⟨hv, hs, -⟩ := sextet_spec t i
  rw [base64Loop, if_neg (by simp [hs]), hv, ← sextet_value]

/-- The first two digits of a group give its first byte, whatever the
accumulator held before. -/
theorem loop_first (val : BitVec 32) (a b c : UInt8) (rest : Bytes) :
    ∃ val', base64Loop val (-8) (sextet (triple a b c) 18 :: sextet (triple a b c) 12 :: rest) =
      (a :: (base64Loop val' (-4) rest).1, (base64Loop val' (-4) rest).2) ∧
      val'.toNat % 16 = b.toNat / 16 := by
  have ha := a.toNat_lt
  have hb := b.toNat_lt
  have hc := c.toNat_lt
  rw [loop_sextet, if_neg (by decide), loop_sextet, if_pos (by decide)]
  refine ⟨base64Shift (base64Shift val (triple a b c / 2 ^ 18 % 64))
    (triple a b c / 2 ^ 12 % 64), ?_, ?_⟩
  · have hbyte : lowByte (base64Shift (base64Shift val (triple a b c / 2 ^ 18 % 64))
        (triple a b c / 2 ^ 12 % 64)) 4 = a := by
      apply UInt8.toNat_inj.mp
      rw [toNat_lowByte _ (by omega), toNat_shift, toNat_shift, triple_eq]
      omega
    exact congrArg₂ Prod.mk (congrArg₂ List.cons hbyte rfl) rfl
  · rw [toNat_shift, toNat_shift, triple_eq]
    omega

theorem loop_second (val : BitVec 32) (a b c : UInt8) (rest : Bytes)
    (hval : val.toNat % 16 = b.toNat / 16) :
    ∃ val', base64Loop val (-4) (sextet (triple a b c) 6 :: rest) =
      (b :: (base64Loop val' (-6) rest).1, (base64Loop val' (-6) rest).2) ∧
      val'.toNat % 4 = c.toNat / 64 := by
  have hb := b.toNat_lt
  have hc := c.toNat_lt
  rw [loop_sextet, if_pos (by decide)]
  refine ⟨base64Shift val (triple a b c / 2 ^ 6 % 64), ?_, ?_⟩
  · have hbyte : lowByte (base64Shift val (triple a b c / 2 ^ 6 % 64)) 2 = b := by
      apply UInt8.toNat_inj.mp
      rw [toNat_lowByte _ (by omega), toNat_shift, triple_eq]
      omega
    exact congrArg₂ Prod.mk (congrArg₂ List.cons hbyte rfl) rfl
  · rw [toNat_shift, triple_eq]
    omega

theorem loop_third (val : BitVec 32) (a b c : UInt8) (rest : Bytes)
    (hval : val.toNat % 4 = c.toNat / 64) :
    ∃ val', base64Loop val (-6) (sextet (triple a b c) 0 :: rest) =
      (c :: (base64Loop val' (-8) rest).1, (base64Loop val' (-8) rest).2) := by
  have hc := c.toNat_lt
  rw [loop_sextet, if_pos (by decide)]
  refine ⟨base64Shift val (triple a b c / 2 ^ 0 % 64), ?_⟩
  have hbyte : lowByte (base64Shift val (triple a b c / 2 ^ 0 % 64)) 0 = c := by
    apply UInt8.toNat_inj.mp
    rw [toNat_lowByte _ (by omega), toNat_shift, triple_eq]
    omega
  exact congrArg₂ Prod.mk (congrArg₂ List.cons hbyte rfl) rfl

theorem loop_padding (val : BitVec 32) (valb : Int) (rest : Bytes) :
    base64Loop val valb (byte '=' :: rest) = base64Loop val valb rest := by
  rw [base64Loop, if_pos (by decide)]

theorem loop_encode : ∀ (v : Bytes) (val : BitVec 32), base64Loop val (-8) (base64Encode v) = (v, true)
  | [], _ => rfl
  | [a], val => by
    obtain ⟨val₁, h₁, -⟩ := loop_first val a 0 0 [byte '=', byte '=']
    rw [base64Encode, h₁, loop_padding, loop_padding]
    rfl
  | [a, b], val => by
    obtain ⟨val₁, h₁, hval₁⟩ := loop_first val a b 0 [sextet (triple a b 0) 6, byte '=']
    obtain ⟨val₂, h₂, -⟩ := loop_second val₁ a b 0 [byte '='] hval₁
    rw [base64Encode, h₁, h₂, loop_padding]
    rfl
  | a :: b :: c :: rest, val => by
    obtain ⟨val₁, h₁, hval₁⟩ := loop_first val a b c
      (sextet (triple a b c) 6 :: sextet (triple a b c) 0 :: base64Encode rest)
    obtain ⟨val₂, h₂, hval₂⟩ := loop_second val₁ a b c
      (sextet (triple a b c) 0 :: base64Encode rest) hval₁
    obtain ⟨val₃, h₃⟩ := loop_third val₂ a b c (base64Encode rest) hval₂
    rw [base64Encode, h₁, h₂, h₃, loop_encode rest val₃]

/-- **What is encoded is decoded.** -/
theorem decode_encode_base64 (v : Bytes) : base64Decode (base64Encode v) = (v, true) :=
  loop_encode v 0

theorem encode_plain : ∀ v : Bytes, ∀ c ∈ base64Encode v, isBlank c = false
  | [] => by simp [base64Encode]
  | [a] => by
    have h := fun i => (sextet_spec (triple a 0 0) i).2.2
    have hpad : isBlank (byte '=') = false := by decide
    simp [base64Encode, h, hpad]
  | [a, b] => by
    have h := fun i => (sextet_spec (triple a b 0) i).2.2
    have hpad : isBlank (byte '=') = false := by decide
    simp [base64Encode, h, hpad]
  | a :: b :: c :: rest => by
    have h := fun i => (sextet_spec (triple a b c) i).2.2
    have ih := encode_plain rest
    simpa [base64Encode, h] using ih

theorem encode_ne_nil {v : Bytes} (h : v ≠ []) : base64Encode v ≠ [] := by
  match v, h with
  | [a], _ => simp [base64Encode]
  | [a, b], _ => simp [base64Encode]
  | a :: b :: c :: rest, _ => simp [base64Encode]

/-! ## Blanks in between -/

inductive Spaced : Bytes → Bytes → Prop where
  | nil : Spaced [] []
  | keep (c : UInt8) {text spaced : Bytes} : Spaced text spaced → Spaced (c :: text) (c :: spaced)
  | blank {c : UInt8} {text spaced : Bytes} : isBlank c = true → Spaced text spaced →
      Spaced text (c :: spaced)

theorem loop_spaced {text spaced : Bytes} (h : Spaced text spaced) : ∀ (val : BitVec 32) (valb : Int),
    base64Loop val valb spaced = base64Loop val valb text := by
  induction h with
  | nil => exact fun _ _ => rfl
  | keep c _ ih =>
    intro val valb
    simp only [base64Loop, ih]
  | @blank c _ _ hc _ ih =>
    intro val valb
    have hskip : base64Skips c = true := by rw [base64Skips, hc, Bool.or_true]
    rw [base64Loop, if_pos hskip, ih]

/-- **Every byte vector comes back**, with blanks anywhere in its text as well. -/
theorem base64_exact : (∀ v : Bytes, base64Decode (base64Encode v) = (v, true)) ∧
    (∀ (v text : Bytes), Spaced (base64Encode v) text → base64Decode text = (v, true)) ∧
    ∀ text spaced : Bytes, Spaced text spaced → base64Decode spaced = base64Decode text := by
  refine ⟨decode_encode_base64, fun v text h => ?_, fun text spaced h => loop_spaced h 0 (-8)⟩
  rw [base64Decode, loop_spaced h 0 (-8)]
  exact loop_encode v 0

theorem base64_exact_wrapped : base64Decode (bytes "AQ\n I=") = ([1, 2], true) := by
  have hspaced : Spaced (base64Encode [1, 2]) (bytes "AQ\n I=") := by
    have htext : base64Encode [1, 2] = bytes "AQI=" := by decide
    rw [htext]
    exact .keep _ (.keep _ (.blank rfl (.blank rfl (.keep _ (.keep _ .nil)))))
  exact base64_exact.2.1 [1, 2] _ hspaced

end EncoderNext
