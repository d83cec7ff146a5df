import EncoderNext.WifiProfile
import Mathlib.Data.Nat.Bitwise

/-!
# Text SSIDs

`valid_text_ssid` reads a byte string code point by code point. It accepts exactly
the UTF-8 texts without controls, line separators and noncharacters, and it never
reads past the end.
-/

namespace EncoderNext

def utf8 (cs : List Char) : Bytes := cs.flatMap String.utf8EncodeChar

def TextChar (c : Char) : Prop :=
  ¬ (c.toNat < 0x20 ∨ (0x7f ≤ c.toNat ∧ c.toNat ≤ 0x9f) ∨ c.toNat = 0x2028 ∨ c.toNat = 0x2029 ∨
    (0xfdd0 ≤ c.toNat ∧ c.toNat ≤ 0xfdef) ∨ 0xfffe ≤ c.toNat % 0x10000)

instance (c : Char) : Decidable (TextChar c) := inferInstanceAs (Decidable (¬ _))

namespace WifiProfile

/-! ## The scan by positions -/

def scanContinuation (text : Bytes) : Nat → UInt32 → Nat → List Nat × Option (UInt32 × Nat)
  | 0, point, i => ([], some (point, i))
  | n + 1, point, i =>
    let next := text.getD i 0
    if next &&& 0xc0 ≠ 0x80 then ([i], none)
    else
      let r := scanContinuation text n (point <<< 6 ||| (next &&& 0x3f).toUInt32) (i + 1)
      (i :: r.1, r.2)

def scanLoop (text : Bytes) : Nat → Nat → List Nat × Bool
  | 0, i => ([], i ≥ text.length)
  | fuel + 1, i =>
    if i ≥ text.length then ([], true)
    else
      match lead (text.getD i 0) with
      | none => ([i], false)
      | some (point, remaining, minimum) =>
        if text.length - (i + 1) < remaining then ([i], false)
        else
          match scanContinuation text remaining point (i + 1) with
          | (reads, none) => (i :: reads, false)
          | (reads, some (point, j)) =>
            if pointOk minimum point then
              let r := scanLoop text fuel j
              (i :: reads ++ r.1, r.2)
            else (i :: reads, false)

def scanText (text : Bytes) : List Nat × Bool := scanLoop text text.length 0

theorem scanContinuation_eq (text : Bytes) : ∀ (n : Nat) (point : UInt32) (i : Nat),
    i + n ≤ text.length →
    (∀ k ∈ (scanContinuation text n point i).1, k < text.length) ∧
    ((scanContinuation text n point i).2 = none → continuation n point (text.drop i) = none) ∧
    ∀ p j, (scanContinuation text n point i).2 = some (p, j) →
      continuation n point (text.drop i) = some (p, text.drop j) ∧ j = i + n
  | 0, point, i, _ => by
    simp [scanContinuation, continuation]
  | n + 1, point, i, h => by
    have hi : i < text.length := by omega
    have hget : text.getD i 0 = text[i] := List.getD_eq_getElem _ _ hi
    have hdrop : text.drop i = text[i] :: text.drop (i + 1) := List.drop_eq_getElem_cons hi
    rw [hdrop]
    simp only [scanContinuation, continuation, hget]
    by_cases hc : text[i] &&& 0xc0 ≠ 0x80
    · simp only [if_pos hc]
      simp [hi]
    · simp only [if_neg hc]
      obtain ⟨hreads, hnone, hsome⟩ := scanContinuation_eq text n
        (point <<< 6 ||| (text[i] &&& 0x3f).toUInt32) (i + 1) (by omega)
      refine ⟨?_, hnone, fun p j hp => ?_⟩
      · simpa [hi] using hreads
      · obtain ⟨hc, hj⟩ := hsome p j hp
        exact ⟨hc, by omega⟩

theorem scanLoop_eq (text : Bytes) : ∀ (fuel i : Nat),
    (scanLoop text fuel i).2 = validTextLoop fuel (text.drop i) ∧
    ∀ k ∈ (scanLoop text fuel i).1, k < text.length
  | 0, i => by
    by_cases hi : i ≥ text.length
    · simp [scanLoop, hi, List.drop_eq_nil_of_le hi, validTextLoop]
    · have hdrop : text.drop i = text[i] :: text.drop (i + 1) := List.drop_eq_getElem_cons (by omega)
      rw [hdrop]
      simp [scanLoop, hi, validTextLoop]
  | fuel + 1, i => by
    by_cases hi : i ≥ text.length
    · simp [scanLoop, hi, List.drop_eq_nil_of_le hi, validTextLoop]
    · have hlt : i < text.length := by omega
      have hget : text.getD i 0 = text[i] := List.getD_eq_getElem _ _ hlt
      have hdrop : text.drop i = text[i] :: text.drop (i + 1) := List.drop_eq_getElem_cons hlt
      rw [hdrop]
      simp only [scanLoop, if_neg hi, hget, validTextLoop]
      cases hl : lead text[i] with
      | none => simp [hlt]
      | some l =>
        obtain ⟨point, remaining, minimum⟩ := l
        simp only [List.length_drop]
        by_cases hr : text.length - (i + 1) < remaining
        · simp [hr, hlt]
        · simp only [if_neg hr]
          -- there is room for all that the first byte announces
          obtain ⟨hreads, hnone, hsome⟩ :=
            scanContinuation_eq text remaining point (i + 1) (by omega)
          cases hs : scanContinuation text remaining point (i + 1) with
          | mk reads result =>
            rw [hs] at hreads hnone hsome
            cases result with
            | none =>
              simp only [hnone rfl]
              simpa [hlt] using hreads
            | some q =>
              obtain ⟨p, j⟩ := q
              obtain ⟨hc, -⟩ := hsome p j rfl
              simp only [hc]
              by_cases hok : pointOk minimum p = true
              · obtain ⟨hrest, hpositions⟩ := scanLoop_eq text fuel j
                simp only [hok, if_true, Bool.true_and, hrest, true_and]
                intro k hk
                simp only [List.mem_append, List.mem_cons] at hk
                rcases hk with (rfl | hk) | hk
                · exact hlt
                · exact hreads k hk
                · exact hpositions k hk
              · simp only [hok, if_false, Bool.false_and, Bool.false_eq_true, true_and]
                simpa [hlt] using hreads

/-! ## One code point -/

theorem next_spec : ∀ next : UInt8, (next &&& 0xc0 = 0x80 ↔ 0x80 ≤ next.toNat ∧ next.toNat < 0xc0) ∧
    (next &&& 0x3f).toNat = next.toNat % 64 :=
  forall_byte (by decide +kernel)

theorem toNat_shift {point : UInt32} (next : UInt8) (h : point.toNat < 2 ^ 26) :
    (point <<< 6 ||| (next &&& 0x3f).toUInt32).toNat = point.toNat * 64 + next.toNat % 64 := by
  have hlow := (next_spec next).2
  have hlt : next.toNat % 64 < 2 ^ 6 := Nat.mod_lt _ (by decide)
  have hshift : (point <<< 6).toNat = point.toNat <<< 6 := by
    rw [UInt32.toNat_shiftLeft, Nat.mod_eq_of_lt]
    · rfl
    · show point.toNat <<< 6 < 2 ^ 32
      rw [Nat.shiftLeft_eq]
      omega
  rw [UInt32.toNat_or, hshift, UInt8.toNat_toUInt32, hlow, ← Nat.shiftLeft_add_eq_or_of_lt hlt,
    Nat.shiftLeft_eq]

def tailValue (point : Nat) (tail : Bytes) : Nat :=
  tail.foldl (fun v b => v * 64 + b.toNat % 64) point

def Tail (tail : Bytes) : Prop := ∀ b ∈ tail, 0x80 ≤ b.toNat ∧ b.toNat < 0xc0

theorem continuation_spec : ∀ (n : Nat) (point : UInt32) (text rest : Bytes) (p : UInt32),
    (point.toNat + 1) * 64 ^ n ≤ 2 ^ 32 →
    (continuation n point text = some (p, rest) ↔
      ∃ tail, tail.length = n ∧ Tail tail ∧ text = tail ++ rest ∧
        p.toNat = tailValue point.toNat tail)
  | 0, point, text, rest, p, _ => by
    constructor
    · intro h
      cases h
      exact ⟨[], rfl, by simp [Tail], rfl, rfl⟩
    · rintro ⟨tail, hl, -, rfl, hp⟩
      obtain rfl := List.eq_nil_of_length_eq_zero hl
      rw [continuation, UInt32.toNat_inj.mp hp]
      rfl
  | n + 1, point, [], rest, p, _ => by
    constructor
    · intro h
      cases h
    · rintro ⟨tail, hl, -, ht, -⟩
      have hlen := congrArg List.length ht
      simp only [List.length_nil, List.length_append, hl] at hlen
      omega
  | n + 1, point, next :: text, rest, p, hlt => by
    have hpow : (point.toNat + 1) * 64 ^ (n + 1) = (point.toNat + 1) * 64 * 64 ^ n := by
      rw [Nat.pow_succ', Nat.mul_assoc]
    rw [hpow] at hlt
    -- six more bits fit
    have hsmall : point.toNat < 2 ^ 26 := by
      have := le_trans (Nat.le_mul_of_pos_right _ (Nat.pow_pos (by decide : 0 < 64))) hlt
      omega
    have hnat := toNat_shift next hsmall
    have hstep : ((point <<< 6 ||| (next &&& 0x3f).toUInt32).toNat + 1) * 64 ^ n ≤ 2 ^ 32 := by
      refine le_trans (Nat.mul_le_mul_right _ ?_) hlt
      rw [hnat]
      omega
    have ih := continuation_spec n (point <<< 6 ||| (next &&& 0x3f).toUInt32) text rest p hstep
    rw [hnat] at ih
    rw [continuation]
    by_cases hc : next &&& 0xc0 ≠ 0x80
    · rw [if_pos hc]
      constructor
      · intro h
        cases h
      · rintro ⟨tail, hl, htail, ht, -⟩
        cases tail with
        | nil => cases hl
        | cons b tail =>
          obtain ⟨rfl, -⟩ := List.cons.inj ht
          exact absurd ((next_spec next).1.mpr (htail next (by simp))) hc
    · rw [if_neg hc, ih]
      have hnext := (next_spec next).1.mp (not_not.mp hc)
      constructor
      · rintro ⟨tail, hl, htail, rfl, hp⟩
        refine ⟨next :: tail, by simp [hl], ?_, rfl, hp⟩
        simpa [Tail, hnext] using htail
      · rintro ⟨tail, hl, htail, ht, hp⟩
        cases tail with
        | nil => cases hl
        | cons b tail =>
          obtain ⟨rfl, rfl⟩ := List.cons.inj ht
          exact ⟨tail, by simpa using hl, fun b hb => htail b (by simp [hb]), rfl, hp⟩

theorem lead_eq : ∀ first : UInt8, lead first =
    if first.toNat < 0x80 then some (UInt32.ofNat first.toNat, 0, 0)
    else if first.toNat < 0xc2 then none
    else if first.toNat < 0xe0 then some (UInt32.ofNat (first.toNat - 0xc0), 1, 0x80)
    else if first.toNat < 0xf0 then some (UInt32.ofNat (first.toNat - 0xe0), 2, 0x800)
    else if first.toNat < 0xf5 then some (UInt32.ofNat (first.toNat - 0xf0), 3, 0x10000)
    else none :=
  forall_byte (by decide +kernel)

theorem pointOk_iff (minimum point : UInt32) : pointOk minimum point = true ↔
    minimum.toNat ≤ point.toNat ∧ ∃ h : point.toNat.isValidChar, TextChar ⟨point, h⟩ := by
  have hmod : (point &&& 0xffff).toNat = point.toNat % 0x10000 := by
    rw [UInt32.toNat_and]
    exact Nat.and_two_pow_sub_one_eq_mod point.toNat 16
  have hchar (h : point.toNat.isValidChar) : (⟨point, h⟩ : Char).toNat = point.toNat := rfl
  simp only [pointOk, TextChar, hchar, Nat.isValidChar, Bool.and_eq_true, Bool.not_eq_true',
    Bool.or_eq_false_iff, decide_eq_false_iff_not, Bool.and_eq_false_iff, beq_eq_false_iff_ne, ne_eq,
    ← UInt32.toNat_inj, UInt32.lt_iff_toNat_lt, UInt32.le_iff_toNat_le, UInt32.reduceToNat, hmod,
    exists_prop, ge_iff_le, gt_iff_lt]
  omega

theorem toNat_ofNat_sub (first : UInt8) (k : Nat) :
    (UInt32.ofNat (first.toNat - k)).toNat = first.toNat - k := by
  have := first.toNat_lt
  rw [UInt32.toNat_ofNat']
  omega

theorem ofNat_eq_iff {n : Nat} {b : UInt8} (h : n < 256) : UInt8.ofNat n = b ↔ n = b.toNat := by
  rw [← UInt8.toNat_inj, UInt8.toNat_ofNat', Nat.mod_eq_of_lt h]

section
variable {c : Char}

theorem encode_one (h : c.toNat < 0x80) : String.utf8EncodeChar c = [UInt8.ofNat c.toNat] :=
  if_pos (Nat.le_of_lt_succ h)

theorem encode_two (h₁ : 0x80 ≤ c.toNat) (h₂ : c.toNat < 0x800) : String.utf8EncodeChar c =
    [UInt8.ofNat (c.toNat / 64 + 0xc0), UInt8.ofNat (c.toNat % 64 + 0x80)] := by
  have hhigh : c.toNat / 64 % 0x20 = c.toNat / 64 := Nat.mod_eq_of_lt (by omega)
  have hc : c.val.toNat = c.toNat := rfl
  unfold String.utf8EncodeChar
  simp only [hc]
  rw [if_neg (by omega), if_pos (by omega), hhigh]

theorem encode_three (h₁ : 0x800 ≤ c.toNat) (h₂ : c.toNat < 0x10000) : String.utf8EncodeChar c =
    [UInt8.ofNat (c.toNat / 4096 + 0xe0), UInt8.ofNat (c.toNat / 64 % 64 + 0x80),
      UInt8.ofNat (c.toNat % 64 + 0x80)] := by
  have hhigh : c.toNat / 4096 % 0x10 = c.toNat / 4096 := Nat.mod_eq_of_lt (by omega)
  have hc : c.val.toNat = c.toNat := rfl
  unfold String.utf8EncodeChar
  simp only [hc]
  rw [if_neg (by omega), if_neg (by omega), if_pos (by omega), hhigh]

theorem toNat_lt (c : Char) : c.toNat < 0x110000 := by
  rcases c.valid with h | h
  · exact lt_trans h (by decide)
  · exact h.2

theorem encode_four (h : 0x10000 ≤ c.toNat) : String.utf8EncodeChar c =
    [UInt8.ofNat (c.toNat / 262144 + 0xf0), UInt8.ofNat (c.toNat / 4096 % 64 + 0x80),
      UInt8.ofNat (c.toNat / 64 % 64 + 0x80), UInt8.ofNat (c.toNat % 64 + 0x80)] := by
  have hlt := toNat_lt c
  have hhigh : c.toNat / 262144 % 0x08 = c.toNat / 262144 := Nat.mod_eq_of_lt (by omega)
  have hc : c.val.toNat = c.toNat := rfl
  unfold String.utf8EncodeChar
  simp only [hc]
  rw [if_neg (by omega), if_neg (by omega), if_neg (by omega), hhigh]

end

def Spells (first : UInt8) (tail : Bytes) (v : Nat) : Prop :=
  ∃ point n minimum, lead first = some (point, n, minimum) ∧ tail.length = n ∧ Tail tail ∧
    v = tailValue point.toNat tail ∧ minimum.toNat ≤ v

theorem spells_encode {c : Char} {first : UInt8} {tail : Bytes}
    (h : String.utf8EncodeChar c = first :: tail) : Spells first tail c.toNat := by
  have hlt := toNat_lt c
  -- by the length of the encoding: one to four bytes
  by_cases h1 : c.toNat < 0x80
  · rw [encode_one h1] at h
    obtain ⟨hf, rfl⟩ := List.cons.inj h
    rw [ofNat_eq_iff (by omega)] at hf
    refine ⟨_, _, _, (lead_eq first).trans (if_pos (by omega)), rfl, by simp [Tail], ?_, by simp⟩
    have hpoint := toNat_ofNat_sub first 0
    rw [Nat.sub_zero] at hpoint
    rw [hpoint]
    exact hf
  by_cases h2 : c.toNat < 0x800
  · rw [encode_two (by omega) h2] at h
    obtain ⟨hf, rfl⟩ := List.cons.inj h
    rw [ofNat_eq_iff (by omega)] at hf
    have hlead : lead first = some (UInt32.ofNat (first.toNat - 0xc0), 1, 0x80) := by
      rw [lead_eq, if_neg (by omega), if_neg (by omega), if_pos (by omega)]
    refine ⟨_, _, _, hlead, rfl, ?_, ?_, ?_⟩
    · simp only [Tail, List.mem_singleton, forall_eq, UInt8.toNat_ofNat']
      omega
    · simp only [tailValue, List.foldl_cons, List.foldl_nil, toNat_ofNat_sub, UInt8.toNat_ofNat']
      omega
    · simp only [UInt32.reduceToNat]
      omega
  by_cases h3 : c.toNat < 0x10000
  · rw [encode_three (by omega) h3] at h
    obtain ⟨hf, rfl⟩ := List.cons.inj h
    rw [ofNat_eq_iff (by omega)] at hf
    have hlead : lead first = some (UInt32.ofNat (first.toNat - 0xe0), 2, 0x800) := by
      rw [lead_eq, if_neg (by omega), if_neg (by omega), if_neg (by omega), if_pos (by omega)]
    refine ⟨_, _, _, hlead, rfl, ?_, ?_, ?_⟩
    · simp only [Tail, List.mem_cons, List.not_mem_nil, or_false, forall_eq_or_imp, forall_eq,
        UInt8.toNat_ofNat']
      omega
    · simp only [tailValue, List.foldl_cons, List.foldl_nil, toNat_ofNat_sub, UInt8.toNat_ofNat']
      omega
    · simp only [UInt32.reduceToNat]
      omega
  · rw [encode_four (by omega)] at h
    obtain ⟨hf, rfl⟩ := List.cons.inj h
    rw [ofNat_eq_iff (by omega)] at hf
    have hlead : lead first = some (UInt32.ofNat (first.toNat - 0xf0), 3, 0x10000) := by
      rw [lead_eq, if_neg (by omega), if_neg (by omega), if_neg (by omega), if_neg (by omega),
        if_pos (by omega)]
    refine ⟨_, _, _, hlead, rfl, ?_, ?_, ?_⟩
    · simp only [Tail, List.mem_cons, List.not_mem_nil, or_false, forall_eq_or_imp, forall_eq,
        UInt8.toNat_ofNat']
      omega
    · simp only [tailValue, List.foldl_cons, List.foldl_nil, toNat_ofNat_sub, UInt8.toNat_ofNat']
      omega
    · simp only [UInt32.reduceToNat]
      omega

theorem lead_cases {first : UInt8} {point minimum : UInt32} {n : Nat}
    (h : lead first = some (point, n, minimum)) :
    (n = 0 ∧ first.toNat < 0x80 ∧ point.toNat = first.toNat ∧ minimum.toNat = 0) ∨
    (n = 1 ∧ 0xc2 ≤ first.toNat ∧ first.toNat < 0xe0 ∧ point.toNat = first.toNat - 0xc0 ∧
      minimum.toNat = 0x80) ∨
    (n = 2 ∧ 0xe0 ≤ first.toNat ∧ first.toNat < 0xf0 ∧ point.toNat = first.toNat - 0xe0 ∧
      minimum.toNat = 0x800) ∨
    (n = 3 ∧ 0xf0 ≤ first.toNat ∧ first.toNat < 0xf5 ∧ point.toNat = first.toNat - 0xf0 ∧
      minimum.toNat = 0x10000) := by
  have hpoint (k : Nat) := toNat_ofNat_sub first k
  have hwhole := hpoint 0
  rw [Nat.sub_zero] at hwhole
  rw [lead_eq] at h
  by_cases h1 : first.toNat < 0x80
  · rw [if_pos h1] at h
    simp only [Option.some.injEq, Prod.mk.injEq] at h
    obtain ⟨rfl, rfl, rfl⟩ := h
    exact .inl ⟨rfl, h1, hwhole, rfl⟩
  rw [if_neg h1] at h
  by_cases h2 : first.toNat < 0xc2
  · rw [if_pos h2] at h
    cases h
  rw [if_neg h2] at h
  by_cases h3 : first.toNat < 0xe0
  · rw [if_pos h3] at h
    simp only [Option.some.injEq, Prod.mk.injEq] at h
    obtain ⟨rfl, rfl, rfl⟩ := h
    exact .inr (.inl ⟨rfl, by omega, h3, hpoint _, rfl⟩)
  rw [if_neg h3] at h
  by_cases h4 : first.toNat < 0xf0
  · rw [if_pos h4] at h
    simp only [Option.some.injEq, Prod.mk.injEq] at h
    obtain ⟨rfl, rfl, rfl⟩ := h
    exact .inr (.inr (.inl ⟨rfl, by omega, h4, hpoint _, rfl⟩))
  rw [if_neg h4] at h
  by_cases h5 : first.toNat < 0xf5
  · rw [if_pos h5] at h
    simp only [Option.some.injEq, Prod.mk.injEq] at h
    obtain ⟨rfl, rfl, rfl⟩ := h
    exact .inr (.inr (.inr ⟨rfl, by omega, h5, hpoint _, rfl⟩))
  · rw [if_neg h5] at h
    cases h

theorem encode_spells {c : Char} {first : UInt8} {tail : Bytes} (h : Spells first tail c.toNat) :
    String.utf8EncodeChar c = first :: tail := by
  obtain ⟨point, n, minimum, hlead, hlen, htail, hvalue, hmin⟩ := h
  rcases lead_cases hlead with ⟨rfl, hf, hp, hm⟩ | ⟨rfl, hf, hf', hp, hm⟩ | ⟨rfl, hf, hf', hp, hm⟩ |
    ⟨rfl, hf, hf', hp, hm⟩
  · obtain rfl := List.eq_nil_of_length_eq_zero hlen
    have hv : c.toNat = first.toNat := hvalue.trans hp
    rw [encode_one (by omega), hv, UInt8.ofNat_toNat]
  · obtain ⟨a, rfl⟩ := List.length_eq_one_iff.mp hlen
    have ha := htail a (by simp)
    simp only [tailValue, List.foldl_cons, List.foldl_nil, hp] at hvalue
    rw [encode_two (by omega) (by omega)]
    simp only [List.cons.injEq, and_true]
    exact ⟨(ofNat_eq_iff (by omega)).mpr (by omega), (ofNat_eq_iff (by omega)).mpr (by omega)⟩
  · obtain ⟨a, b, rfl⟩ := List.length_eq_two.mp hlen
    have ha := htail a (by simp)
    have hb := htail b (by simp)
    simp only [tailValue, List.foldl_cons, List.foldl_nil, hp] at hvalue
    rw [encode_three (by omega) (by omega)]
    simp only [List.cons.injEq, and_true]
    exact ⟨(ofNat_eq_iff (by omega)).mpr (by omega), (ofNat_eq_iff (by omega)).mpr (by omega),
      (ofNat_eq_iff (by omega)).mpr (by omega)⟩
  · obtain ⟨a, b, d, rfl⟩ := List.length_eq_three.mp hlen
    have ha := htail a (by simp)
    have hb := htail b (by simp)
    have hd := htail d (by simp)
    simp only [tailValue, List.foldl_cons, List.foldl_nil, hp] at hvalue
    rw [encode_four (by omega)]
    simp only [List.cons.injEq, and_true]
    exact ⟨(ofNat_eq_iff (by omega)).mpr (by omega), (ofNat_eq_iff (by omega)).mpr (by omega),
      (ofNat_eq_iff (by omega)).mpr (by omega), (ofNat_eq_iff (by omega)).mpr (by omega)⟩

theorem lead_room {first : UInt8} {point minimum : UInt32} {n : Nat}
    (h : lead first = some (point, n, minimum)) : (point.toNat + 1) * 64 ^ n ≤ 2 ^ 32 := by
  rcases lead_cases h with ⟨rfl, hf, hp, -⟩ | ⟨rfl, hf, hf', hp, -⟩ | ⟨rfl, hf, hf', hp, -⟩ |
    ⟨rfl, hf, hf', hp, -⟩
  all_goals
    rw [hp]
    omega

theorem turn_iff {first : UInt8} {text rest : Bytes} :
    (∃ point n minimum p, lead first = some (point, n, minimum) ∧
      continuation n point text = some (p, rest) ∧ pointOk minimum p = true) ↔
    ∃ c, TextChar c ∧ first :: text = String.utf8EncodeChar c ++ rest := by
  constructor
  · rintro ⟨point, n, minimum, p, hlead, hcont, hok⟩
    obtain ⟨tail, hlen, htail, rfl, hvalue⟩ :=
      (continuation_spec n point text rest p (lead_room hlead)).mp hcont
    obtain ⟨hmin, hvalid, htext⟩ := (pointOk_iff minimum p).mp hok
    have hspells : Spells first tail (⟨p, hvalid⟩ : Char).toNat :=
      ⟨point, n, minimum, hlead, hlen, htail, hvalue, hmin⟩
    exact ⟨_, htext, by rw [encode_spells hspells, List.cons_append]⟩
  · rintro ⟨c, htext, hc⟩
    cases he : String.utf8EncodeChar c with
    | nil => exact absurd he String.utf8EncodeChar_ne_nil
    | cons b tail =>
      rw [he, List.cons_append] at hc
      obtain ⟨rfl, rfl⟩ := List.cons.inj hc
      obtain ⟨point, n, minimum, hlead, hlen, htail, hvalue, hmin⟩ := spells_encode he
      refine ⟨point, n, minimum, c.val, hlead, ?_, (pointOk_iff _ _).mpr ⟨hmin, c.valid, htext⟩⟩
      exact (continuation_spec n point _ rest c.val (lead_room hlead)).mpr
        ⟨tail, hlen, htail, rfl, hvalue⟩

/-! ## Whole texts -/

theorem length_continuation : ∀ {n : Nat} {point p : UInt32} {text rest : Bytes},
    continuation n point text = some (p, rest) → text.length = n + rest.length
  | 0, _, _, _, _, h => by
    cases h
    simp
  | n + 1, _, _, [], _, h => by cases h
  | n + 1, _, _, next :: text, _, h => by
    rw [continuation] at h
    split at h
    · cases h
    · have := length_continuation h
      simp only [List.length_cons]
      omega

theorem loop_iff : ∀ (fuel : Nat) (text : Bytes), text.length ≤ fuel →
    (validTextLoop fuel text = true ↔ ∃ cs, text = utf8 cs ∧ ∀ c ∈ cs, TextChar c)
  | fuel, [], _ => by
    simp only [validTextLoop, true_iff]
    exact ⟨[], rfl, by simp⟩
  | 0, _ :: _, h => by simp at h
  | fuel + 1, first :: text, h => by
    rw [List.length_cons] at h
    constructor
    · intro hv
      rw [validTextLoop] at hv
      split at hv
      · cases hv
      rename_i point n minimum hlead
      split at hv
      · cases hv
      split at hv
      · cases hv
      rename_i p rest hcont
      rw [Bool.and_eq_true] at hv
      have hlen := length_continuation hcont
      obtain ⟨cs, rfl, hcs⟩ := (loop_iff fuel rest (by omega)).mp hv.2
      obtain ⟨c, hc, htext⟩ := turn_iff.mp ⟨point, n, minimum, p, hlead, hcont, hv.1⟩
      refine ⟨c :: cs, htext, ?_⟩
      simpa [hc] using hcs
    · rintro ⟨cs, htext, hcs⟩
      cases cs with
      | nil => cases htext
      | cons c cs =>
        rw [utf8, List.flatMap_cons] at htext
        obtain ⟨point, n, minimum, p, hlead, hcont, hok⟩ := turn_iff.mpr ⟨c, hcs c (by simp), htext⟩
        have hlen := length_continuation hcont
        have hrest := (loop_iff fuel (cs.flatMap String.utf8EncodeChar) (by omega)).mpr
          ⟨cs, rfl, fun c hc => hcs c (by simp [hc])⟩
        simp only [validTextLoop, hlead, hcont, hok, hrest, Bool.and_self]
        rw [if_neg (by omega)]

/-- **Exactly the texts are accepted**, and no byte past the end is read. -/
theorem text_ssid_exact (text : Bytes) :
    (validTextSsid text = true ↔ ∃ cs, text = utf8 cs ∧ ∀ c ∈ cs, TextChar c) ∧
    (scanText text).2 = validTextSsid text ∧ ∀ i ∈ (scanText text).1, i < text.length :=
  ⟨loop_iff text.length text le_rfl, scanLoop_eq text text.length 0⟩

example : validTextSsid [0xd0, 0x94, 0xf0, 0x9f, 0x8f, 0xa0] = true := by decide

end WifiProfile

end EncoderNext
