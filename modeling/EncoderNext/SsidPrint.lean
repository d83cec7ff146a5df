import EncoderNext.WifiLinkProbe

/-!
# SSIDs as the supplicant prints them

The supplicant prints an SSID with escapes. The reader walks the text by positions, one,
two or four bytes a turn, and gives back every byte.
-/

namespace EncoderNext

namespace WifiLinkProbe

/-! ## The printer -/

def upperDigits : Bytes := bytes "0123456789ABCDEF"

def printDigit (upper : Bool) (n : UInt8) : UInt8 :=
  if upper then upperDigits.getD n.toNat 0 else hexDigit n

/-- The supplicant's own encoding, byte by byte. -/
def printByte (upper : Bool) (c : UInt8) : Bytes :=
  if c = byte '\\' then [byte '\\', byte '\\']
  else if c = byte '"' then [byte '\\', byte '"']
  else if c = 27 then [byte '\\', byte 'e']
  else if c = 10 then [byte '\\', byte 'n']
  else if c = 13 then [byte '\\', byte 'r']
  else if c = 9 then [byte '\\', byte 't']
  else if 32 ≤ c && c ≤ 126 then [c]
  else [byte '\\', byte 'x', printDigit upper (c >>> 4), printDigit upper (c &&& 15)]

def printSsid (upper : Bool) (ssid : Bytes) : Bytes := ssid.flatMap (printByte upper)

structure Ssid where
  bytes : Bytes
  ne : bytes ≠ []
  short : bytes.length ≤ 32

/-! ## The reader by positions -/

/-- A read outside of the text, or turns that do not end. -/
inductive Fault where
  | outside | unfinished
  deriving DecidableEq

def charAt (encoded : Bytes) (i : Nat) : Except Fault UInt8 :=
  match encoded[i]? with
  | none => .error .outside
  | some c => .ok c

def escapeAt (encoded : Bytes) (i : Nat) : Except Fault (Option (UInt8 × Nat)) :=
  if i = encoded.length then .ok none
  else do
    let d ← charAt encoded i
    match letterEscape d with
    | some c => .ok (some (c, i))
    | none =>
      if d = byte 'x' then
        if i + 2 ≥ encoded.length then .ok none
        else do
          let hi ← charAt encoded (i + 1)
          let lo ← charAt encoded (i + 2)
          match WifiProfile.hexValue hi, WifiProfile.hexValue lo with
          | some high, some low => .ok (some (high <<< 4 ||| low, i + 2))
          | _, _ => .ok none
      else .ok none

def unescapeAt (encoded : Bytes) (i : Nat) : Except Fault (Option (UInt8 × Nat)) := do
  let c ← charAt encoded i
  if c = byte '\\' then escapeAt encoded (i + 1) else .ok (some (c, i))

def ssidHexAt (encoded : Bytes) : Nat → Nat → Bytes → Except Fault (Option Bytes)
  | turns, i, result =>
    if i < encoded.length then
      match turns with
      | 0 => .error .unfinished
      | turns + 1 => do
        match ← unescapeAt encoded i with
        | none => .ok none
        | some (c, last) =>
          let result := result ++ toHex [c]
          if result.length > 64 then .ok none else ssidHexAt encoded turns (last + 1) result
    else .ok (if result = [] then none else some result)

/-! ## Printed bytes are read -/

theorem hexValue_high (upper : Bool) : ∀ c : UInt8,
    WifiProfile.hexValue (printDigit upper (c >>> 4)) = some (c >>> 4) :=
  forall_byte (by revert upper; decide +kernel)

theorem hexValue_low (upper : Bool) : ∀ c : UInt8,
    WifiProfile.hexValue (printDigit upper (c &&& 15)) = some (c &&& 15) :=
  forall_byte (by revert upper; decide +kernel)

theorem escaped_printByte (upper : Bool) (c : UInt8) {text ssid : Bytes} (h : Escaped text ssid) :
    Escaped (printByte upper c ++ text) (c :: ssid) := by
  unfold printByte
  split_ifs with hslash hquote hesc hlf hcr htab hplain
  · exact .letter (by rw [hslash]; simp) h
  · exact .letter (by rw [hquote]; simp) h
  · exact .letter (by rw [hesc]; simp) h
  · exact .letter (by rw [hlf]; simp) h
  · exact .letter (by rw [hcr]; simp) h
  · exact .letter (by rw [htab]; simp) h
  · exact .plain hslash h
  · have hread := Escaped.hex (hexValue_high upper c) (hexValue_low upper c) h
    rw [join_halves] at hread
    exact hread

theorem escaped_printSsid (upper : Bool) : ∀ ssid : Bytes, Escaped (printSsid upper ssid) ssid
  | [] => .nil
  | c :: ssid => escaped_printByte upper c (escaped_printSsid upper ssid)

/-! ## Positions and the rest of the text -/

theorem charAt_ok {encoded : Bytes} {i : Nat} {c : UInt8} {rest : Bytes} (h : encoded.drop i = c :: rest) :
    charAt encoded i = .ok c ∧ encoded.drop (i + 1) = rest ∧ i < encoded.length := by
  have hget : encoded[i]? = some c := by
    rw [← List.head?_drop, h, List.head?_cons]
  refine ⟨by rw [charAt, hget], ?_, (List.getElem?_eq_some_iff.mp hget).1⟩
  rw [← List.tail_drop, h, List.tail_cons]

/-- What one turn reads by positions is what it reads of the rest of the text. -/
def Follows (encoded : Bytes) (i : Nat) (r : Except Fault (Option (UInt8 × Nat)))
    (read : Option (UInt8 × Bytes)) : Prop :=
  (r = .ok none ∧ read = none) ∨
    ∃ c last, r = .ok (some (c, last)) ∧ read = some (c, encoded.drop (last + 1)) ∧ i ≤ last

theorem escapeAt_follows {encoded : Bytes} {i : Nat} (hi : i ≤ encoded.length) :
    Follows encoded i (escapeAt encoded i) (escape (encoded.drop i)) := by
  unfold escapeAt
  cases hrest : encoded.drop i with
  | nil =>
    have hend : i = encoded.length := by
      have := congrArg List.length hrest
      rw [List.length_drop, List.length_nil] at this
      omega
    rw [if_pos hend]
    exact .inl ⟨rfl, rfl⟩
  | cons d rest =>
    obtain ⟨hd, hdrop, hlt⟩ := charAt_ok hrest
    rw [if_neg (by omega), hd, escape]
    show Follows _ _ (match letterEscape d with | some c => _ | none => _) _
    cases letterEscape d with
    | some c => exact .inr ⟨c, i, rfl, by rw [hdrop], le_rfl⟩
    | none =>
      dsimp only
      split
      -- an `x` wants two digits behind it
      · cases hr₁ : rest with
        | nil =>
          have hshort : i + 2 ≥ encoded.length := by
            have := congrArg List.length hdrop
            rw [hr₁, List.length_drop, List.length_nil] at this
            omega
          rw [if_pos hshort]
          exact .inl ⟨rfl, rfl⟩
        | cons hi rest₁ =>
          obtain ⟨h₁, hdrop₁, -⟩ := charAt_ok (hdrop.trans hr₁)
          cases hr₂ : rest₁ with
          | nil =>
            have hshort : i + 2 ≥ encoded.length := by
              have := congrArg List.length hdrop₁
              rw [hr₂, List.length_drop, List.length_nil] at this
              omega
            rw [if_pos hshort]
            exact .inl ⟨rfl, rfl⟩
          | cons lo rest₂ =>
            obtain ⟨h₂, hdrop₂, hlt₂⟩ := charAt_ok (hdrop₁.trans hr₂)
            rw [if_neg (by omega), h₁, h₂, hexEscape]
            show Follows _ _ (match WifiProfile.hexValue hi, WifiProfile.hexValue lo with
              | some high, some low => _ | _, _ => _) _
            cases WifiProfile.hexValue hi with
            | none => exact .inl ⟨rfl, rfl⟩
            | some high =>
              cases WifiProfile.hexValue lo with
              | none => exact .inl ⟨rfl, rfl⟩
              | some low => exact .inr ⟨_, i + 2, rfl, by rw [← hdrop₂]; rfl, by omega⟩
      · exact .inl ⟨rfl, rfl⟩

theorem unescapeAt_follows {encoded : Bytes} {i : Nat} (hi : i < encoded.length) :
    Follows encoded i (unescapeAt encoded i) (unescape (encoded.drop i)) := by
  obtain ⟨c, rest, hrest⟩ : ∃ c rest, encoded.drop i = c :: rest :=
    ⟨_, _, List.drop_eq_getElem_cons hi⟩
  obtain ⟨hc, hdrop, -⟩ := charAt_ok hrest
  unfold unescapeAt
  rw [hc, hrest, unescape]
  show Follows _ _ (if c = byte '\\' then _ else _) _
  split
  · rw [← hdrop]
    rcases escapeAt_follows hi with h | ⟨c', last, hr, hread, hle⟩
    · exact .inl h
    · exact .inr ⟨c', last, hr, hread, by omega⟩
  · exact .inr ⟨c, i, rfl, by rw [hdrop], le_rfl⟩

theorem ssidHexAt_end {encoded : Bytes} {i : Nat} (hi : encoded.length ≤ i) (turns : Nat) (result : Bytes) :
    ssidHexAt encoded turns i result =
      .ok (match ssidHexLoop turns result (encoded.drop i) with
        | some [] => none
        | out => out) := by
  have hloop : ssidHexLoop turns result [] = some result := by cases turns <;> rfl
  have hat : ssidHexAt encoded turns i result = .ok (if result = [] then none else some result) := by
    cases turns <;> rw [ssidHexAt, if_neg (by omega)]
  rw [hat, List.drop_eq_nil_of_le hi, hloop]
  cases result <;> rfl

/-- No turn reads outside of the text, and there are no more turns than bytes. -/
theorem ssidHexAt_loop (encoded : Bytes) : ∀ (turns i : Nat) (result : Bytes),
    encoded.length ≤ i + turns → ssidHexAt encoded turns i result =
      .ok (match ssidHexLoop turns result (encoded.drop i) with
        | some [] => none
        | out => out)
  | 0, i, result, hturns => ssidHexAt_end hturns 0 result
  | turns + 1, i, result, hturns => by
    rcases Nat.lt_or_ge i encoded.length with hi | hi
    · obtain ⟨c, rest, hrest⟩ : ∃ c rest, encoded.drop i = c :: rest :=
        ⟨_, _, List.drop_eq_getElem_cons hi⟩
      have hturn := unescapeAt_follows hi
      rw [hrest] at hturn ⊢
      rw [ssidHexAt, if_pos hi, ssidHexLoop]
      rcases hturn with ⟨hr, hread⟩ | ⟨d, last, hr, hread, hle⟩
      · rw [hr, hread]
        rfl
      · rw [hr, hread]
        show (if (result ++ toHex [d]).length > 64 then _ else _) = _
        dsimp only
        split
        · rfl
        · exact ssidHexAt_loop encoded turns (last + 1) _ (by omega)
    · exact ssidHexAt_end hi (turns + 1) result

theorem ssidHexAt_eq (encoded : Bytes) : ssidHexAt encoded encoded.length 0 [] = .ok (ssidHex encoded) := by
  have hloop := ssidHexAt_loop encoded encoded.length 0 [] (by omega)
  rw [List.drop_zero] at hloop
  rw [hloop]
  unfold ssidHex
  cases ssidHexLoop encoded.length [] encoded with
  | none => rfl
  | some out => cases out <;> rfl

/-- **A printed SSID is read as it is**: its own digits, another's for another SSID, and
no text is read past its end. -/
theorem ssid_print_exact : (∀ (upper : Bool) (ssid : Ssid),
      ssidHexAt (printSsid upper ssid.bytes) (printSsid upper ssid.bytes).length 0 [] =
        .ok (some (toHex ssid.bytes))) ∧
    (∀ (upper upper' : Bool) (ssid ssid' : Ssid), ssidHex (printSsid upper ssid.bytes) =
      ssidHex (printSsid upper' ssid'.bytes) → ssid.bytes = ssid'.bytes) ∧
    ∀ encoded : Bytes, ssidHexAt encoded encoded.length 0 [] = .ok (ssidHex encoded) := by
  have hread (upper : Bool) (ssid : Ssid) :
      ssidHex (printSsid upper ssid.bytes) = some (toHex ssid.bytes) :=
    (ssidHex_iff ssid.ne ssid.short).mpr (escaped_printSsid upper ssid.bytes)
  refine ⟨fun upper ssid => ?_, fun upper upper' ssid ssid' h => ?_, ssidHexAt_eq⟩
  · rw [ssidHexAt_eq, hread]
  · rw [hread, hread] at h
    exact toHex_injective (Option.some.inj h)

/-- A network with a quote, a control byte and a byte above the ASCII range. -/
theorem ssid_print_quoted : printSsid false [34, 10, 200] = bytes "\\\"\\n\\xc8" ∧
    ssidHexAt (printSsid false [34, 10, 200]) 8 0 [] = .ok (some (bytes "220ac8")) :=
  ⟨by decide, ssid_print_exact.1 false ⟨[34, 10, 200], by decide, by decide⟩⟩

end WifiLinkProbe

end EncoderNext
