import EncoderNext.Bytes

/-!
# Wi-Fi profiles

A profile is made from an SSID and a password: the SSID must be text, the
password either eight to sixty-three ASCII characters or a raw key in
hexadecimal. The derivation of a key from an ASCII password belongs to the
cryptographic library and is a parameter.
-/

namespace EncoderNext

/-- `PKCS5_PBKDF2_HMAC_SHA1` with 4096 iterations: password and salt to a
32-byte key, or a failure. -/
abbrev Pbkdf2 := Bytes → Bytes → Option (Vector UInt8 32)

def noKdf : Pbkdf2 := fun _ _ => none

structure WifiProfile where
  ssidHex : Bytes
  psk : Bytes
  dhcp6 : Option Bool
  deriving DecidableEq

namespace WifiProfile

/-! ## Text SSIDs -/

/-- What the first byte of a code point announces: the bits it contributes,
the number of bytes to follow, and the least code point of that length. -/
def lead (first : UInt8) : Option (UInt32 × Nat × UInt32) :=
  if 0xc2 ≤ first && first ≤ 0xdf then some ((first &&& 0x1f).toUInt32, 1, 0x80)
  else if 0xe0 ≤ first && first ≤ 0xef then some ((first &&& 0x0f).toUInt32, 2, 0x800)
  else if 0xf0 ≤ first && first ≤ 0xf4 then some ((first &&& 0x07).toUInt32, 3, 0x10000)
  else if 0x80 ≤ first then none
  else some (first.toUInt32, 0, 0)

def continuation : Nat → UInt32 → Bytes → Option (UInt32 × Bytes)
  | 0, point, text => some (point, text)
  | _ + 1, _, [] => none
  | n + 1, point, next :: text =>
    if next &&& 0xc0 ≠ 0x80 then none
    else continuation n (point <<< 6 ||| (next &&& 0x3f).toUInt32) text

def pointOk (minimum point : UInt32) : Bool :=
  !(point < minimum || point > 0x10ffff || (0xd800 ≤ point && point ≤ 0xdfff)) &&
  !(point < 0x20 || (0x7f ≤ point && point ≤ 0x9f) || point == 0x2028 || point == 0x2029) &&
  !((0xfdd0 ≤ point && point ≤ 0xfdef) || point &&& 0xffff ≥ 0xfffe)

/-- The scan of `valid_text_ssid`; every code point takes at least one byte,
so the length of the text bounds the number of turns. -/
def validTextLoop : Nat → Bytes → Bool
  | _, [] => true
  | 0, _ :: _ => false
  | fuel + 1, first :: text =>
    match lead first with
    | none => false
    | some (point, remaining, minimum) =>
      if text.length < remaining then false
      else
        match continuation remaining point text with
        | none => false
        | some (point, text) => pointOk minimum point && validTextLoop fuel text

def validTextSsid (text : Bytes) : Bool := validTextLoop text.length text

/-! ## Making a profile -/

def hexValue (c : UInt8) : Option UInt8 :=
  if byte '0' ≤ c && c ≤ byte '9' then some (c - byte '0')
  else if byte 'a' ≤ c && c ≤ byte 'f' then some (c - byte 'a' + 10)
  else if byte 'A' ≤ c && c ≤ byte 'F' then some (c - byte 'A' + 10)
  else none

def rawKey : Bytes → Option Bytes
  | hi :: lo :: rest => do
    let h ← hexValue hi
    let l ← hexValue lo
    let key ← rawKey rest
    some ((h <<< 4 ||| l) :: key)
  | [] => some []
  | [_] => none

def make (kdf : Pbkdf2) (ssid password : Bytes) : Except String WifiProfile :=
  if ssid = [] ∨ ssid.length > 32 then .error "SSID must contain 1 to 32 bytes"
  else if ¬ validTextSsid ssid then
    .error "SSID must be valid UTF-8 text without controls, line separators or Unicode noncharacters"
  -- sixty-four characters are a key, never a password
  else if password.length = 64 then
    match rawKey password with
    | none => .error "A 64-character PSK must be hexadecimal"
    | some key => .ok ⟨toHex ssid, key, none⟩
  else if password.length < 8 ∨ password.length > 63 then
    .error "WPA2 password must contain 8 to 63 ASCII characters or 64 hexadecimal digits"
  else if password.any fun c => c < 32 || c > 126 then
    .error "WPA2 password contains unsupported characters"
  else
    match kdf password ssid with
    | none => .error "Cannot derive Wi-Fi key"
    | some key => .ok ⟨toHex ssid, key.toList, none⟩

/-- A profile is usable until it is moved from: its key is complete and its
SSID is there. -/
def usable (p : WifiProfile) : Bool := p.psk.length == 32 && p.ssidHex != []

theorem length_rawKey : ∀ {digits key : Bytes}, rawKey digits = some key →
    digits.length = 2 * key.length
  | [], key, h => by cases h; rfl
  | [_], key, h => by cases h
  | hi :: lo :: rest, key, h => by
    simp only [rawKey, Option.bind_eq_bind, Option.bind_eq_some_iff, Option.some.injEq] at h
    obtain ⟨_, _, _, _, tail, ht, rfl⟩ := h
    simp only [List.length_cons, length_rawKey ht]
    omega

theorem hexValue_of_unhex {c v : UInt8} (h : unhex c = some v) : hexValue c = some v := by
  unfold unhex at h
  unfold hexValue
  split at h
  · rw [if_pos (by assumption), ← h]
  · split at h
    · rw [if_neg (by assumption), if_pos (by assumption), ← h]
    · cases h

theorem rawKey_toHex : ∀ key : Bytes, rawKey (toHex key) = some key
  | [] => rfl
  | c :: key => by
    simp only [toHex, rawKey, hexValue_of_unhex (unhex_high c), hexValue_of_unhex (unhex_low c),
      rawKey_toHex key, Option.bind_eq_bind, Option.bind_some, join_halves]

theorem make_ok {kdf : Pbkdf2} {ssid password : Bytes} {p : WifiProfile}
    (h : make kdf ssid password = .ok p) :
    ssid ≠ [] ∧ ssid.length ≤ 32 ∧ p.ssidHex = toHex ssid ∧ p.psk.length = 32 ∧ p.dhcp6 = none := by
  unfold make at h
  split at h
  · cases h
  · rename_i hs
    rw [not_or, Nat.not_lt] at hs
    refine ⟨hs.1, hs.2, ?_⟩
    split at h
    · cases h
    split at h
    · rename_i hl
      split at h
      · cases h
      · rename_i key hk
        cases h
        have := length_rawKey hk
        exact ⟨rfl, by show key.length = 32; omega, rfl⟩
    split at h
    · cases h
    split at h
    · cases h
    split at h
    · cases h
    · cases h
      exact ⟨rfl, Vector.length_toList, rfl⟩

theorem make_usable {kdf : Pbkdf2} {ssid password : Bytes} {p : WifiProfile}
    (h : make kdf ssid password = .ok p) : p.usable = true := by
  obtain ⟨hs, _, hx, hp, _⟩ := make_ok h
  have hne : p.ssidHex ≠ [] := by
    rw [hx]
    cases ssid with
    | nil => exact absurd rfl hs
    | cons c rest => simp [toHex]
  simp [usable, hp, hne]

theorem make_rawKey {kdf : Pbkdf2} {ssid key : Bytes} {p : WifiProfile} (hk : key.length = 32)
    (h : make kdf ssid (toHex key) = .ok p) : p = ⟨toHex ssid, key, none⟩ := by
  unfold make at h
  split at h
  · cases h
  split at h
  · cases h
  rw [if_pos (by rw [length_toHex, hk]), rawKey_toHex] at h
  cases h
  rfl

theorem make_text {kdf : Pbkdf2} {ssid password : Bytes} {p : WifiProfile}
    (h : make kdf ssid password = .ok p) : validTextSsid ssid = true := by
  unfold make at h
  split at h
  · cases h
  · split at h
    · cases h
    · rename_i ht
      exact Decidable.not_not.mp ht

theorem make_key (kdf : Pbkdf2) {ssid key : Bytes} (hs : ssid ≠ []) (hl : ssid.length ≤ 32)
    (ht : validTextSsid ssid = true) (hk : key.length = 32) :
    make kdf ssid (toHex key) = .ok ⟨toHex ssid, key, none⟩ := by
  unfold make
  rw [if_neg (by simp [hs]; omega), if_neg (by simp [ht]), if_pos (by rw [length_toHex, hk]),
    rawKey_toHex]

end WifiProfile

end EncoderNext
