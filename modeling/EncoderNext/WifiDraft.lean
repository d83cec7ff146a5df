import EncoderNext.WifiProfile
import Mathlib.Data.Fintype.Option

/-!
# Configuration drafts

`make_wifi_config_draft` renders a profile as Netplan YAML and as a supplicant
configuration; `read_wifi_config_draft` accepts exactly the YAML it renders. What
it accepts is its own rendering of the profile it returns, and what a rendering
reads back as is the profile it was made from.
-/

namespace EncoderNext

namespace WifiDraft

structure WifiConfigDraft where
  netplanYaml : Bytes
  supplicantConfig : Bytes
  deriving DecidableEq

/-! ## The fixed texts -/

/-- The fixed text up to the access points, in the two parts between which the
DHCPv6 line is inserted. -/
@[irreducible] def yamlHead : Bytes := bytes ("# encoder managed wifi v1\n" ++
  "# Draft only: requires verified WPA2 enforcement before installation.\n" ++
  "network:\n  version: 2\n  wifis:\n    wlan0:\n" ++
  "      renderer: networkd\n      dhcp4: true\n")

@[irreducible] def yamlPoints : Bytes := bytes "      access-points:\n        "

@[irreducible] def yamlAuth : Bytes :=
  bytes ":\n          auth:\n            key-management: psk\n            password: \""

@[irreducible] def yamlEnd : Bytes := bytes "\"\n"

def dhcp6Line : Option Bool → Bytes
  | none => []
  | some true => bytes "      dhcp6: true\n"
  | some false => bytes "      dhcp6: false\n"

def prefixFor (dhcp6 : Option Bool) : Bytes := yamlHead ++ dhcp6Line dhcp6 ++ yamlPoints

@[irreducible] def wpaPrefix : Bytes := bytes ("# encoder managed WPA2 draft v1\n" ++
  "ctrl_interface=/run/wpa_supplicant\nupdate_config=0\nnetwork=\x7b\n  ssid=")

@[irreducible] def wpaAuth : Bytes :=
  bytes "\n  proto=RSN\n  key_mgmt=WPA-PSK\n  pairwise=CCMP\n  group=CCMP\n  psk="

@[irreducible] def wpaEnd : Bytes := bytes "\n\x7d\n"

/-! ## Rendering -/

def withPsk (front psk suffix : Bytes) : Bytes := front ++ toHex psk ++ suffix

def escaped (c : UInt8) : Bool := c == byte '\\' || c == byte '"'

/-- The SSID between the quotes, from its digits. -/
def quoteSsid : Bytes → Option Bytes
  | hi :: lo :: rest => do
    let high ← unhex hi
    let low ← unhex lo
    let quoted ← quoteSsid rest
    let c := high <<< 4 ||| low
    some (if escaped c then byte '\\' :: c :: quoted else c :: quoted)
  | _ => some []

def make (profile : WifiProfile) : Except String WifiConfigDraft :=
  let failure := .error "Cannot generate configuration from an invalid or consumed Wi-Fi profile"
  let hex := profile.ssidHex
  if profile.psk.length ≠ 32 ∨ hex = [] ∨ hex.length > 64 ∨ hex.length % 2 ≠ 0 then failure
  else
    match quoteSsid hex with
    | none => failure
    | some quoted =>
      let yaml := prefixFor profile.dhcp6 ++ (byte '"' :: quoted ++ [byte '"']) ++ yamlAuth
      let wpa := wpaPrefix ++ hex ++ wpaAuth
      .ok ⟨withPsk yaml profile.psk yamlEnd, withPsk wpa profile.psk wpaEnd⟩

/-! ## Reading -/

/-- The prefix the input starts with: no DHCPv6 line is tried first, then each
of the two lines. -/
def detectDhcp6 (input : Bytes) : Option (Option Bool) :=
  if input.take (prefixFor none).length = prefixFor none then some none
  else if input.take (prefixFor (some true)).length = prefixFor (some true) then some (some true)
  else if input.take (prefixFor (some false)).length = prefixFor (some false) then some (some false)
  else none

def scanSsid (ssid : Bytes) : Bytes → Option (Bytes × Bytes)
  | [] => none
  | c :: rest =>
    if c = byte '"' then some (ssid, rest)
    else if c = byte '\\' then
      match rest with
      | [] => none
      | d :: rest' =>
        if d ≠ byte '\\' ∧ d ≠ byte '"' then none
        else if (ssid ++ [d]).length > 32 then none
        else scanSsid (ssid ++ [d]) rest'
    else if (ssid ++ [c]).length > 32 then none
    else scanSsid (ssid ++ [c]) rest

/-- The parts of a draft before the final comparison: DHCPv6 option, SSID and
the digits of the key. -/
def split (input : Bytes) : Option (Option Bool × Bytes × Bytes) := do
  guard (input.length ≤ 4096)
  let dhcp6 ← detectDhcp6 input
  let remaining := input.drop (prefixFor dhcp6).length
  guard (remaining.head? = some (byte '"'))
  let (ssid, remaining) ← scanSsid [] (remaining.drop 1)
  guard (remaining.length = yamlAuth.length + 64 + 2)
  guard (remaining.take yamlAuth.length = yamlAuth)
  guard (remaining.drop (remaining.length - 2) = yamlEnd)
  let key := slice remaining yamlAuth.length 64
  guard (key.all fun c => (unhex c).isSome)
  some (dhcp6, ssid, key)

def read (kdf : Pbkdf2) (input : Bytes) : Except String WifiProfile :=
  let failure := .error "Wi-Fi configuration is not an exact supported encoder-generated draft"
  match split input with
  | none => failure
  | some (dhcp6, ssid, key) =>
    match WifiProfile.make kdf ssid key with
    | .error _ => failure
    | .ok made =>
      let profile := { made with dhcp6 := dhcp6 }
      match make profile with
      | .error _ => failure
      | .ok canonical => if canonical.netplanYaml = input then .ok profile else failure

/-! ## What is read is rendered -/

def yaml (profile : WifiProfile) : Option Bytes :=
  match make profile with
  | .ok draft => some draft.netplanYaml
  | .error _ => none

theorem yaml_of_read {kdf : Pbkdf2} {input : Bytes} {p : WifiProfile} (h : read kdf input = .ok p) :
    yaml p = some input := by
  unfold read at h
  split at h
  · cases h
  dsimp only at h
  split at h
  · cases h
  split at h
  · cases h
  rename_i d hd
  split at h
  · rename_i hc
    cases h
    simp only [yaml, hd, hc]
  · cases h

/-! ## What is rendered is read -/

theorem quoteSsid_toHex : ∀ ssid : Bytes,
    quoteSsid (toHex ssid) =
      some (ssid.flatMap fun c => if escaped c then [byte '\\', c] else [c])
  | [] => rfl
  | c :: ssid => by
    simp only [toHex, quoteSsid, unhex_high, unhex_low, quoteSsid_toHex ssid, Option.bind_eq_bind,
      Option.bind_some, join_halves, List.flatMap_cons]
    split <;> rfl

theorem quoteSsid_digits : ∀ {hex quoted : Bytes}, hex.length % 2 = 0 → quoteSsid hex = some quoted →
    ∃ ssid, toHex ssid = hex
  | [], _, _, _ => ⟨[], rfl⟩
  | [_], _, h, _ => by cases h
  | hi :: lo :: rest, quoted, hl, h => by
    simp only [quoteSsid, Option.bind_eq_bind, Option.bind_eq_some_iff, Option.some.injEq] at h
    obtain ⟨high, hh, low, hlo, q, hq, -⟩ := h
    have hrest : rest.length % 2 = 0 := by simp only [List.length_cons] at hl; omega
    obtain ⟨ssid, rfl⟩ := quoteSsid_digits hrest hq
    refine ⟨(high <<< 4 ||| low) :: ssid, ?_⟩
    have := toHex_unhex hh hlo
    simp only [toHex, List.cons.injEq, and_true] at this ⊢
    exact this

theorem scanSsid_quoted (rest : Bytes) : ∀ (ssid done : Bytes), (done ++ ssid).length ≤ 32 →
    scanSsid done ((ssid.flatMap fun c => if escaped c then [byte '\\', c] else [c]) ++
      byte '"' :: rest) = some (done ++ ssid, rest)
  | [], done, _ => by
    rw [List.append_nil, List.flatMap_nil, List.nil_append, scanSsid.eq_def]
    simp only [if_true]
  | c :: ssid, done, hl => by
    have hstep := scanSsid_quoted rest ssid (done ++ [c]) (by simpa using hl)
    have hlen : ¬ (done ++ [c]).length > 32 := by
      simp only [List.length_append, List.length_cons, List.length_nil] at hl ⊢
      omega
    rw [List.append_assoc] at hstep
    rw [List.flatMap_cons, List.append_assoc]
    by_cases hc : escaped c
    · have hd : ¬ (c ≠ byte '\\' ∧ c ≠ byte '"') := by
        simp only [escaped, Bool.or_eq_true, beq_iff_eq] at hc
        rintro ⟨h1, h2⟩
        exact hc.elim h1 h2
      rw [if_pos hc]
      show scanSsid done (byte '\\' :: c :: _) = _
      rw [scanSsid.eq_def]
      simp only [if_neg (show byte '\\' ≠ byte '"' by decide), if_neg hd, if_neg hlen, if_true]
      exact hstep
    · rw [if_neg hc]
      simp only [escaped, Bool.or_eq_true, beq_iff_eq, not_or] at hc
      show scanSsid done (c :: _) = _
      rw [scanSsid.eq_def]
      simp only [if_neg hc.2, if_neg hc.1, if_neg hlen]
      exact hstep

/-- No prefix is the start of a draft with another DHCPv6 option. -/
theorem detectDhcp6_prefixFor (dhcp6 : Option Bool) (rest : Bytes) :
    detectDhcp6 (prefixFor dhcp6 ++ rest) = some dhcp6 := by
  have hle : ∀ a b : Option Bool, a = none ∨ b = some false ∨ a = b →
      (prefixFor a).length ≤ (prefixFor b).length := by
    unfold prefixFor yamlHead yamlPoints dhcp6Line bytes
    simp only [String.toList_append]
    repeat rw [String.toList_ofList]
    decide +kernel
  have hne : ∀ a b : Option Bool, a = none ∨ b = some false → a ≠ b →
      (prefixFor b).take (prefixFor a).length ≠ prefixFor a := by
    unfold prefixFor yamlHead yamlPoints dhcp6Line bytes
    simp only [String.toList_append]
    repeat rw [String.toList_ofList]
    decide +kernel
  have htake : ∀ a b : Option Bool, a = none ∨ b = some false ∨ a = b →
      (prefixFor b ++ rest).take (prefixFor a).length = (prefixFor b).take (prefixFor a).length :=
    fun a b h => List.take_append_of_le_length (hle a b h)
  unfold detectDhcp6
  match dhcp6 with
  | none =>
    rw [htake _ _ (.inl rfl), List.take_length, if_pos rfl]
  | some true =>
    rw [htake _ _ (.inl rfl), if_neg (hne _ _ (.inl rfl) (by decide)),
      htake _ _ (.inr (.inr rfl)), List.take_length, if_pos rfl]
  | some false =>
    rw [htake _ _ (.inl rfl), if_neg (hne _ _ (.inl rfl) (by decide)),
      htake _ _ (.inr (.inl rfl)), if_neg (hne _ _ (.inr rfl) (by decide)),
      htake _ _ (.inr (.inr rfl)), List.take_length, if_pos rfl]

theorem make_ok {p : WifiProfile} {d : WifiConfigDraft} (h : make p = .ok d) :
    p.psk.length = 32 ∧ ∃ ssid, p.ssidHex = toHex ssid ∧ ssid ≠ [] ∧ ssid.length ≤ 32 ∧
      d.netplanYaml = prefixFor p.dhcp6 ++ (byte '"' :: (ssid.flatMap fun c =>
        if escaped c then [byte '\\', c] else [c]) ++
          byte '"' :: (yamlAuth ++ (toHex p.psk ++ yamlEnd))) := by
  unfold make at h
  dsimp only at h
  split at h
  · cases h
  rename_i hc
  simp only [not_or, ne_eq, Decidable.not_not, Nat.not_lt] at hc
  obtain ⟨hp, hne, hl, he⟩ := hc
  split at h
  · cases h
  rename_i quoted hq
  cases h
  obtain ⟨ssid, hs⟩ := quoteSsid_digits he hq
  rw [← hs, quoteSsid_toHex, Option.some.injEq] at hq
  refine ⟨hp, ssid, hs.symm, ?_, ?_, ?_⟩
  · rintro rfl
    exact hne hs.symm
  · have := congrArg List.length hs
    rw [length_toHex] at this
    omega
  · simp only [withPsk, ← hq, List.append_assoc, List.cons_append, List.nil_append]

theorem split_make {p : WifiProfile} {d : WifiConfigDraft} (h : make p = .ok d) {ssid : Bytes}
    (hs : p.ssidHex = toHex ssid) {parts : Option Bool × Bytes × Bytes}
    (hr : split d.netplanYaml = some parts) : parts = (p.dhcp6, ssid, toHex p.psk) := by
  obtain ⟨hp, ssid', hs', _, hl, hd⟩ := make_ok h
  have : ssid' = ssid := toHex_injective (hs'.symm.trans hs)
  subst this
  have hk : (toHex p.psk).length = 64 := by rw [length_toHex, hp]
  rw [hd] at hr
  simp only [split, Option.bind_eq_bind, Option.bind_eq_some_iff, detectDhcp6_prefixFor,
    Option.some.injEq] at hr
  obtain ⟨_, _, _, rfl, _, _, scanned, hscan, _, _, _, _, _, _, _, _, rfl⟩ := hr
  have hdone := scanSsid_quoted (yamlAuth ++ (toHex p.psk ++ yamlEnd)) ssid' [] (by simpa using hl)
  rw [List.drop_left, List.cons_append, List.drop_succ_cons, List.drop_zero, hdone,
    Option.some.injEq] at hscan
  subst hscan
  have hkey : slice (yamlAuth ++ (toHex p.psk ++ yamlEnd)) yamlAuth.length 64 = toHex p.psk := by
    rw [slice, List.drop_left, ← hk, List.take_left]
  rw [hkey, List.nil_append]

/-- **A rendering reads back as its profile.** -/
theorem read_make {kdf : Pbkdf2} {p q : WifiProfile} {d : WifiConfigDraft} (h : make p = .ok d)
    (hr : read kdf d.netplanYaml = .ok q) : q = p := by
  obtain ⟨hp, ssid, hs, _⟩ := make_ok h
  unfold read at hr
  split at hr
  · cases hr
  rename_i dhcp6 ssid' key hsplit
  have hparts := split_make h hs hsplit
  simp only [Prod.mk.injEq] at hparts
  obtain ⟨rfl, rfl, rfl⟩ := hparts
  split at hr
  · cases hr
  rename_i made hm
  dsimp only at hr
  split at hr
  · cases hr
  split at hr
  · cases hr
    rw [WifiProfile.make_rawKey hp hm, ← hs]
  · cases hr

/-! ## The supplicant text -/

def ofHex : Bytes → Option Bytes
  | hi :: lo :: rest => do
    let high ← unhex hi
    let low ← unhex lo
    let tail ← ofHex rest
    some ((high <<< 4 ||| low) :: tail)
  | [] => some []
  | [_] => none

def splitSupplicant (input : Bytes) : Option (Bytes × Bytes) := do
  guard (input.length ≤ 4096)
  guard (input.take wpaPrefix.length = wpaPrefix)
  let remaining := input.drop wpaPrefix.length
  let (hex, _) ← splitAt? (byte '\n') remaining
  guard (hex ≠ [] ∧ hex.length ≤ 64 ∧ hex.length % 2 = 0)
  let ssid ← ofHex hex
  let remaining := remaining.drop hex.length
  guard (remaining.length = wpaAuth.length + 64 + 3)
  guard (remaining.take wpaAuth.length = wpaAuth)
  guard (remaining.drop (remaining.length - 3) = wpaEnd)
  let key := slice remaining wpaAuth.length 64
  guard (key.all fun c => (unhex c).isSome)
  some (ssid, key)

def readSupplicant (kdf : Pbkdf2) (input : Bytes) : Except String WifiProfile :=
  let failure := .error "Unsupported or noncanonical encoder WPA2 policy"
  match splitSupplicant input with
  | none => failure
  | some (ssid, key) =>
    match WifiProfile.make kdf ssid key with
    | .error _ => failure
    | .ok profile =>
      match make profile with
      | .error _ => failure
      | .ok canonical => if canonical.supplicantConfig = input then .ok profile else failure

def draftOf (dhcp6 : Option Bool) (ssid psk : Bytes) : WifiConfigDraft where
  netplanYaml := prefixFor dhcp6 ++ (byte '"' :: (ssid.flatMap fun c =>
    if escaped c then [byte '\\', c] else [c]) ++ byte '"' :: (yamlAuth ++ (toHex psk ++ yamlEnd)))
  supplicantConfig := wpaPrefix ++ (toHex ssid ++ (wpaAuth ++ (toHex psk ++ wpaEnd)))

theorem make_usable {ssid psk : Bytes} (dhcp6 : Option Bool) (hs : ssid ≠ []) (hl : ssid.length ≤ 32)
    (hp : psk.length = 32) : make ⟨toHex ssid, psk, dhcp6⟩ = .ok (draftOf dhcp6 ssid psk) := by
  have hne : toHex ssid ≠ [] := by
    intro h
    exact hs (toHex_injective (h.trans toHex_nil.symm))
  have hlen := length_toHex ssid
  unfold make
  dsimp only
  rw [if_neg (by simp [hp, hne, hlen]; omega), quoteSsid_toHex]
  simp only [withPsk, draftOf, List.append_assoc, List.cons_append, List.nil_append]

theorem ofHex_toHex : ∀ key : Bytes, ofHex (toHex key) = some key
  | [] => rfl
  | c :: key => by
    simp only [toHex, ofHex, unhex_high, unhex_low, ofHex_toHex key, Option.bind_eq_bind,
      Option.bind_some, join_halves]

theorem unhex_toHex (key : Bytes) : (toHex key).all (fun c => (unhex c).isSome) = true := by
  induction key with
  | nil => rfl
  | cons c key ih => simp only [toHex, List.all_cons, unhex_high, unhex_low, ih, Option.isSome_some,
      Bool.and_self]

theorem newline_not_hex (key : Bytes) : byte '\n' ∉ toHex key := not_mem_toHex (by decide) key

theorem length_prefixFor (dhcp6 : Option Bool) : (prefixFor dhcp6).length ≤ 250 := by
  unfold prefixFor yamlHead yamlPoints dhcp6Line bytes
  simp only [String.toList_append]
  repeat rw [String.toList_ofList]
  rcases dhcp6 with - | - | - <;> simp only [List.length_append, List.length_map] <;> decide

theorem length_yamlAuth : yamlAuth.length ≤ 100 := by
  unfold yamlAuth bytes
  rw [List.length_map, String.toList_ofList]
  decide

theorem length_wpaPrefix : wpaPrefix.length ≤ 120 := by
  unfold wpaPrefix bytes
  rw [List.length_map, String.toList_append, String.toList_ofList, String.toList_ofList]
  decide

theorem length_wpaAuth : wpaAuth.length ≤ 100 := by
  unfold wpaAuth bytes
  rw [List.length_map, String.toList_ofList]
  decide

theorem length_yamlEnd : yamlEnd.length = 2 := by
  unfold yamlEnd
  simp [bytes]

theorem length_wpaEnd : wpaEnd.length = 3 := by
  unfold wpaEnd
  simp [bytes]

theorem cut_key (front : Bytes) {key ending : Bytes} {n : Nat} (hk : key.length = 64)
    (he : ending.length = n) : (front ++ (key ++ ending)).length = front.length + 64 + n ∧
      slice (front ++ (key ++ ending)) front.length 64 = key ∧
      (front ++ (key ++ ending)).drop (front.length + 64 + n - n) = ending := by
  refine ⟨?_, ?_, ?_⟩
  · rw [List.length_append, List.length_append, hk, he, Nat.add_assoc]
  · rw [slice, List.drop_left, ← hk, List.take_left]
  · rw [Nat.add_sub_cancel, ← List.append_assoc, ← hk, ← List.length_append, List.drop_left]

section
variable {ssid psk : Bytes} (hl : ssid.length ≤ 32) (hp : psk.length = 32)
include hl hp

/-- **Both texts are within the limit** of their readers. -/
theorem draftOf_short (dhcp6 : Option Bool) : (draftOf dhcp6 ssid psk).netplanYaml.length ≤ 4096 ∧
    (draftOf dhcp6 ssid psk).supplicantConfig.length ≤ 4096 := by
  have hauth := length_yamlAuth
  have hwpaPrefix := length_wpaPrefix
  have hwpaAuth := length_wpaAuth
  have hwpaEnd := length_wpaEnd
  have hend := length_yamlEnd
  have hquoted : (ssid.flatMap fun c => if escaped c then [byte '\\', c] else [c]).length ≤ 64 := by
    have hbyte : ∀ s : Bytes, (s.flatMap fun c => if escaped c then [byte '\\', c] else [c]).length ≤
        2 * s.length := by
      intro s
      induction s with
      | nil => simp
      | cons c s ih =>
        rw [List.flatMap_cons, List.length_append, List.length_cons]
        split <;> simp only [List.length_cons, List.length_nil] <;> omega
    have := hbyte ssid
    omega
  have hpre := length_prefixFor dhcp6
  constructor
  · simp only [draftOf, List.length_append, List.length_cons, length_toHex, hp, hend]
    omega
  · simp only [draftOf, List.length_append, length_toHex, hp]
    omega

theorem split_draftOf (dhcp6 : Option Bool) :
    split (draftOf dhcp6 ssid psk).netplanYaml = some (dhcp6, ssid, toHex psk) := by
  have hshort := (draftOf_short hl hp dhcp6).1
  have hk : (toHex psk).length = 64 := by rw [length_toHex, hp]
  have hscan := scanSsid_quoted (yamlAuth ++ (toHex psk ++ yamlEnd)) ssid [] (by simpa using hl)
  obtain ⟨hlen, hkey, hlast⟩ := cut_key yamlAuth hk length_yamlEnd
  unfold split
  simp only [guard_true, hshort]
  simp only [draftOf, detectDhcp6_prefixFor, Option.bind_eq_bind, Option.bind_some,
    List.drop_left, List.cons_append, List.head?_cons, List.drop_succ_cons, List.drop_zero, hscan,
    List.nil_append, hlen, List.take_left, hlast, hkey, unhex_toHex]
  simp

theorem splitSupplicant_draftOf (hs : ssid ≠ []) (dhcp6 : Option Bool) :
    splitSupplicant (draftOf dhcp6 ssid psk).supplicantConfig = some (ssid, toHex psk) := by
  have hshort := (draftOf_short hl hp dhcp6).2
  have hk : (toHex psk).length = 64 := by rw [length_toHex, hp]
  have hx : (toHex ssid).length = 2 * ssid.length := length_toHex ssid
  have hne : toHex ssid ≠ [] := by
    intro h
    exact hs (toHex_injective (h.trans toHex_nil.symm))
  have hline : wpaAuth = byte '\n' :: wpaAuth.drop 1 := by
    unfold wpaAuth bytes
    rw [String.toList_ofList]
    rfl
  have hsplit : splitAt? (byte '\n') (toHex ssid ++ (wpaAuth ++ (toHex psk ++ wpaEnd))) =
      some (toHex ssid, wpaAuth.drop 1 ++ (toHex psk ++ wpaEnd)) := by
    conv_lhs => rw [hline]
    exact splitAt?_append (newline_not_hex ssid)
  obtain ⟨hlen, hkey, hlast⟩ := cut_key wpaAuth hk length_wpaEnd
  have hhex : toHex ssid ≠ [] ∧ (toHex ssid).length ≤ 64 ∧ (toHex ssid).length % 2 = 0 :=
    ⟨hne, by omega, by omega⟩
  unfold splitSupplicant
  simp only [hshort]
  simp only [draftOf, List.take_left, List.drop_left, hsplit, Option.bind_eq_bind, Option.bind_some,
    hhex, ofHex_toHex, hlen, hlast, hkey, unhex_toHex]
  simp [hne]

end

/-! ## The two texts and their readers -/

theorem supplicant_of_read {kdf : Pbkdf2} {input : Bytes} {p : WifiProfile}
    (h : readSupplicant kdf input = .ok p) : ∃ d, make p = .ok d ∧ d.supplicantConfig = input := by
  unfold readSupplicant at h
  split at h
  · cases h
  · dsimp only at h
    split at h
    · cases h
    · split at h
      · cases h
      · rename_i d hd
        split at h
        · rename_i hc
          cases h
          exact ⟨d, hd, hc⟩
        · cases h

theorem draft_of_read {kdf : Pbkdf2} {input : Bytes} {p : WifiProfile} (h : read kdf input = .ok p) :
    ∃ d, make p = .ok d ∧ d.netplanYaml = input := by
  have hy := yaml_of_read h
  unfold yaml at hy
  split at hy
  · rename_i d hd
    exact ⟨d, hd, Option.some.inj hy⟩
  · cases hy

/-- A profile as `WifiProfile::make` returns it, with any DHCPv6 option. -/
def Made (kdf : Pbkdf2) (p : WifiProfile) : Prop :=
  ∃ ssid password made, WifiProfile.make kdf ssid password = .ok made ∧
    p = { made with dhcp6 := p.dhcp6 }

theorem made_shape {kdf : Pbkdf2} {p : WifiProfile} (h : Made kdf p) :
    ∃ ssid psk, p = ⟨toHex ssid, psk, p.dhcp6⟩ ∧ ssid ≠ [] ∧ ssid.length ≤ 32 ∧
      WifiProfile.validTextSsid ssid = true ∧ psk.length = 32 := by
  obtain ⟨ssid, password, made, hm, hp⟩ := h
  obtain ⟨hs, hl, hx, hk, _⟩ := WifiProfile.make_ok hm
  refine ⟨ssid, made.psk, ?_, hs, hl, WifiProfile.make_text hm, hk⟩
  rw [hp, ← hx]

section
variable {ssid psk : Bytes} (hs : ssid ≠ []) (hl : ssid.length ≤ 32)
  (ht : WifiProfile.validTextSsid ssid = true) (hp : psk.length = 32)
include hs hl ht hp

theorem read_draftOf (kdf : Pbkdf2) (dhcp6 : Option Bool) :
    read kdf (draftOf dhcp6 ssid psk).netplanYaml = .ok ⟨toHex ssid, psk, dhcp6⟩ := by
  unfold read
  simp only [split_draftOf hl hp, WifiProfile.make_key kdf hs hl ht hp, make_usable dhcp6 hs hl hp,
    if_true]

theorem readSupplicant_draftOf (kdf : Pbkdf2) (dhcp6 : Option Bool) :
    readSupplicant kdf (draftOf dhcp6 ssid psk).supplicantConfig = .ok ⟨toHex ssid, psk, none⟩ := by
  have hsame : (draftOf none ssid psk).supplicantConfig = (draftOf dhcp6 ssid psk).supplicantConfig :=
    rfl
  unfold readSupplicant
  simp only [splitSupplicant_draftOf hl hp hs, WifiProfile.make_key kdf hs hl ht hp,
    make_usable none hs hl hp, hsame, if_true]

end

/-- **Readers and writer are inverse to each other.** What a profile renders as is
short, reads back as that profile and belongs to no other; what a reader accepts is
the rendering of the profile it returns. -/
theorem drafts_exact (kdf : Pbkdf2) :
    (∀ p, Made kdf p → ∃ draft, make p = .ok draft ∧
      read kdf draft.netplanYaml = .ok p ∧
      readSupplicant kdf draft.supplicantConfig = .ok { p with dhcp6 := none } ∧
      draft.netplanYaml.length ≤ 4096 ∧ draft.supplicantConfig.length ≤ 4096) ∧
    (∀ p q draft draft', Made kdf p → Made kdf q → make p = .ok draft → make q = .ok draft' →
      (draft.netplanYaml = draft'.netplanYaml → p = q) ∧
      (draft.supplicantConfig = draft'.supplicantConfig →
        p.ssidHex = q.ssidHex ∧ p.psk = q.psk)) ∧
    (∀ input p, read kdf input = .ok p →
      Made kdf p ∧ ∃ draft, make p = .ok draft ∧ draft.netplanYaml = input) ∧
    ∀ input p, readSupplicant kdf input = .ok p →
      Made kdf p ∧ ∃ draft, make p = .ok draft ∧ draft.supplicantConfig = input := by
  have hround : ∀ p, Made kdf p → ∃ draft, make p = .ok draft ∧
      read kdf draft.netplanYaml = .ok p ∧
      readSupplicant kdf draft.supplicantConfig = .ok { p with dhcp6 := none } ∧
      draft.netplanYaml.length ≤ 4096 ∧ draft.supplicantConfig.length ≤ 4096 := by
    intro p hm
    obtain ⟨ssid, psk, hp, hs, hl, ht, hk⟩ := made_shape hm
    rw [hp]
    exact ⟨draftOf p.dhcp6 ssid psk, make_usable p.dhcp6 hs hl hk, read_draftOf hs hl ht hk kdf _,
      readSupplicant_draftOf hs hl ht hk kdf _, draftOf_short hl hk p.dhcp6⟩
  refine ⟨hround, ?_, ?_, ?_⟩
  -- a text of two profiles is read as either of them
  · intro p q draft draft' hp hq hd hd'
    obtain ⟨e, he, hr, hrs, _⟩ := hround p hp
    obtain ⟨e', he', hr', hrs', _⟩ := hround q hq
    obtain rfl : e = draft := Except.ok.inj (he.symm.trans hd)
    obtain rfl : e' = draft' := Except.ok.inj (he'.symm.trans hd')
    constructor
    · intro h
      rw [h] at hr
      exact Except.ok.inj (hr.symm.trans hr')
    · intro h
      rw [h] at hrs
      have := Except.ok.inj (hrs.symm.trans hrs')
      simp only [WifiProfile.mk.injEq] at this
      exact ⟨this.1, this.2.1⟩
  · intro input p h
    refine ⟨?_, draft_of_read h⟩
    unfold read at h
    split at h
    · cases h
    · dsimp only at h
      split at h
      · cases h
      · rename_i dhcp6 ssid key hsplit x made hm
        split at h
        · cases h
        · split at h
          · cases h
            exact ⟨ssid, key, made, hm, rfl⟩
          · cases h
  · intro input p h
    refine ⟨?_, supplicant_of_read h⟩
    unfold readSupplicant at h
    split at h
    · cases h
    · dsimp only at h
      split at h
      · cases h
      · rename_i ssid key hsplit x made hm
        split at h
        · cases h
        · split at h
          · cases h
            exact ⟨ssid, key, _, hm, rfl⟩
          · cases h

theorem drafts_exact_zeroKey : ∃ draft,
    make ⟨bytes "61", List.replicate 32 0, some true⟩ = .ok draft ∧
      read noKdf draft.netplanYaml = .ok ⟨bytes "61", List.replicate 32 0, some true⟩ := by
  have hm : Made noKdf ⟨bytes "61", List.replicate 32 0, some true⟩ :=
    ⟨[97], toHex (List.replicate 32 0), ⟨bytes "61", List.replicate 32 0, none⟩,
      WifiProfile.make_key noKdf (by simp) (by decide) (by decide) rfl, rfl⟩
  obtain ⟨draft, hd, hr, _⟩ := (drafts_exact noKdf).1 _ hm
  exact ⟨draft, hd, hr⟩

end WifiDraft

end EncoderNext
