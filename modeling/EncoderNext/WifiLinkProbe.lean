import EncoderNext.Decimal
import EncoderNext.FieldTable
import EncoderNext.LineFile
import EncoderNext.WifiChange

/-!
# Is the requested network up?

`assess_wifi_link` reads the supplicant's status line by line and says whether the
target is connected with WPA2 and has a usable address of its own.
-/

namespace EncoderNext

namespace WifiLinkProbe

/-! ## The connected network -/

def letterEscape (d : UInt8) : Option UInt8 :=
  if d = byte '\\' then some (byte '\\')
  else if d = byte '"' then some (byte '"')
  else if d = byte 'n' then some 10
  else if d = byte 'r' then some 13
  else if d = byte 't' then some 9
  else if d = byte 'e' then some 27
  else none

def hexEscape : Bytes → Option (UInt8 × Bytes)
  | hi :: lo :: rest => do
    let high ← WifiProfile.hexValue hi
    let low ← WifiProfile.hexValue lo
    some (high <<< 4 ||| low, rest)
  | _ => none

def escape : Bytes → Option (UInt8 × Bytes)
  | [] => none
  | d :: rest =>
    match letterEscape d with
    | some c => some (c, rest)
    | none => if d = byte 'x' then hexEscape rest else none

def unescape : Bytes → Option (UInt8 × Bytes)
  | [] => none
  | c :: rest => if c = byte '\\' then escape rest else some (c, rest)

def ssidHexLoop : Nat → Bytes → Bytes → Option Bytes
  | _, result, [] => some result
  | 0, _, _ :: _ => none
  | fuel + 1, result, c :: encoded =>
    match unescape (c :: encoded) with
    | none => none
    | some (c, rest) =>
      let result := result ++ toHex [c]
      if result.length > 64 then none else ssidHexLoop fuel result rest

/-- `ssid_hex`: every turn takes a byte, so the length bounds the turns. -/
def ssidHex (encoded : Bytes) : Option Bytes :=
  match ssidHexLoop encoded.length [] encoded with
  | some [] => none
  | result => result

/-! ## The address -/

/-- Up to three digits of at most 255, without a zero in front. -/
def readOctet (ip : Bytes) : Option (Nat × Bytes) :=
  let ds := ip.takeWhile isDigit
  if ds.length > 3 then none
  else if ds = [] ∨ digitsValue ds > 255 ∨ (ds.length > 1 ∧ ds.head? = some (byte '0')) then none
  else some (digitsValue ds, ip.drop ds.length)

def readDot : Bytes → Option Bytes
  | [] => none
  | c :: rest => if c = byte '.' then some rest else none

def readQuad (ip : Bytes) : Option (Nat × Nat × Bytes) := do
  let (first, rest) ← readOctet ip
  let rest ← readDot rest
  let (second, rest) ← readOctet rest
  let rest ← readDot rest
  let (_, rest) ← readOctet rest
  let rest ← readDot rest
  let (_, rest) ← readOctet rest
  some (first, second, rest)

def usableIpv4 (ip : Bytes) : Bool :=
  match readQuad ip with
  | none => false
  | some (first, second, rest) =>
    rest == [] && first != 0 && first != 127 && first < 224 && !(first == 169 && second == 254)

/-! ## The status -/

def isControl (c : UInt8) : Bool := c < 32 || c == 127

def knownKeys : List Bytes := [bytes "wpa_state", bytes "ssid", bytes "key_mgmt",
  bytes "pairwise_cipher", bytes "group_cipher", bytes "ip_address"]

abbrev Fields : Type := FieldTable.Fields Bytes Bytes

def readLine (fields : Fields) (line : Bytes) : Except String Fields :=
  if line.any isControl then .error "Invalid Wi-Fi status characters"
  else
    match splitAt? (byte '=') line with
    | none => .error "Invalid Wi-Fi status line"
    | some (key, value) =>
      if key ∉ knownKeys then .ok fields
      else if value.length > 256 ∨ (fields.lookup key).isSome then
        .error "Duplicate or oversized Wi-Fi status field"
      else .ok (fields.insert key value)

def pendingStates : List Bytes := [bytes "DISCONNECTED", bytes "INACTIVE", bytes "SCANNING",
  bytes "AUTHENTICATING", bytes "ASSOCIATING", bytes "ASSOCIATED", bytes "4WAY_HANDSHAKE",
  bytes "GROUP_HANDSHAKE"]

/-- What the fields say; an absent one is empty. -/
def judge (target : WifiProfile) (get : Bytes → Bytes) (interfaceIpv4 : List Bytes) :
    WifiLink × String :=
  if get (bytes "wpa_state") ∈ pendingStates then (.pending, "Waiting for Wi-Fi authentication")
  else if get (bytes "wpa_state") ≠ bytes "COMPLETED" then
    (.failed, "Wi-Fi interface disabled or unknown state")
  else
    match ssidHex (get (bytes "ssid")) with
    | none => (.failed, "Invalid connected network identity")
    | some actual =>
      if actual ≠ target.ssidHex then (.pending, "Waiting for the requested network")
      else if get (bytes "key_mgmt") ≠ bytes "WPA2-PSK" ∨ get (bytes "pairwise_cipher") ≠ bytes "CCMP" ∨
          get (bytes "group_cipher") ≠ bytes "CCMP" then
        (.failed, "Connected network does not meet WPA2-CCMP policy")
      else if usableIpv4 (get (bytes "ip_address")) = false ∨
          get (bytes "ip_address") ∉ interfaceIpv4 then
        (.pending, "Waiting for a usable IPv4 address on wlan0")
      else (.ready, "Requested WPA2 network and local IPv4 are ready")

def assess (target : WifiProfile) (status : Bytes) (interfaceIpv4 : List Bytes) :
    WifiLink × String :=
  if target.psk.length ≠ 32 ∨ target.ssidHex = [] then
    (.failed, "Invalid or consumed target profile")
  else if status = [] ∨ status.length > 8192 ∨ status.getLast? ≠ some lf then
    (.failed, "Missing, oversized or incomplete Wi-Fi status")
  else
    match (lines status).foldlM readLine ∅ with
    | .error message => (.failed, message)
    | .ok fields => judge target (fun key => (fields.lookup key).getD []) interfaceIpv4

/-! ## Escapes -/

inductive Escaped : Bytes → Bytes → Prop where
  | nil : Escaped [] []
  | plain {c : UInt8} {text ssid : Bytes} : c ≠ byte '\\' → Escaped text ssid →
      Escaped (c :: text) (c :: ssid)
  | letter {c d : UInt8} {text ssid : Bytes} : (d, c) ∈ [(byte '\\', byte '\\'), (byte '"', byte '"'),
      (byte 'n', 10), (byte 'r', 13), (byte 't', 9), (byte 'e', 27)] → Escaped text ssid →
      Escaped (byte '\\' :: d :: text) (c :: ssid)
  | hex {hi lo high low : UInt8} {text ssid : Bytes} : WifiProfile.hexValue hi = some high →
      WifiProfile.hexValue lo = some low → Escaped text ssid →
      Escaped (byte '\\' :: byte 'x' :: hi :: lo :: text) ((high <<< 4 ||| low) :: ssid)

theorem letterEscape_iff {c d : UInt8} : letterEscape d = some c ↔
    (d, c) ∈ [(byte '\\', byte '\\'), (byte '"', byte '"'), (byte 'n', 10), (byte 'r', 13),
      (byte 't', 9), (byte 'e', 27)] := by
  have hall : ∀ d : UInt8, letterEscape d =
      ([(byte '\\', byte '\\'), (byte '"', byte '"'), (byte 'n', 10), (byte 'r', 13), (byte 't', 9),
        (byte 'e', 27)].find? fun p => p.1 = d).map Prod.snd := forall_byte (by decide +kernel)
  constructor
  · intro h
    rw [hall] at h
    obtain ⟨p, hp, rfl⟩ := Option.map_eq_some_iff.mp h
    have hd := List.find?_some hp
    rw [decide_eq_true_eq] at hd
    exact hd ▸ List.mem_of_find?_eq_some hp
  · intro h
    simp only [List.mem_cons, List.not_mem_nil, or_false, Prod.mk.injEq] at h
    rcases h with ⟨rfl, rfl⟩ | ⟨rfl, rfl⟩ | ⟨rfl, rfl⟩ | ⟨rfl, rfl⟩ | ⟨rfl, rfl⟩ | ⟨rfl, rfl⟩ <;> rfl

theorem escaped_of_unescape {text rest : Bytes} {c : UInt8} (h : unescape text = some (c, rest)) :
    (∀ ssid, Escaped rest ssid → Escaped text (c :: ssid)) ∧ rest.length < text.length := by
  cases text with
  | nil => cases h
  | cons d text =>
    rw [unescape] at h
    by_cases hd : d = byte '\\'
    · subst hd
      rw [if_pos rfl] at h
      cases text with
      | nil => cases h
      | cons e text =>
        rw [escape] at h
        cases hl : letterEscape e with
        | some c' =>
          rw [hl] at h
          cases h
          exact ⟨fun ssid => .letter (letterEscape_iff.mp hl), by rw [List.length_cons, List.length_cons]; omega⟩
        | none =>
          rw [hl] at h
          dsimp only at h
          split at h
          · rename_i he
            subst he
            match text, h with
            | hi :: lo :: text, h =>
              simp only [hexEscape, Option.bind_eq_bind, Option.bind_eq_some_iff, Option.some.injEq,
                Prod.mk.injEq] at h
              obtain ⟨high, hh, low, hl, rfl, rfl⟩ := h
              exact ⟨fun ssid => .hex hh hl, by simp; omega⟩
          · cases h
    · rw [if_neg hd] at h
      cases h
      exact ⟨fun ssid => .plain hd, by simp⟩

theorem unescape_of_escaped {text ssid : Bytes} {c : UInt8} (h : Escaped text (c :: ssid)) :
    ∃ rest, unescape text = some (c, rest) ∧ Escaped rest ssid := by
  cases h with
  | plain hc hr => exact ⟨_, by rw [unescape, if_neg hc], hr⟩
  | letter hc hr =>
    refine ⟨_, ?_, hr⟩
    rw [unescape, if_pos rfl, escape, letterEscape_iff.mpr hc]
  | hex hh hl hr =>
    refine ⟨_, ?_, hr⟩
    have hx : letterEscape (byte 'x') = none := rfl
    rw [unescape, if_pos rfl, escape, hx]
    simp [hexEscape, hh, hl]

theorem ssidHexLoop_iff : ∀ (fuel : Nat) (encoded result out : Bytes), encoded.length ≤ fuel →
    result.length ≤ 64 → (ssidHexLoop fuel result encoded = some out ↔
      ∃ ssid, Escaped encoded ssid ∧ out = result ++ toHex ssid ∧ out.length ≤ 64)
  | fuel, [], result, out, _, hr => by
    rw [ssidHexLoop]
    constructor
    · intro h
      cases h
      exact ⟨[], .nil, by simp, hr⟩
    · rintro ⟨ssid, hssid, rfl, -⟩
      cases hssid
      simp
  | 0, _ :: _, _, _, h, _ => by simp at h
  | fuel + 1, c :: encoded, result, out, h, hr => by
    have hhex (d : UInt8) (ssid : Bytes) : toHex (d :: ssid) = toHex [d] ++ toHex ssid := rfl
    rw [ssidHexLoop]
    constructor
    · intro hloop
      split at hloop
      · cases hloop
      rename_i d rest hu
      dsimp only at hloop
      split at hloop
      · cases hloop
      rename_i hlen
      obtain ⟨hescaped, hshort⟩ := escaped_of_unescape hu
      rw [List.length_cons] at h hshort
      obtain ⟨ssid, hssid, rfl, hout⟩ :=
        (ssidHexLoop_iff fuel rest _ out (by omega) (by omega)).mp hloop
      refine ⟨d :: ssid, hescaped ssid hssid, ?_, hout⟩
      rw [List.append_assoc]
      rfl
    · rintro ⟨ssid, hssid, rfl, hout⟩
      cases ssid with
      | nil => cases hssid
      | cons d ssid =>
        obtain ⟨rest, hu, hrest⟩ := unescape_of_escaped hssid
        obtain ⟨-, hshort⟩ := escaped_of_unescape hu
        rw [List.length_cons] at h hshort
        rw [hhex, ← List.append_assoc] at hout ⊢
        -- the front is no longer than the whole
        have hlen : (result ++ toHex [d]).length ≤ 64 := by
          rw [List.length_append] at hout
          omega
        simp only [hu]
        rw [if_neg (by omega), ssidHexLoop_iff fuel rest _ _ (by omega) hlen]
        exact ⟨ssid, hrest, rfl, hout⟩

theorem ssidHex_iff {encoded ssid : Bytes} (hne : ssid ≠ []) (hlen : ssid.length ≤ 32) :
    ssidHex encoded = some (toHex ssid) ↔ Escaped encoded ssid := by
  have hhex : toHex ssid ≠ [] := fun h => hne (toHex_injective (h.trans toHex_nil.symm))
  have hloop := ssidHexLoop_iff encoded.length encoded [] (toHex ssid) le_rfl (by simp)
  have hread : ssidHexLoop encoded.length [] encoded = some (toHex ssid) ↔ Escaped encoded ssid := by
    rw [hloop]
    constructor
    · rintro ⟨ssid', hssid, heq, -⟩
      exact toHex_injective heq ▸ hssid
    · intro h
      exact ⟨ssid, h, rfl, by rw [length_toHex]; omega⟩
  rw [← hread, ssidHex]
  cases hl : ssidHexLoop encoded.length [] encoded with
  | none => simp
  | some out =>
    cases out with
    | nil => simp [hhex.symm]
    | cons c out => simp

/-! ## Addresses -/

theorem digit_value : ∀ c : UInt8, isDigit c = true →
    UInt8.ofNat (48 + (c - byte '0').toNat) = c ∧ (c - byte '0').toNat < 10 :=
  forall_byte (by decide +kernel)

/-- Digits without a zero in front are what their number is written as. -/
theorem decimal_digitsValue {ds : Bytes} (hne : ds ≠ []) (hd : ∀ c ∈ ds, isDigit c = true)
    (hzero : ds.length > 1 → ds.head? ≠ some (byte '0')) : decimal (digitsValue ds) = ds := by
  induction ds using List.reverseRecOn with
  | nil => exact absurd rfl hne
  | append_singleton ds c ih =>
    obtain ⟨hc, hten⟩ := digit_value c (hd c (by simp))
    rw [digitsValue_snoc]
    by_cases hds : ds = []
    · subst hds
      have hv : digitsValue [] * 10 + (c - byte '0').toNat = (c - byte '0').toNat := by
        simp [digitsValue]
      rw [hv, decimal_small hten, hc, List.nil_append]
    · have hlong : (ds ++ [c]).length > 1 := by
        have := List.length_pos_iff.mpr hds
        simp
        omega
      have hhead := hzero hlong
      rw [List.head?_append_of_ne_nil _ hds] at hhead
      have hrest := ih hds (fun d hdd => hd d (by simp [hdd])) fun _ => hhead
      have hpos : digitsValue ds ≠ 0 := by
        intro h0
        rw [h0] at hrest
        rw [← hrest] at hhead
        exact hhead (by decide)
      have hdiv : (digitsValue ds * 10 + (c - byte '0').toNat) / 10 = digitsValue ds := by omega
      have hmod : (digitsValue ds * 10 + (c - byte '0').toNat) % 10 = (c - byte '0').toNat := by
        omega
      rw [decimal_step (by omega), hdiv, hmod, hrest, hc]

theorem decimal_octet {n : Nat} (h : n ≤ 255) : (decimal n).length ≤ 3 ∧
    ((decimal n).length > 1 → (decimal n).head? ≠ some (byte '0')) := by
  have hall : ∀ n : Fin 256, (decimal n).length ≤ 3 ∧
      ((decimal n).length > 1 → (decimal n).head? ≠ some (byte '0')) := by decide +kernel
  exact hall ⟨n, by omega⟩

theorem readOctet_iff {ip rest : Bytes} {n : Nat} : readOctet ip = some (n, rest) ↔
    n ≤ 255 ∧ ip = decimal n ++ rest ∧ ∀ c, rest.head? = some c → isDigit c = false := by
  unfold readOctet
  dsimp only
  constructor
  · intro h
    split at h
    · cases h
    split at h
    · cases h
    rename_i hbad
    cases h
    simp only [not_or, not_and, Nat.not_lt] at hbad
    obtain ⟨hne, hle, hzero⟩ := hbad
    have hdigits : ∀ c ∈ ip.takeWhile isDigit, isDigit c = true := fun c hc =>
      List.mem_takeWhile_imp hc
    have hdrop : ip.drop (ip.takeWhile isDigit).length = ip.dropWhile isDigit := by
      have hleft := @List.drop_left _ (ip.takeWhile isDigit) (ip.dropWhile isDigit)
      rwa [List.takeWhile_append_dropWhile] at hleft
    refine ⟨hle, ?_, ?_⟩
    · rw [decimal_digitsValue hne hdigits hzero, hdrop, List.takeWhile_append_dropWhile]
    · intro c hc
      rw [hdrop] at hc
      have hstop := List.head?_dropWhile_not isDigit ip
      rwa [hc] at hstop
  · rintro ⟨hle, rfl, hrest⟩
    have hnone : rest.takeWhile isDigit = [] := by
      cases rest with
      | nil => rfl
      | cons c rest => rw [List.takeWhile_cons_of_neg (by simp [hrest c rfl])]
    have htake : (decimal n ++ rest).takeWhile isDigit = decimal n := by
      rw [List.takeWhile_append_of_pos (decimal_digits n), hnone, List.append_nil]
    obtain ⟨hlen, hzero⟩ := decimal_octet hle
    rw [htake, if_neg (by omega), digitsValue_decimal, if_neg, List.drop_left]
    rintro (h | h | ⟨h, h'⟩)
    · exact decimal_ne_nil n h
    · omega
    · exact hzero h h'

theorem readDot_iff {ip rest : Bytes} : readDot ip = some rest ↔ ip = byte '.' :: rest := by
  cases ip with
  | nil => simp [readDot]
  | cons c ip =>
    by_cases hc : c = byte '.'
    · simp [readDot, hc]
    · simp [readDot, hc]

structure Quad (ip : Bytes) (a b c d : Nat) : Prop where
  small : a ≤ 255 ∧ b ≤ 255 ∧ c ≤ 255 ∧ d ≤ 255
  written : ip = joined (byte '.') [decimal a, decimal b, decimal c, decimal d]

theorem readQuad_iff {ip rest : Bytes} {a b : Nat} : readQuad ip = some (a, b, rest) ↔
    ∃ c d front, Quad front a b c d ∧ ip = front ++ rest ∧
      ∀ c, rest.head? = some c → isDigit c = false := by
  have hdot : isDigit (byte '.') = false := rfl
  unfold readQuad
  simp only [Option.bind_eq_bind, Option.bind_eq_some_iff, Prod.exists, readOctet_iff, readDot_iff,
    Option.some.injEq, Prod.mk.injEq]
  constructor
  · rintro ⟨a', r1, ⟨ha, rfl, -⟩, r2, rfl, b', r3, ⟨hb, rfl, -⟩, r4, rfl, c, r5, ⟨hc, rfl, -⟩, r6,
      rfl, d, r7, ⟨hd, rfl, hrest⟩, rfl, rfl, rfl⟩
    refine ⟨c, d, _, ⟨⟨ha, hb, hc, hd⟩, rfl⟩, ?_, hrest⟩
    simp [joined]
  · rintro ⟨c, d, front, ⟨⟨ha, hb, hc, hd⟩, rfl⟩, rfl, hrest⟩
    have hwhole : joined (byte '.') [decimal a, decimal b, decimal c, decimal d] ++ rest =
        decimal a ++ byte '.' :: (decimal b ++ byte '.' :: (decimal c ++ byte '.' ::
          (decimal d ++ rest))) := by simp [joined]
    refine ⟨a, _, ⟨ha, hwhole, ?_⟩, _, rfl, b, _, ⟨hb, rfl, ?_⟩, _, rfl, c, _, ⟨hc, rfl, ?_⟩, _, rfl,
      d, rest, ⟨hd, rfl, hrest⟩, rfl, rfl, rfl⟩
    all_goals simp [hdot]

theorem usableIpv4_iff {ip : Bytes} : usableIpv4 ip = true ↔
    ∃ a b c d, Quad ip a b c d ∧ a ≠ 0 ∧ a ≠ 127 ∧ a < 224 ∧ ¬ (a = 169 ∧ b = 254) := by
  unfold usableIpv4
  constructor
  · intro h
    split at h
    · cases h
    rename_i a b rest hq
    simp only [Bool.and_eq_true, beq_iff_eq, bne_iff_ne, decide_eq_true_eq, Bool.not_eq_true',
      Bool.and_eq_false_iff, beq_eq_false_iff_ne] at h
    obtain ⟨⟨⟨⟨rfl, h0⟩, h127⟩, h224⟩, hlocal⟩ := h
    obtain ⟨c, d, front, hquad, rfl, -⟩ := readQuad_iff.mp hq
    rw [List.append_nil]
    exact ⟨a, b, c, d, hquad, h0, h127, h224, by omega⟩
  · rintro ⟨a, b, c, d, hquad, h0, h127, h224, hlocal⟩
    have hq : readQuad ip = some (a, b, []) :=
      readQuad_iff.mpr ⟨c, d, ip, hquad, by simp, by simp⟩
    rw [hq]
    simp [h0, h127, h224]
    omega

/-! ## Lines -/

def entryOf (line : Bytes) : Option (Option (Bytes × Bytes)) :=
  if line.any isControl then none
  else
    match splitAt? (byte '=') line with
    | none => none
    | some (key, value) =>
      if key ∉ knownKeys then some none
      else if value.length > 256 then none
      else some (some (key, value))

theorem reads_readLine : FieldTable.Reads entryOf readLine := by
  intro fields line
  unfold entryOf readLine
  by_cases hc : line.any isControl = true
  · rw [if_pos hc, if_pos hc]
    exact ⟨_, rfl⟩
  rw [if_neg hc, if_neg hc]
  cases hs : splitAt? (byte '=') line with
  | none => exact ⟨_, rfl⟩
  | some p =>
    obtain ⟨key, value⟩ := p
    dsimp only
    by_cases hk : key ∉ knownKeys
    · simp only [if_pos hk]
    · simp only [if_neg hk]
      by_cases hv : value.length > 256
      · simp [hv]
      · by_cases hl : (fields.lookup key).isSome = true
        · simp [hv, hl]
        · simp [hv, hl]

def lineValue (key line : Bytes) : Option Bytes :=
  match splitAt? (byte '=') line with
  | some (k, value) => if k = key then some value else none
  | none => none

def lineValues (ls : List Bytes) (key : Bytes) : List Bytes := ls.filterMap (lineValue key)

theorem splitAt?_none {c : UInt8} {s : Bytes} : splitAt? c s = none ↔ c ∉ s := by
  induction s with
  | nil => simp [splitAt?]
  | cons d s ih =>
    by_cases hd : d = c
    · simp [splitAt?, hd]
    · simp [splitAt?, hd, ih, Ne.symm hd]

theorem entryOf_ne_none {line : Bytes} : entryOf line ≠ none ↔
    (byte '=' ∈ line ∧ ∀ c ∈ line, isControl c = false) ∧
      ∀ key ∈ knownKeys, ∀ v, lineValue key line = some v → v.length ≤ 256 := by
  unfold entryOf lineValue
  by_cases hc : line.any isControl = true
  · rw [if_pos hc]
    obtain ⟨c, hc, hcc⟩ := List.any_eq_true.mp hc
    simp only [ne_eq, not_true_eq_false, false_iff, not_and]
    intro h
    exact absurd (h.2 c hc) (by simp [hcc])
  have hplain : ∀ c ∈ line, isControl c = false := by simpa using hc
  rw [if_neg hc]
  cases hs : splitAt? (byte '=') line with
  | none =>
    have := splitAt?_none.mp hs
    simp [this]
  | some p =>
    obtain ⟨key, value⟩ := p
    have hmem : byte '=' ∈ line := by
      by_contra h
      rw [splitAt?_none.mpr h] at hs
      cases hs
    dsimp only
    -- the value of an unknown key may have any length
    by_cases hk : key ∉ knownKeys
    · rw [if_pos hk]
      simp only [ne_eq, reduceCtorEq, not_false_eq_true, true_iff]
      refine ⟨⟨hmem, hplain⟩, fun k hkk v hv => ?_⟩
      split at hv
      · rename_i he
        exact absurd (he ▸ hkk) hk
      · cases hv
    · rw [if_neg hk]
      rw [not_not] at hk
      by_cases hv : value.length > 256
      · rw [if_pos hv]
        simp only [ne_eq, not_true_eq_false, false_iff, not_and, not_forall]
        intro _
        exact ⟨key, hk, value, by simp, by omega⟩
      · rw [if_neg hv]
        simp only [ne_eq, reduceCtorEq, not_false_eq_true, true_iff]
        refine ⟨⟨hmem, hplain⟩, fun k _ v he => ?_⟩
        split at he
        · cases he
          omega
        · cases he

theorem valueOf_entryOf {key line : Bytes} (h : entryOf line ≠ none) :
    FieldTable.valueOf entryOf key line = if key ∈ knownKeys then lineValue key line else none := by
  unfold FieldTable.valueOf lineValue
  unfold entryOf at h ⊢
  by_cases hc : line.any isControl = true
  · rw [if_pos hc] at h
    exact absurd rfl h
  rw [if_neg hc] at h ⊢
  cases hs : splitAt? (byte '=') line with
  | none =>
    rw [hs] at h
    exact absurd rfl h
  | some p =>
    obtain ⟨k, value⟩ := p
    rw [hs] at h
    dsimp only at h ⊢
    by_cases hk : k ∉ knownKeys
    · rw [if_pos hk]
      by_cases he : k = key
      · subst he
        simp [hk]
      · simp [he]
    · rw [if_neg hk] at h ⊢
      rw [not_not] at hk
      by_cases hv : value.length > 256
      · rw [if_pos hv] at h
        exact absurd rfl h
      · rw [if_neg hv]
        by_cases he : k = key
        · subst he
          simp [hk]
        · simp [he]

theorem values_entryOf {ls : List Bytes} (h : ∀ l ∈ ls, entryOf l ≠ none) (key : Bytes) :
    FieldTable.values entryOf key ls = if key ∈ knownKeys then lineValues ls key else [] := by
  have hline : FieldTable.values entryOf key ls =
      ls.filterMap fun line => if key ∈ knownKeys then lineValue key line else none :=
    List.filterMap_congr fun l hl => valueOf_entryOf (h l hl)
  rw [hline]
  split
  · rfl
  · simp

/-- Every line is well formed, and each known key has at most one value of at most 256 bytes. -/
structure WellFormed (ls : List Bytes) : Prop where
  plain : ∀ line ∈ ls, byte '=' ∈ line ∧ ∀ c ∈ line, isControl c = false
  once : ∀ key ∈ knownKeys, (lineValues ls key).length ≤ 1 ∧ ∀ v ∈ lineValues ls key, v.length ≤ 256

theorem accepts_iff (ls : List Bytes) : FieldTable.Accepts entryOf ∅ ls ↔ WellFormed ls := by
  rw [FieldTable.accepts_empty]
  constructor
  · rintro ⟨hall, hcount⟩
    refine ⟨fun line hl => (entryOf_ne_none.mp (hall line hl)).1, fun key hk => ⟨?_, ?_⟩⟩
    · have := hcount key
      rwa [values_entryOf hall, if_pos hk] at this
    · intro v hv
      obtain ⟨line, hl, hv⟩ := List.mem_filterMap.mp hv
      exact (entryOf_ne_none.mp (hall line hl)).2 key hk v hv
  · rintro ⟨hplain, honce⟩
    have hall : ∀ l ∈ ls, entryOf l ≠ none := fun l hl => entryOf_ne_none.mpr
      ⟨hplain l hl, fun key hk v hv => (honce key hk).2 v (List.mem_filterMap.mpr ⟨l, hl, hv⟩)⟩
    refine ⟨hall, fun key => ?_⟩
    rw [values_entryOf hall]
    by_cases hk : key ∈ knownKeys
    · rw [if_pos hk]
      exact (honce key hk).1
    · simp [hk]

def fieldOf (ls : List Bytes) (key : Bytes) : Bytes := (lineValues ls key).head?.getD []

theorem readLines_iff (ls : List Bytes) :
    (∃ fields, ls.foldlM readLine ∅ = .ok fields) ↔ WellFormed ls :=
  (FieldTable.foldlM_accepts reads_readLine ls ∅).trans (accepts_iff ls)

theorem lookup_readLines {ls : List Bytes} {fields : Fields} (h : ls.foldlM readLine ∅ = .ok fields)
    {key : Bytes} (hk : key ∈ knownKeys) : (fields.lookup key).getD [] = fieldOf ls key := by
  have haccepts := (FieldTable.foldlM_accepts reads_readLine ls ∅).mp ⟨fields, h⟩
  rw [FieldTable.lookup_read reads_readLine h, values_entryOf haccepts.1, if_pos hk]
  rfl

/-! ## Readiness -/

theorem judge_congr {target : WifiProfile} {get get' : Bytes → Bytes}
    (h : ∀ key ∈ knownKeys, get key = get' key) (interfaceIpv4 : List Bytes) :
    judge target get interfaceIpv4 = judge target get' interfaceIpv4 := by
  unfold judge
  rw [h (bytes "wpa_state") (by simp [knownKeys]), h (bytes "ssid") (by simp [knownKeys]),
    h (bytes "key_mgmt") (by simp [knownKeys]), h (bytes "pairwise_cipher") (by simp [knownKeys]),
    h (bytes "group_cipher") (by simp [knownKeys]), h (bytes "ip_address") (by simp [knownKeys])]

theorem judge_ready {target : WifiProfile} {get : Bytes → Bytes} {interfaceIpv4 : List Bytes} :
    (judge target get interfaceIpv4).1 = .ready ↔
      get (bytes "wpa_state") = bytes "COMPLETED" ∧
      ssidHex (get (bytes "ssid")) = some target.ssidHex ∧
      (get (bytes "key_mgmt") = bytes "WPA2-PSK" ∧ get (bytes "pairwise_cipher") = bytes "CCMP" ∧
        get (bytes "group_cipher") = bytes "CCMP") ∧
      usableIpv4 (get (bytes "ip_address")) = true ∧ get (bytes "ip_address") ∈ interfaceIpv4 := by
  have hstates : bytes "COMPLETED" ∉ pendingStates := by decide
  unfold judge
  by_cases hp : get (bytes "wpa_state") ∈ pendingStates
  · rw [if_pos hp]
    simp only [reduceCtorEq, false_iff, not_and]
    intro h
    exact absurd (h ▸ hp) hstates
  rw [if_neg hp]
  by_cases hc : get (bytes "wpa_state") = bytes "COMPLETED"
  · rw [if_neg (not_not.mpr hc)]
    simp only [hc, true_and]
    cases hs : ssidHex (get (bytes "ssid")) with
    | none => simp
    | some actual =>
      by_cases ha : actual = target.ssidHex
      · simp only [ha, ne_eq, not_true_eq_false, if_false, true_and]
        by_cases hpolicy : get (bytes "key_mgmt") = bytes "WPA2-PSK" ∧
            get (bytes "pairwise_cipher") = bytes "CCMP" ∧ get (bytes "group_cipher") = bytes "CCMP"
        · obtain ⟨h1, h2, h3⟩ := hpolicy
          by_cases hip : usableIpv4 (get (bytes "ip_address")) = true ∧
              get (bytes "ip_address") ∈ interfaceIpv4
          · simp [h1, h2, h3, hip.1, hip.2]
          · rw [if_neg (by simp [h1, h2, h3]), if_pos]
            · simp only [reduceCtorEq, false_iff, not_and]
              exact fun _ => not_and.mp hip
            · by_cases hu : usableIpv4 (get (bytes "ip_address")) = true
              · exact .inr (not_and.mp hip hu)
              · exact .inl (by simpa using hu)
        · rw [if_pos]
          · simp only [reduceCtorEq, false_iff, not_and]
            exact fun h => absurd h hpolicy
          · by_contra hnone
            simp only [not_or, not_not] at hnone
            exact hpolicy hnone
      · simp [ha]
  · rw [if_pos hc]
    simp [hc]

def Whole (status : Bytes) : Prop :=
  1 ≤ status.length ∧ status.length ≤ 8192 ∧ status.getLast? = some lf

theorem assess_eq {target : WifiProfile} {status : Bytes} (interfaceIpv4 : List Bytes)
    (ht : target.usable = true) (hs : Whole status) (hl : WellFormed (lines status)) :
    assess target status interfaceIpv4 = judge target (fieldOf (lines status)) interfaceIpv4 := by
  obtain ⟨hp, hne⟩ : target.psk.length = 32 ∧ target.ssidHex ≠ [] := by
    simpa [WifiProfile.usable] using ht
  have hstatus : status ≠ [] := List.length_pos_iff.mp hs.1
  obtain ⟨fields, hf⟩ := (readLines_iff (lines status)).mpr hl
  unfold assess
  rw [if_neg (by simp [hp, hne]), if_neg (by simp [hstatus, hs.2.2]; exact hs.2.1), hf]
  exact judge_congr (fun key hk => lookup_readLines hf hk) interfaceIpv4

theorem assess_failed {target : WifiProfile} {status : Bytes} (interfaceIpv4 : List Bytes)
    (h : ¬ (target.usable = true ∧ Whole status ∧ WellFormed (lines status))) :
    (assess target status interfaceIpv4).1 = .failed := by
  unfold assess
  by_cases ht : target.psk.length ≠ 32 ∨ target.ssidHex = []
  · rw [if_pos ht]
  rw [if_neg ht]
  by_cases hs : status = [] ∨ status.length > 8192 ∨ status.getLast? ≠ some lf
  · rw [if_pos hs]
  rw [if_neg hs]
  cases hf : (lines status).foldlM readLine ∅ with
  | error message => rfl
  | ok fields =>
    exfalso
    apply h
    simp only [not_or, not_not, Nat.not_lt] at ht hs
    refine ⟨by simp [WifiProfile.usable, ht], ⟨?_, hs.2.1, hs.2.2⟩, ?_⟩
    · exact List.length_pos_iff.mpr hs.1
    · exact (readLines_iff _).mp ⟨fields, hf⟩

/-- A profile that was made, and that may have been moved from since. -/
def Held (p : WifiProfile) : Prop :=
  p.psk = [] ∨ ∃ kdf ssid password q, WifiProfile.make kdf ssid password = .ok q ∧
    p.ssidHex = q.ssidHex ∧ p.psk = q.psk

structure TargetProfile where
  profile : WifiProfile
  held : Held profile

theorem held_ssid {target : TargetProfile} (h : target.profile.usable = true) :
    ∃ ssid, ssid ≠ [] ∧ ssid.length ≤ 32 ∧ target.profile.ssidHex = toHex ssid := by
  rcases target.held with hp | ⟨kdf, ssid, password, q, hm, hs, -⟩
  · simp [WifiProfile.usable, hp] at h
  · obtain ⟨hne, hl, hx, -, -⟩ := WifiProfile.make_ok hm
    exact ⟨ssid, hne, hl, hs.trans hx⟩

structure Ready (target : WifiProfile) (status : Bytes) (interfaceIpv4 : List Bytes) : Prop where
  unconsumed : target.usable = true
  whole : Whole status
  lines : WellFormed (lines status)
  state : lineValues (EncoderNext.lines status) (bytes "wpa_state") = [bytes "COMPLETED"]
  network : ∃ text ssid, lineValues (EncoderNext.lines status) (bytes "ssid") = [text] ∧
    Escaped text ssid ∧ target.ssidHex = toHex ssid
  security : lineValues (EncoderNext.lines status) (bytes "key_mgmt") = [bytes "WPA2-PSK"] ∧
    lineValues (EncoderNext.lines status) (bytes "pairwise_cipher") = [bytes "CCMP"] ∧
    lineValues (EncoderNext.lines status) (bytes "group_cipher") = [bytes "CCMP"]
  address : ∃ ip a b c d, lineValues (EncoderNext.lines status) (bytes "ip_address") = [ip] ∧
    ip ∈ interfaceIpv4 ∧ Quad ip a b c d ∧ a ≠ 0 ∧ a ≠ 127 ∧ a < 224 ∧ ¬ (a = 169 ∧ b = 254)

def extra (line : Bytes) : Bool :=
  !line.any isControl &&
    match splitAt? (byte '=') line with
    | some (key, _) => key ∉ knownKeys
    | none => false

theorem matters_eq (line : Bytes) : FieldTable.matters entryOf line = !extra line := by
  unfold FieldTable.matters entryOf extra
  by_cases hc : line.any isControl = true
  · simp [hc]
  · cases hs : splitAt? (byte '=') line with
    | none => simp [hc]
    | some p =>
      obtain ⟨key, value⟩ := p
      by_cases hk : key ∈ knownKeys
      · by_cases hv : value.length > 256 <;> simp [hc, hk, hv]
      · simp [hc, hk]

theorem single_iff {ls : List Bytes} {key v : Bytes} (h : (lineValues ls key).length ≤ 1)
    (hv : v ≠ []) : fieldOf ls key = v ↔ lineValues ls key = [v] := by
  unfold fieldOf
  match hl : lineValues ls key, h with
  | [], _ => simp [hv.symm]
  | [w], _ => simp

theorem ready_iff (target : TargetProfile) (status : Bytes) (interfaceIpv4 : List Bytes) :
    (assess target.profile status interfaceIpv4).1 = .ready ↔
      Ready target.profile status interfaceIpv4 := by
  by_cases h : target.profile.usable = true ∧ Whole status ∧ WellFormed (lines status)
  · obtain ⟨ht, hs, hl⟩ := h
    obtain ⟨ssid, hne, hlen, hx⟩ := held_ssid ht
    have hone (key : Bytes) (hk : key ∈ knownKeys) := (hl.once key hk).1
    have hescaped (text : Bytes) : ssidHex text = some (toHex ssid) ↔ Escaped text ssid :=
      ssidHex_iff hne hlen
    have hvalue {key v : Bytes} (h : lineValues (lines status) key = [v]) :
        fieldOf (lines status) key = v := by rw [fieldOf, h]; rfl
    rw [assess_eq interfaceIpv4 ht hs hl, judge_ready, hx, hescaped, usableIpv4_iff]
    constructor
    · rintro ⟨hstate, htext, ⟨h1, h2, h3⟩, ⟨a, b, c, d, hquad, hrange⟩, hip⟩
      have htextne : fieldOf (lines status) (bytes "ssid") ≠ [] := by
        intro hnil
        rw [hnil] at htext
        cases htext
        exact hne rfl
      have hipne : fieldOf (lines status) (bytes "ip_address") ≠ [] := by
        rw [hquad.written]
        simp [joined]
      refine ⟨ht, hs, hl, ?_, ⟨_, ssid, ?_, htext, hx⟩, ⟨?_, ?_, ?_⟩, _, a, b, c, d, ?_, hip, hquad, hrange⟩
      · exact (single_iff (hone _ (by simp [knownKeys])) (by decide)).mp hstate
      · exact (single_iff (hone _ (by simp [knownKeys])) htextne).mp rfl
      · exact (single_iff (hone _ (by simp [knownKeys])) (by decide)).mp h1
      · exact (single_iff (hone _ (by simp [knownKeys])) (by decide)).mp h2
      · exact (single_iff (hone _ (by simp [knownKeys])) (by decide)).mp h3
      · exact (single_iff (hone _ (by simp [knownKeys])) hipne).mp rfl
    · rintro ⟨-, -, -, hstate, ⟨text, ssid', htext, hesc, hx'⟩, ⟨h1, h2, h3⟩, ip, a, b, c, d, hip, hmem,
        hquad, hrange⟩
      obtain rfl := toHex_injective (hx.symm.trans hx')
      rw [hvalue hstate, hvalue htext, hvalue h1, hvalue h2, hvalue h3, hvalue hip]
      exact ⟨rfl, hesc, ⟨rfl, rfl, rfl⟩, ⟨a, b, c, d, hquad, hrange⟩, hmem⟩
  · rw [assess_failed interfaceIpv4 h]
    simp only [reduceCtorEq, false_iff]
    exact fun hr => h ⟨hr.unconsumed, hr.whole, hr.lines⟩

theorem lineValues_perm {ls ls' : List Bytes} (hl : WellFormed ls) (hl' : WellFormed ls')
    (h : (ls.filter fun l => !extra l).Perm (ls'.filter fun l => !extra l)) {key : Bytes}
    (hk : key ∈ knownKeys) : lineValues ls key = lineValues ls' key := by
  have hmatters : (ls.filter (FieldTable.matters entryOf)).Perm
      (ls'.filter (FieldTable.matters entryOf)) := by simpa only [funext matters_eq] using h
  have hperm := (FieldTable.accepts_perm hmatters).2 key
  rw [values_entryOf ((accepts_iff ls).mpr hl).1, values_entryOf ((accepts_iff ls').mpr hl').1,
    if_pos hk, if_pos hk] at hperm
  match hv : lineValues ls key, (hl.once key hk).1 with
  | [], _ =>
    rw [hv] at hperm
    exact hperm.nil_eq
  | [v], _ =>
    rw [hv] at hperm
    exact (List.perm_singleton.mp hperm.symm).symm

theorem assess_perm {target : WifiProfile} {status status' : Bytes} (interfaceIpv4 : List Bytes)
    (hs : Whole status) (hs' : Whole status')
    (h : ((lines status).filter fun l => !extra l).Perm ((lines status').filter fun l => !extra l)) :
    (assess target status interfaceIpv4).1 = (assess target status' interfaceIpv4).1 := by
  have hmatters : ((lines status).filter (FieldTable.matters entryOf)).Perm
      ((lines status').filter (FieldTable.matters entryOf)) := by
    simpa only [funext matters_eq] using h
  have hiff : WellFormed (lines status) ↔ WellFormed (lines status') := by
    rw [← accepts_iff, ← accepts_iff]
    exact (FieldTable.accepts_perm hmatters).1
  by_cases hl : target.usable = true ∧ WellFormed (lines status)
  · obtain ⟨ht, hl⟩ := hl
    rw [assess_eq interfaceIpv4 ht hs hl, assess_eq interfaceIpv4 ht hs' (hiff.mp hl)]
    refine congrArg Prod.fst (judge_congr (fun key hk => ?_) interfaceIpv4)
    rw [fieldOf, fieldOf, lineValues_perm hl (hiff.mp hl) h hk]
  · rw [assess_failed interfaceIpv4 fun hall => hl ⟨hall.1, hall.2.2⟩,
      assess_failed interfaceIpv4 fun hall => hl ⟨hall.1, hiff.mpr hall.2.2⟩]

/-- **Ready means ready**, whatever the order of the lines and whatever else is reported. -/
theorem assess_exact (target : TargetProfile) (status : Bytes) (interfaceIpv4 : List Bytes) :
    ((assess target.profile status interfaceIpv4).1 = .ready ↔
      Ready target.profile status interfaceIpv4) ∧
    ∀ status', Whole status → Whole status' →
      ((lines status).filter fun l => !extra l).Perm ((lines status').filter fun l => !extra l) →
      (assess target.profile status interfaceIpv4).1 =
        (assess target.profile status' interfaceIpv4).1 :=
  ⟨ready_iff target status interfaceIpv4, fun _ hs hs' h => assess_perm interfaceIpv4 hs hs' h⟩

/-! ## Two reports of one network -/

def sampleProfile : WifiProfile := ⟨toHex (bytes "Target"), List.replicate 32 170, none⟩

theorem held_sampleProfile : Held sampleProfile := by
  have hmake : WifiProfile.make noKdf (bytes "Target") (toHex (List.replicate 32 170)) =
      .ok sampleProfile :=
    WifiProfile.make_key noKdf (by decide) (by decide) (by decide) (by decide)
  exact .inr ⟨noKdf, bytes "Target", _, sampleProfile, hmake, rfl, rfl⟩

def reported (ls : List String) : Bytes := ls.flatMap fun l => bytes l ++ [lf]

def sampleReport : Bytes := reported ["ssid=T\\x61rget", "wpa_state=COMPLETED", "key_mgmt=WPA2-PSK",
  "pairwise_cipher=CCMP", "group_cipher=CCMP", "ip_address=10.0.0.59"]

def longerReport : Bytes := reported ["future_field=value", "wpa_state=COMPLETED", "ssid=T\\x61rget",
  "key_mgmt=WPA2-PSK", "pairwise_cipher=CCMP", "group_cipher=CCMP", "ip_address=10.0.0.59"]

theorem assess_exact_sample :
    (assess sampleProfile longerReport [bytes "10.0.0.59"]).1 = .ready := by
  have hsample : (assess sampleProfile sampleReport [bytes "10.0.0.59"]).1 = .ready := by
    decide +kernel
  have hsame := (assess_exact ⟨sampleProfile, held_sampleProfile⟩ sampleReport
    [bytes "10.0.0.59"]).2 longerReport (by unfold Whole; decide +kernel)
    (by unfold Whole; decide +kernel) (by decide +kernel)
  exact hsame.symm.trans hsample

end WifiLinkProbe

end EncoderNext
