import EncoderNext.DraftCheck
import EncoderNext.Replace

/-!
# The preparation of the migration

`prepare_wifi_migration.py` takes one saved network out of a loaded Netplan file and writes the
managed file for it. It filters and renders with code of its own, over texts instead of bytes; a
text with a surrogate has no encoding and is refused, so texts are lists of characters.
-/

namespace EncoderNext

open Replace NetplanPreflight

namespace Preparation

/-! ## The loaded file -/

/-- What the YAML library makes of a node; a key that is no text has no name here. -/
inductive Value where
  | text (s : List Char)
  | bool (b : Bool)
  | int (n : Int)
  | mapping (entries : List (Option (List Char) × Value))
  | other

abbrev Dict := List (Option (List Char) × Value)

def lookup (d : Dict) (key : String) : Option Value :=
  (d.find? fun e => e.1 = some key.toList).map (·.2)

def within (d : Dict) (keys : List String) : Bool :=
  d.all fun e => keys.any fun key => some key.toList = e.1

def exactly (d : Dict) (keys : List String) : Bool :=
  within d keys && keys.all fun key => (lookup d key).isSome

def isText (v : Option Value) (s : String) : Bool :=
  match v with
  | some (.text t) => t = s.toList
  | _ => false

def isDefault (v : Option Value) (s : String) : Bool := v.isNone || isText v s

inductive Failure where
  | refused (message : String)
  | fault
  deriving DecidableEq

def require (condition : Bool) (message : String) : Except Failure Unit :=
  if condition then .ok () else .error (.refused message)

/-- A value of another kind is refused too, under one message or another. -/
def dict : Option Value → Except Failure Dict
  | some (.mapping d) => .ok d
  | _ => .error .fault

def validateNetworkScope (document : Value) : Except Failure Dict := do
  match document with
  | .mapping d =>
    require (exactly d ["network"]) "Unexpected top-level scope in Wi-Fi file"
    match lookup d "network" with
    | some (.mapping network) =>
      require (within network ["version", "renderer", "wifis"] && (lookup network "wifis").isSome)
        "Unexpected scope in Wi-Fi file"
      match lookup network "version" with
      | none => return network
      | some (.int 2) => return network
      | some _ => throw (.refused "Unsupported explicit Netplan version")
    | _ => throw (.refused "Unexpected scope in Wi-Fi file")
  | _ => throw (.refused "Unexpected top-level scope in Wi-Fi file")

structure Saved where
  ssid : List Char
  password : List Char
  dhcp6 : Option Bool

def ssidPoint (c : Char) : Bool :=
  c.toNat ≥ 32 && !(0x7f ≤ c.toNat && c.toNat ≤ 0x9f) && !(c.toNat == 0x2028 || c.toNat == 0x2029) &&
    !(0xfdd0 ≤ c.toNat && c.toNat ≤ 0xfdef) &&
    !(c.toNat &&& 0xffff == 0xfffe || c.toNat &&& 0xffff == 0xffff)

def savedDhcp6 (wifi : Dict) : Except Failure (Option Bool) :=
  match lookup wifi "dhcp6" with
  | none => .ok none
  | some (.bool b) => .ok (some b)
  | some _ => .error (.refused "Unsupported DHCPv6 setting")

def savedPoint (dhcp6 : Option Bool) : Dict → Except Failure Saved
  | [(some ssid, point)] => do
    require (1 ≤ (utf8 ssid).length && (utf8 ssid).length ≤ 32) "Unsupported SSID"
    require (ssid.all ssidPoint) "Unsupported SSID characters"
    let point ← dict (some point)
    require (exactly point ["password"]) "Non-basic authentication requires review"
    match lookup point "password" with
    | some (.text password) => return ⟨ssid, password, dhcp6⟩
    | _ => throw (.refused "Unsupported password type")
  | [(none, _)] => .error (.refused "Unsupported SSID")
  | _ => .error (.refused "Expected one saved network")

def saved (document : Value) : Except Failure Saved := do
  let network ← validateNetworkScope document
  require (isDefault (lookup network "renderer") "networkd") "Unsupported renderer"
  let wifis ← dict (lookup network "wifis")
  require (exactly wifis ["wlan0"]) "More than one Wi-Fi interface"
  let wifi ← dict (lookup wifis "wlan0")
  require (within wifi ["dhcp4", "dhcp6", "renderer", "access-points"] &&
    (match lookup wifi "dhcp4" with | some (.bool b) => b | _ => false))
    "Extra wlan0 settings require review; nothing changed"
  let dhcp6 ← savedDhcp6 wifi
  require (isDefault (lookup wifi "renderer") "networkd") "Unsupported interface renderer"
  savedPoint dhcp6 (← dict (lookup wifi "access-points"))

/-! ## The key and the link -/

def hexChar (c : Char) : Bool :=
  ('0' ≤ c && c ≤ '9') || ('a' ≤ c && c ≤ 'f') || ('A' ≤ c && c ≤ 'F')

def isRawKey (password : List Char) : Bool := password.length == 64 && password.all hexChar

def derivedKey (kdf : Pbkdf2) (s : Saved) : Except Failure (List Char) :=
  if isRawKey s.password then .ok (s.password.map Char.toLower)
  else do
    require (8 ≤ s.password.length && s.password.length ≤ 63 &&
      s.password.all fun c => 32 ≤ c.toNat && c.toNat ≤ 126) "Unsupported passphrase encoding"
    match kdf (s.password.map Char.toUInt8) (utf8 s.ssid) with
    | none => throw .fault
    | some key => return ascii (toHex key.toList)

abbrev Status := String → Option (List Char)

def checkLink (status : Status) (ssid : List Char) : Except Failure Unit := do
  require (status "wpa_state" = some "COMPLETED".toList && status "key_mgmt" = some "WPA2-PSK".toList &&
    status "pairwise_cipher" = some "CCMP".toList && status "group_cipher" = some "CCMP".toList)
    "Current link is not confirmed WPA2-PSK/CCMP; nothing changed"
  require (status "ssid" = some ssid) "Saved and connected network differ; review required"

/-! ## The draft -/

@[irreducible] def front : List Char :=
  ("# encoder managed wifi v1\n" ++
  "# Draft only: requires verified WPA2 enforcement before installation.\n" ++
  "network:\n  version: 2\n  wifis:\n    wlan0:\n" ++
  "      renderer: networkd\n      dhcp4: true\n      access-points:\n        ").toList

@[irreducible] def auth : List Char :=
  ":\n          auth:\n            key-management: psk\n            password: \"".toList

@[irreducible] def points : List Char := "      access-points:".toList

def quoted (ssid : List Char) : List Char :=
  '"' :: replace ['"'] ['\\', '"'] (replace ['\\'] ['\\', '\\'] ssid) ++ ['"']

def dhcp6Points (b : Bool) : List Char :=
  "      dhcp6: ".toList ++ (if b then "true" else "false").toList ++ "\n      access-points:".toList

def draftText (ssid psk : List Char) (dhcp6 : Option Bool) : List Char :=
  let draft := front ++ quoted ssid ++ auth ++ psk ++ ['"', '\n']
  match dhcp6 with
  | none => draft
  | some b => replace points (dhcp6Points b) draft

def prepare (kdf : Pbkdf2) (document : Value) (status : Status) :
    Except Failure (Saved × List Char) := do
  let s ← saved document
  let psk ← derivedKey kdf s
  checkLink status s.ssid
  return (s, draftText s.ssid psk s.dhcp6)

/-! ## What was accepted -/

theorem require_ok {b : Bool} {message : String} (h : require b message = .ok ()) : b = true := by
  cases b with
  | true => rfl
  | false => cases h

theorem ok_of_bind {α β : Type} {x : Except Failure α} {f : α → Except Failure β} {b : β}
    (h : x >>= f = .ok b) : ∃ a, x = .ok a ∧ f a = .ok b := by
  cases x with
  | ok a => exact ⟨a, rfl, h⟩
  | error e => cases h

/-- The filter excludes the code points that the profile's does. -/
theorem ssidPoint_iff (c : Char) : ssidPoint c = true ↔ TextChar c := by
  have hmod : c.toNat &&& 0xffff = c.toNat % 0x10000 := Nat.and_two_pow_sub_one_eq_mod c.toNat 16
  have hlt := Nat.mod_lt c.toNat (by decide : 0x10000 > 0)
  simp only [ssidPoint, TextChar, hmod, Bool.and_eq_true, Bool.not_eq_true', Bool.and_eq_false_iff,
    Bool.or_eq_false_iff, decide_eq_true_eq, decide_eq_false_iff_not, beq_eq_false_iff_ne, ne_eq,
    ge_iff_le]
  omega

structure Named (ssid : List Char) : Prop where
  nonempty : utf8 ssid ≠ []
  short : (utf8 ssid).length ≤ 32
  text : WifiProfile.validTextSsid (utf8 ssid) = true

theorem savedPoint_named {dhcp6 : Option Bool} {points : Dict} {s : Saved}
    (h : savedPoint dhcp6 points = .ok s) : Named s.ssid := by
  unfold savedPoint at h
  split at h
  · rename_i ssid point
    obtain ⟨_, hlength, h⟩ := ok_of_bind h
    obtain ⟨_, hpoints, h⟩ := ok_of_bind h
    obtain ⟨point, -, h⟩ := ok_of_bind h
    obtain ⟨_, -, h⟩ := ok_of_bind h
    have hlong := require_ok hlength
    rw [Bool.and_eq_true, decide_eq_true_eq, decide_eq_true_eq] at hlong
    have hchars := List.all_eq_true.mp (require_ok hpoints)
    have hnamed : Named ssid := by
      refine ⟨List.length_pos_iff.mp hlong.1, hlong.2, ?_⟩
      exact (WifiProfile.loop_iff _ _ le_rfl).mpr
        ⟨ssid, rfl, fun c hc => (ssidPoint_iff c).mp (hchars c hc)⟩
    split at h
    · cases h
      exact hnamed
    · cases h
  · cases h
  · cases h

theorem saved_named {document : Value} {s : Saved} (h : saved document = .ok s) : Named s.ssid := by
  unfold saved at h
  obtain ⟨network, -, h⟩ := ok_of_bind h
  obtain ⟨_, -, h⟩ := ok_of_bind h
  obtain ⟨wifis, -, h⟩ := ok_of_bind h
  obtain ⟨_, -, h⟩ := ok_of_bind h
  obtain ⟨wifi, -, h⟩ := ok_of_bind h
  obtain ⟨_, -, h⟩ := ok_of_bind h
  obtain ⟨dhcp6, -, h⟩ := ok_of_bind h
  obtain ⟨_, -, h⟩ := ok_of_bind h
  obtain ⟨points, -, h⟩ := ok_of_bind h
  exact savedPoint_named h

theorem prepare_ok {kdf : Pbkdf2} {document : Value} {status : Status} {s : Saved} {draft : List Char}
    (h : prepare kdf document status = .ok (s, draft)) :
    Named s.ssid ∧ ∃ psk, derivedKey kdf s = .ok psk ∧ draft = draftText s.ssid psk s.dhcp6 := by
  unfold prepare at h
  obtain ⟨s', hsaved, h⟩ := ok_of_bind h
  obtain ⟨psk, hkey, h⟩ := ok_of_bind h
  obtain ⟨_, -, h⟩ := ok_of_bind h
  cases h
  exact ⟨saved_named hsaved, psk, hkey, rfl⟩

/-! ## The same key -/

theorem hexChar_small {c : Char} (h : hexChar c = true) : c.toNat < 128 := by
  simp only [hexChar, Bool.or_eq_true, Bool.and_eq_true, decide_eq_true_eq, Char.le_def,
    UInt32.le_iff_toNat_le] at h
  change c.val.toNat < 128
  simp only [Char.reduceVal, UInt32.reduceToNat] at h
  omega

theorem hexChar_spec {c : Char} (h : hexChar c = true) : ∃ v : UInt8, v.toNat < 16 ∧
    WifiProfile.hexValue c.toUInt8 = some v ∧ c.toLower = Char.ofNat (hexDigit v).toNat := by
  have hall : ∀ n : Fin 128, hexChar (Char.ofNat n) = true →
      (WifiProfile.hexValue (Char.ofNat n).toUInt8).any fun v =>
        v.toNat < 16 && (Char.ofNat n).toLower == Char.ofNat (hexDigit v).toNat := by decide
  have hc := hall ⟨c.toNat, hexChar_small h⟩
  simp only [Char.ofNat_toNat] at hc
  obtain ⟨v, hv, hspec⟩ := (Option.any_eq_true _ _).mp (hc h)
  rw [Bool.and_eq_true, decide_eq_true_eq, beq_iff_eq] at hspec
  exact ⟨v, hspec.1, hv, hspec.2⟩

theorem rawKey_digits : ∀ {digits : List Char}, digits.all hexChar = true → digits.length % 2 = 0 →
    ∃ key, WifiProfile.rawKey (digits.map Char.toUInt8) = some key ∧
      digits.map Char.toLower = ascii (toHex key)
  | [], _, _ => ⟨[], rfl, rfl⟩
  | [_], _, h => by cases h
  | hi :: lo :: rest, hall, hlen => by
    simp only [List.all_cons, Bool.and_eq_true] at hall
    obtain ⟨hhi, hlo, hrest⟩ := hall
    have heven : rest.length % 2 = 0 := by
      simp only [List.length_cons] at hlen
      omega
    obtain ⟨key, hkey, hlower⟩ := rawKey_digits hrest heven
    obtain ⟨v, hv, hvalue, hvlower⟩ := hexChar_spec hhi
    obtain ⟨u, hu, huvalue, hulower⟩ := hexChar_spec hlo
    have hjoin := halves_join ⟨v.toNat, hv⟩ ⟨u.toNat, hu⟩
    simp only [UInt8.ofNat_toNat] at hjoin
    refine ⟨(v <<< 4 ||| u) :: key, ?_, ?_⟩
    · simp [WifiProfile.rawKey, hvalue, huvalue, hkey]
    · simp [toHex, ascii, hjoin.1, hjoin.2, hvlower, hulower, hlower]

theorem utf8_password {password : List Char} (h : ∀ c ∈ password, c.toNat < 0x80) :
    utf8 password = password.map Char.toUInt8 ∧ (utf8 password).length = password.length := by
  have hplain := utf8_plain h
  exact ⟨hplain, by rw [hplain, List.length_map]⟩

theorem derivedKey_made {kdf : Pbkdf2} {s : Saved} {psk : List Char} (hnamed : Named s.ssid)
    (h : derivedKey kdf s = .ok psk) : ∃ key : Bytes,
      WifiProfile.make kdf (utf8 s.ssid) (utf8 s.password) = .ok ⟨toHex (utf8 s.ssid), key, none⟩ ∧
      key.length = 32 ∧ psk = ascii (toHex key) := by
  have hssid : ¬(utf8 s.ssid = [] ∨ (utf8 s.ssid).length > 32) := by
    rintro (he | he)
    · exact hnamed.nonempty he
    · exact absurd hnamed.short (Nat.not_le.mpr he)
  unfold derivedKey at h
  unfold WifiProfile.make
  rw [if_neg hssid, if_neg (not_not.mpr hnamed.text)]
  split at h
  · rename_i hraw
    rw [isRawKey, Bool.and_eq_true, beq_iff_eq] at hraw
    obtain ⟨hplain, hlength⟩ := utf8_password fun c hc => hexChar_small (List.all_eq_true.mp hraw.2 c hc)
    obtain ⟨key, hkey, hlower⟩ := rawKey_digits hraw.2 (by omega)
    have hsize := WifiProfile.length_rawKey hkey
    rw [List.length_map] at hsize
    rw [if_pos (hlength.trans hraw.1), hplain, hkey]
    cases h
    exact ⟨key, rfl, by omega, hlower⟩
  · obtain ⟨_, hrequire, h⟩ := ok_of_bind h
    have hpassphrase := require_ok hrequire
    simp only [Bool.and_eq_true, decide_eq_true_eq, List.all_eq_true] at hpassphrase
    obtain ⟨⟨hlong, hshort⟩, hprintable⟩ := hpassphrase
    obtain ⟨hplain, hlength⟩ := utf8_password fun c hc => Nat.lt_of_le_of_lt (hprintable c hc).2 (by decide)
    -- characters and bytes of printable ASCII agree
    have hchars : ((utf8 s.password).any fun c => c < 32 || c > 126) = false := by
      rw [List.any_eq_false, hplain]
      intro b hb
      obtain ⟨c, hc, rfl⟩ := List.mem_map.mp hb
      have hrange := hprintable c hc
      have hnat : c.toUInt8.toNat = c.toNat := by
        show (UInt8.ofNat c.toNat).toNat = c.toNat
        rw [UInt8.toNat_ofNat', Nat.mod_eq_of_lt (by omega)]
      simp only [Bool.or_eq_true, decide_eq_true_eq, not_or, UInt8.lt_iff_toNat_lt, gt_iff_lt, hnat]
      simp only [UInt8.reduceToNat]
      omega
    rw [if_neg (by omega), if_neg (by omega), if_neg (by rw [hchars]; decide), hplain]
    cases hkdf : kdf (s.password.map Char.toUInt8) (utf8 s.ssid) with
    | none =>
      rw [hkdf] at h
      cases h
    | some key =>
      rw [hkdf] at h
      cases h
      exact ⟨key.toList, rfl, Vector.length_toList, rfl⟩

/-! ## The same text -/

@[irreducible] def head : List Char :=
  ("# encoder managed wifi v1\n" ++
  "# Draft only: requires verified WPA2 enforcement before installation.\n" ++
  "network:\n  version: 2\n  wifis:\n    wlan0:\n" ++
  "      renderer: networkd\n      dhcp4: true").toList

def indent : List Char := List.replicate 8 ' '

@[irreducible] def authHead : List Char :=
  ":\n          auth:\n            key-management: psk\n            password: ".toList

theorem front_cut : front = head ++ '\n' :: (points ++ '\n' :: indent) := by
  unfold front head points indent
  simp only [String.toList_append]
  repeat rw [String.toList_ofList]
  rfl

theorem auth_cut : auth = authHead ++ ['"'] := by
  unfold auth authHead
  repeat rw [String.toList_ofList]
  rfl

def dhcp6Line : Option Bool → List Char
  | none => []
  | some b => "      dhcp6: ".toList ++ (if b then "true" else "false").toList ++ ['\n']

theorem dhcp6Points_cut (b : Bool) : dhcp6Points b = dhcp6Line (some b) ++ points := by
  unfold dhcp6Points dhcp6Line points
  cases b <;> rfl

def dueText (ssid psk : List Char) (dhcp6 : Option Bool) : List Char :=
  head ++ '\n' :: (dhcp6Line dhcp6 ++ points ++ '\n' :: (indent ++ '"' ::
    (ssid.flatMap Yaml.escape ++ '"' :: (authHead ++ '"' :: (psk ++ ['"', '\n'])))))

theorem quoted_eq (ssid : List Char) : quoted ssid = '"' :: ssid.flatMap Yaml.escape ++ ['"'] := by
  unfold quoted
  rw [replace_single, replace_single, List.flatMap_assoc]
  have hescape : (fun c : Char => (if c = '\\' then ['\\', '\\'] else [c]).flatMap fun d =>
      if d = '"' then ['\\', '"'] else [d]) = Yaml.escape := by
    funext c
    unfold Yaml.escape
    by_cases hslash : c = '\\'
    · subst hslash
      rfl
    · by_cases hquote : c = '"' <;> simp [hslash, hquote]
  rw [hescape]

theorem head_bytes : WifiDraft.yamlHead = utf8 (head ++ ['\n']) := by
  unfold WifiDraft.yamlHead head bytes
  simp only [String.toList_append]
  repeat rw [String.toList_ofList]
  rw [utf8_literal (by decide)]
  exact congrArg _ rfl

theorem points_bytes : WifiDraft.yamlPoints = utf8 (points ++ '\n' :: indent) := by
  unfold WifiDraft.yamlPoints points indent bytes
  repeat rw [String.toList_ofList]
  rw [utf8_literal (by decide)]
  exact congrArg _ rfl

theorem dhcp6Line_bytes (dhcp6 : Option Bool) : WifiDraft.dhcp6Line dhcp6 = utf8 (dhcp6Line dhcp6) := by
  obtain _ | _ | _ := dhcp6 <;> decide

theorem auth_bytes : WifiDraft.yamlAuth = utf8 (authHead ++ ['"']) := by
  rw [← auth_cut]
  unfold WifiDraft.yamlAuth auth bytes
  rw [utf8_literal (by decide)]

theorem due_bytes (ssid : List Char) (key : Bytes) (dhcp6 : Option Bool) :
    utf8 (dueText ssid (ascii (toHex key)) dhcp6) =
      (WifiDraft.draftOf dhcp6 (utf8 ssid) key).netplanYaml := by
  have hquote (s : Bytes) : byte '"' :: s = utf8 ['"'] ++ s := rfl
  unfold WifiDraft.draftOf WifiDraft.prefixFor
  rw [head_bytes, points_bytes, dhcp6Line_bytes, auth_bytes, end_text, escape_utf8, ← toHex_ascii key]
  simp only [List.cons_append, hquote, ← utf8_append]
  unfold dueText
  simp [toHex_ascii]

/-! ## Where the line is put twice -/

theorem quote_not_points : '"' ∉ points ∧ '\\' ∉ points ∧ '\n' ∉ points ∧ points ≠ [] := by
  unfold points
  repeat rw [String.toList_ofList]
  decide

theorem points_escape : ∀ ssid x : List Char,
    points <:+: x ++ ssid.flatMap Yaml.escape ↔ points <:+: x ++ ssid
  | [], x => by simp
  | c :: ssid, x => by
    obtain ⟨hquote, hslash, -, hne⟩ := quote_not_points
    by_cases hc : c = '\\' ∨ c = '"'
    · have hpoints : c ∉ points := by
        obtain rfl | rfl := hc
        · exact hslash
        · exact hquote
      have hempty : ¬points <:+: [] := fun h => hne (List.infix_nil.mp h)
      have ih := points_escape ssid []
      have hescape : Yaml.escape c = ['\\', c] := if_pos hc
      rw [List.flatMap_cons, hescape]
      rw [List.nil_append, List.nil_append] at ih
      show points <:+: x ++ '\\' :: ([] ++ c :: ssid.flatMap Yaml.escape) ↔ _
      rw [infix_cut hslash, infix_cut hpoints, infix_cut hpoints, ih]
      tauto
    · have hescape : Yaml.escape c = [c] := if_neg hc
      have ih := points_escape ssid (x ++ [c])
      rw [List.flatMap_cons, hescape]
      simpa using ih

theorem not_points_of_space {s : List Char} (h : ' ' ∉ s) : ¬points <:+: s := by
  intro hin
  have hspace : ' ' ∈ points := by
    unfold points
    repeat rw [String.toList_ofList]
    decide
  exact h (hin.subset hspace)

theorem key_spaceless (key : Bytes) : ' ' ∉ ascii (toHex key) := fun h =>
  absurd (List.all_eq_true.mp (keyChars_toHex key) _ h) (by decide)

theorem fixed_not_points : ¬points <:+: head ∧ ¬points <:+: indent ∧ ¬points <:+: authHead := by
  unfold points head indent authHead
  simp only [String.toList_append]
  repeat rw [String.toList_ofList]
  decide +kernel

theorem plain_draft (ssid psk : List Char) : front ++ quoted ssid ++ auth ++ psk ++ ['"', '\n'] =
    dueText ssid psk none := by
  have hdue : dueText ssid psk none = head ++ '\n' :: (points ++ '\n' :: (indent ++ '"' ::
    (ssid.flatMap Yaml.escape ++ '"' :: (authHead ++ '"' :: (psk ++ ['"', '\n']))))) := rfl
  rw [hdue, front_cut, quoted_eq, auth_cut]
  simp only [List.append_assoc, List.cons_append, List.nil_append]

theorem draftText_some (ssid : List Char) (key : Bytes) (b : Bool) :
    draftText ssid (ascii (toHex key)) (some b) =
      head ++ '\n' :: (dhcp6Points b ++ '\n' :: (indent ++ '"' ::
        (replace points (dhcp6Points b) (ssid.flatMap Yaml.escape) ++
          '"' :: (authHead ++ '"' :: (ascii (toHex key) ++ ['"', '\n']))))) := by
  obtain ⟨hquote, -, hline, hne⟩ := quote_not_points
  obtain ⟨hhead, hindent, hauth⟩ := fixed_not_points
  have hkey := not_points_of_space (key_spaceless key)
  have hend : ¬points <:+: ['\n'] := not_points_of_space (by decide)
  have hdue : dueText ssid (ascii (toHex key)) none = head ++ '\n' :: (points ++ '\n' ::
    (indent ++ '"' :: (ssid.flatMap Yaml.escape ++
      '"' :: (authHead ++ '"' :: (ascii (toHex key) ++ '"' :: ['\n']))))) := rfl
  show replace points (dhcp6Points b) (front ++ quoted ssid ++ auth ++ ascii (toHex key) ++ ['"', '\n']) = _
  rw [plain_draft, hdue]
  generalize dhcp6Points b = new
  rw [replace_part new hne hline hhead, replace_match new hne, replace_cons new hne hline,
    replace_part new hne hquote hindent, replace_cut new hne hquote, replace_part new hne hquote hauth,
    replace_part new hne hquote hkey, replace_of_not_infix new hend]

/-- **The text is due unless the line is put into the SSID.** -/
theorem draftText_due_iff (ssid : List Char) (key : Bytes) (dhcp6 : Option Bool) :
    draftText ssid (ascii (toHex key)) dhcp6 = dueText ssid (ascii (toHex key)) dhcp6 ↔
      dhcp6 = none ∨ ¬points <:+: ssid := by
  cases dhcp6 with
  | none => exact ⟨fun _ => .inl rfl, fun _ => plain_draft ssid _⟩
  | some b =>
    have hlonger : points.length < (dhcp6Points b).length := by
      unfold points dhcp6Points
      repeat rw [String.toList_ofList]
      cases b <;> decide
    have hin := points_escape ssid []
    rw [List.nil_append, List.nil_append] at hin
    have hself := replace_eq_self_iff quote_not_points.2.2.2 hlonger (s := ssid.flatMap Yaml.escape)
    rw [draftText_some, dueText, ← dhcp6Points_cut]
    simp only [List.append_cancel_left_eq, List.cons.injEq, true_and, List.append_cancel_right_eq, hself, hin,
      reduceCtorEq, false_or]

/-- The text is the Netplan draft of the profile made from what was accepted, and is read as it. -/
def Canonical (kdf : Pbkdf2) (s : Saved) (draft : List Char) : Prop :=
  ∃ p d, WifiProfile.make kdf (utf8 s.ssid) (utf8 s.password) = .ok p ∧
    WifiDraft.make { p with dhcp6 := s.dhcp6 } = .ok d ∧ utf8 draft = d.netplanYaml ∧
    WifiDraft.read kdf (utf8 draft) = .ok { p with dhcp6 := s.dhcp6 }

theorem canonical_iff {kdf : Pbkdf2} {s : Saved} {psk : List Char} (hnamed : Named s.ssid)
    (hkey : derivedKey kdf s = .ok psk) :
    Canonical kdf s (draftText s.ssid psk s.dhcp6) ↔ s.dhcp6 = none ∨ ¬points <:+: s.ssid := by
  obtain ⟨key, hmade, hlength, rfl⟩ := derivedKey_made hnamed hkey
  have husable := WifiDraft.make_usable s.dhcp6 hnamed.nonempty hnamed.short hlength
  rw [← draftText_due_iff s.ssid key s.dhcp6]
  constructor
  · rintro ⟨p, d, hp, hd, htext, -⟩
    obtain rfl := Except.ok.inj (hmade.symm.trans hp)
    obtain rfl := Except.ok.inj (husable.symm.trans hd)
    exact utf8_injective (htext.trans (due_bytes s.ssid key s.dhcp6).symm)
  · intro hdue
    have htext := due_bytes s.ssid key s.dhcp6
    rw [← hdue] at htext
    refine ⟨_, _, hmade, husable, htext, ?_⟩
    rw [htext]
    exact WifiDraft.read_draftOf hnamed.nonempty hnamed.short hnamed.text hlength kdf s.dhcp6

/-- **The written draft is canonical exactly where the line is put in once**: without a DHCPv6
setting, or with an SSID in which the line that it goes before does not occur. -/
theorem prepared_canonical_iff {kdf : Pbkdf2} {document : Value} {status : Status} {s : Saved}
    {draft : List Char} (h : prepare kdf document status = .ok (s, draft)) :
    Canonical kdf s draft ↔ s.dhcp6 = none ∨ ¬points <:+: s.ssid := by
  obtain ⟨hnamed, psk, hkey, rfl⟩ := prepare_ok h
  exact canonical_iff hnamed hkey

/-! ### Saved networks -/

def savedText (ssid : List Char) : Saved := ⟨ssid, List.replicate 64 '0', some true⟩

def entry (key : String) (value : Value) : Option (List Char) × Value := (some key.toList, value)

def savedDocument (ssid : List Char) : Value :=
  .mapping [entry "network" (.mapping [entry "wifis" (.mapping [entry "wlan0" (.mapping
    [entry "dhcp4" (.bool true), entry "dhcp6" (.bool true), entry "access-points" (.mapping
      [(some ssid, .mapping [entry "password" (.text (List.replicate 64 '0'))])])])])])]

def savedStatus (ssid : List Char) : Status := fun key =>
  if key = "wpa_state" then some "COMPLETED".toList
  else if key = "key_mgmt" then some "WPA2-PSK".toList
  else if key = "ssid" then some ssid
  else some "CCMP".toList

theorem prepare_home : ∃ draft, prepare noKdf (savedDocument "Home 5".toList)
    (savedStatus "Home 5".toList) = .ok (savedText "Home 5".toList, draft) :=
  ⟨_, rfl⟩

theorem prepared_canonical_home : ∃ draft,
    prepare noKdf (savedDocument "Home 5".toList) (savedStatus "Home 5".toList) =
      .ok (savedText "Home 5".toList, draft) ∧
    Canonical noKdf (savedText "Home 5".toList) draft := by
  obtain ⟨draft, hdraft⟩ := prepare_home
  have hline : ¬points <:+: "Home 5".toList := by
    unfold points
    repeat rw [String.toList_ofList]
    decide
  exact ⟨draft, hdraft, (prepared_canonical_iff hdraft).mpr (.inr hline)⟩

theorem prepared_not_canonical :
    ¬∀ (kdf : Pbkdf2) (document : Value) (status : Status) (s : Saved) (draft : List Char),
      prepare kdf document status = .ok (s, draft) → Canonical kdf s draft := by
  intro h
  have hprepared : ∃ draft, prepare noKdf (savedDocument "      access-points:".toList)
      (savedStatus "      access-points:".toList) =
        .ok (savedText "      access-points:".toList, draft) := ⟨_, rfl⟩
  obtain ⟨draft, hdraft⟩ := hprepared
  have hcanonical := h _ _ _ _ _ hdraft
  obtain ⟨hnamed, psk, hkey, rfl⟩ := prepare_ok hdraft
  have hpoints : points = "      access-points:".toList := by unfold points; rfl
  obtain hnone | hin := (canonical_iff hnamed hkey).mp hcanonical
  · cases hnone
  · exact hin (hpoints ▸ List.infix_rfl)

end Preparation

end EncoderNext
