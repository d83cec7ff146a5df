import EncoderNext.NetplanPreflight
import EncoderNext.WifiDraft
import Mathlib.Data.Nat.Bitwise

/-!
# Drafts under the independent check

A draft is the text of one tree, whatever characters its SSID holds. The check accepts
all of these trees but one, where the SSID is spelled like a merge key.
-/

namespace EncoderNext

namespace NetplanPreflight

open Yaml

/-! ## The tree of a draft -/

def plain (s : String) : Scalar := ⟨s.toList, false⟩

def field (key value : String) (rest : Entries) : Entries := .cons (plain key) (.scalar (plain value)) rest

def under (key : Scalar) (entries rest : Entries) : Entries := .cons key (.mapping entries) rest

def dhcp6Entry (dhcp6 : Option Bool) (rest : Entries) : Entries :=
  match dhcp6 with
  | none => rest
  | some true => field "dhcp6" "true" rest
  | some false => field "dhcp6" "false" rest

def accessPoints (name key : List Char) : Entries :=
  under ⟨name, true⟩
    (under (plain "auth")
      (field "key-management" "psk" (.cons (plain "password") (.scalar ⟨key, true⟩) .nil)) .nil) .nil

def wlan0Settings (dhcp6 : Option Bool) (name key : List Char) : Entries :=
  field "renderer" "networkd" (field "dhcp4" "true" (dhcp6Entry dhcp6
    (under (plain "access-points") (accessPoints name key) .nil)))

def draftEntries (dhcp6 : Option Bool) (name key : List Char) : Entries :=
  under (plain "network")
    (field "version" "2" (under (plain "wifis")
      (under (plain "wlan0") (wlan0Settings dhcp6 name key) .nil) .nil)) .nil

def ascii (b : Bytes) : List Char := b.map fun c => Char.ofNat c.toNat

def draftComments : List (List Char) := ["# encoder managed wifi v1".toList,
  "# Draft only: requires verified WPA2 enforcement before installation.".toList]

/-! ## The text of a draft -/

theorem utf8_append (s t : List Char) : utf8 (s ++ t) = utf8 s ++ utf8 t := List.flatMap_append

theorem utf8_plain {s : List Char} (h : ∀ c ∈ s, c.toNat < 0x80) : utf8 s = s.map Char.toUInt8 := by
  rw [utf8, List.map_eq_flatMap]
  exact List.flatMap_congr fun c hc => WifiProfile.encode_one (h c hc)

-- A statement about all characters may be decided by going through every one there is.
theorem utf8_literal {s : List Char} (h : (s.all fun c => c.toNat < 0x80) = true) :
    utf8 s = s.map Char.toUInt8 :=
  utf8_plain fun c hc => of_decide_eq_true (List.all_eq_true.mp h c hc)

theorem toNat_ascii (c : UInt8) : (Char.ofNat c.toNat).toNat = c.toNat := by
  have hvalid : c.toNat.isValidChar := .inl (lt_trans c.toNat_lt (by decide))
  unfold Char.ofNat
  rw [dif_pos hvalid]
  rfl

theorem utf8_ascii {b : Bytes} (h : ∀ c ∈ b, c < 0x80) : utf8 (ascii b) = b := by
  have hplain : ∀ d ∈ ascii b, d.toNat < 0x80 := by
    intro d hd
    obtain ⟨c, hc, rfl⟩ := List.mem_map.mp hd
    rw [toNat_ascii]
    exact UInt8.lt_iff_toNat_lt.mp (h c hc)
  have hsame (c : UInt8) : (Char.ofNat c.toNat).toUInt8 = c := by
    show UInt8.ofNat (Char.ofNat c.toNat).toNat = c
    rw [toNat_ascii, UInt8.ofNat_toNat]
  rw [utf8_plain hplain, ascii, List.map_map]
  exact List.map_id'' hsame b

theorem encode_high {c : Char} (h : 0x80 ≤ c.toNat) : ∀ b ∈ String.utf8EncodeChar c, 0x80 ≤ b.toNat := by
  have hlt := WifiProfile.toNat_lt c
  intro b hb
  by_cases h₂ : c.toNat < 0x800
  · rw [WifiProfile.encode_two h h₂] at hb
    simp only [List.mem_cons, List.not_mem_nil, or_false] at hb
    rcases hb with rfl | rfl <;> rw [UInt8.toNat_ofNat'] <;> omega
  by_cases h₃ : c.toNat < 0x10000
  · rw [WifiProfile.encode_three (by omega) h₃] at hb
    simp only [List.mem_cons, List.not_mem_nil, or_false] at hb
    rcases hb with rfl | rfl | rfl <;> rw [UInt8.toNat_ofNat'] <;> omega
  · rw [WifiProfile.encode_four (by omega)] at hb
    simp only [List.mem_cons, List.not_mem_nil, or_false] at hb
    rcases hb with rfl | rfl | rfl | rfl <;> rw [UInt8.toNat_ofNat'] <;> omega

theorem escaped_plain {c : Char} (h : c.toNat < 0x80) (hc : ¬(c = '\\' ∨ c = '"')) :
    WifiDraft.escaped (UInt8.ofNat c.toNat) = false := by
  have hsame (d : Char) (hd : d.toNat < 0x80) (hcd : UInt8.ofNat c.toNat = d.toUInt8) : c = d := by
    rw [WifiProfile.ofNat_eq_iff (by omega)] at hcd
    have hnat : d.toUInt8.toNat = d.toNat := by
      show (UInt8.ofNat d.toNat).toNat = d.toNat
      rw [UInt8.toNat_ofNat', Nat.mod_eq_of_lt (by omega)]
    exact Char.toNat_inj.mp (hcd.trans hnat)
  simp only [WifiDraft.escaped, Bool.or_eq_false_iff, beq_eq_false_iff_ne]
  exact ⟨fun hb => hc (.inl (hsame _ (by decide) hb)), fun hb => hc (.inr (hsame _ (by decide) hb))⟩

/-- Only a backslash and a quote have bytes that are escaped. -/
theorem escape_encode (c : Char) : (String.utf8EncodeChar c).flatMap
    (fun b => if WifiDraft.escaped b then [byte '\\', b] else [b]) = utf8 (escape c) := by
  by_cases hc : c = '\\' ∨ c = '"'
  · rcases hc with rfl | rfl <;> decide
  · have hnone : ∀ b ∈ String.utf8EncodeChar c, WifiDraft.escaped b = false := by
      intro b hb
      by_cases h : c.toNat < 0x80
      · rw [WifiProfile.encode_one h, List.mem_singleton] at hb
        rw [hb]
        exact escaped_plain h hc
      · have hhigh := encode_high (Nat.le_of_not_lt h) b hb
        simp only [WifiDraft.escaped, Bool.or_eq_false_iff, beq_eq_false_iff_ne]
        constructor <;> rintro rfl <;> exact absurd hhigh (by decide)
    have hplain : escape c = [c] := if_neg hc
    have hsame : (String.utf8EncodeChar c).flatMap
        (fun b => if WifiDraft.escaped b then [byte '\\', b] else [b]) =
          (String.utf8EncodeChar c).flatMap fun b => [b] :=
      List.flatMap_congr fun b hb => by simp [hnone b hb]
    rw [hsame, hplain, List.flatMap_singleton']
    simp [utf8]

theorem escape_utf8 (name : List Char) : (utf8 name).flatMap
    (fun b => if WifiDraft.escaped b then [byte '\\', b] else [b]) = utf8 (name.flatMap escape) := by
  induction name with
  | nil => rfl
  | cons c name ih =>
    show (String.utf8EncodeChar c ++ utf8 name).flatMap _ = _
    rw [List.flatMap_append, ih, escape_encode, List.flatMap_cons, utf8_append]

def frontLines (dhcp6 : Option Bool) : List Yaml.Line :=
  ⟨0, plain "network", none⟩ :: ⟨2, plain "version", some (plain "2")⟩ :: ⟨2, plain "wifis", none⟩ ::
  ⟨4, plain "wlan0", none⟩ :: ⟨6, plain "renderer", some (plain "networkd")⟩ ::
  ⟨6, plain "dhcp4", some (plain "true")⟩ ::
  ((match dhcp6 with
    | none => []
    | some true => [⟨6, plain "dhcp6", some (plain "true")⟩]
    | some false => [⟨6, plain "dhcp6", some (plain "false")⟩]) ++
  [⟨6, plain "access-points", none⟩])

theorem lines_draft (dhcp6 : Option Bool) (name key : List Char) :
    (draftEntries dhcp6 name key).lines 0 = frontLines dhcp6 ++
      [⟨8, ⟨name, true⟩, none⟩, ⟨10, plain "auth", none⟩,
        ⟨12, plain "key-management", some (plain "psk")⟩, ⟨12, plain "password", some ⟨key, true⟩⟩] := by
  rcases dhcp6 with - | - | - <;> rfl

-- A literal is rewritten to its characters before it is compared: decoding it is what is slow.
theorem front_text (dhcp6 : Option Bool) : WifiDraft.prefixFor dhcp6 =
    utf8 (render draftComments (frontLines dhcp6) ++ List.replicate 8 ' ') := by
  unfold WifiDraft.prefixFor WifiDraft.yamlHead WifiDraft.yamlPoints draftComments frontLines
  simp only [bytes_append]
  rcases dhcp6 with - | - | - <;>
    simp only [WifiDraft.dhcp6Line, plain, bytes] <;>
    repeat rw [String.toList_ofList]
  all_goals
    rw [utf8_literal (by decide)]
    simp only [List.append_nil, ← List.map_append]
    exact congrArg _ rfl

theorem auth_text : WifiDraft.yamlAuth =
    utf8 (':' :: '\n' :: (render [] [⟨10, plain "auth", none⟩,
      ⟨12, plain "key-management", some (plain "psk")⟩] ++
        (List.replicate 12 ' ' ++ "password: \"".toList))) := by
  unfold WifiDraft.yamlAuth
  simp only [plain, bytes]
  repeat rw [String.toList_ofList]
  rw [utf8_literal (by decide)]
  exact congrArg _ rfl

theorem end_text : WifiDraft.yamlEnd = utf8 ['"', '\n'] := by
  unfold WifiDraft.yamlEnd
  decide

theorem hexDigit_ascii : ∀ c : UInt8, isHexDigit c = true → c < 0x80 ∧
    escape (Char.ofNat c.toNat) = [Char.ofNat c.toNat] ∧ keyChar (Char.ofNat c.toNat) = true := by
  refine forall_byte ?_
  decide +kernel

theorem toHex_ascii (key : Bytes) : utf8 (ascii (toHex key)) = toHex key :=
  utf8_ascii fun c hc => (hexDigit_ascii c (List.all_eq_true.mp (toHex_all key) c hc)).1

theorem escape_toHex (key : Bytes) : (ascii (toHex key)).flatMap escape = ascii (toHex key) := by
  rw [ascii, List.flatMap_map, List.map_eq_flatMap]
  exact List.flatMap_congr fun c hc => (hexDigit_ascii c (List.all_eq_true.mp (toHex_all key) c hc)).2.1

theorem keyChars_toHex (key : Bytes) : (ascii (toHex key)).all keyChar = true := by
  rw [List.all_eq_true]
  intro d hd
  obtain ⟨c, hc, rfl⟩ := List.mem_map.mp hd
  exact (hexDigit_ascii c (List.all_eq_true.mp (toHex_all key) c hc)).2.2

theorem render_append (comments : List (List Char)) (ls ls' : List Yaml.Line) :
    render comments (ls ++ ls') = render comments ls ++ render [] ls' := by
  simp [render]

/-- **A draft is its tree in text.** -/
theorem draft_text (dhcp6 : Option Bool) (name : List Char) (psk : Bytes) :
    (WifiDraft.draftOf dhcp6 (utf8 name) psk).netplanYaml =
      utf8 (render draftComments ((draftEntries dhcp6 name (ascii (toHex psk))).lines 0)) := by
  have htail : render [] [⟨8, ⟨name, true⟩, none⟩, ⟨10, plain "auth", none⟩,
      ⟨12, plain "key-management", some (plain "psk")⟩,
      ⟨12, plain "password", some ⟨ascii (toHex psk), true⟩⟩] =
      List.replicate 8 ' ' ++ ('"' :: name.flatMap escape ++ '"' ::
        ((':' :: '\n' :: (render [] [⟨10, plain "auth", none⟩,
          ⟨12, plain "key-management", some (plain "psk")⟩] ++
            (List.replicate 12 ' ' ++ "password: \"".toList))) ++
          (ascii (toHex psk) ++ ['"', '\n']))) := by
    have hpassword : "password: \"".toList = "password".toList ++ [':', ' ', '"'] := rfl
    simp [render, Yaml.Line.render, Scalar.render, renderValue, plain, escape_toHex, hpassword]
  have hquote : String.utf8EncodeChar '"' = [byte '"'] := rfl
  have hcons (s : List Char) : utf8 ('"' :: s) = byte '"' :: utf8 s := by
    show String.utf8EncodeChar '"' ++ utf8 s = _
    rw [hquote]
    rfl
  rw [lines_draft, render_append, htail]
  unfold WifiDraft.draftOf
  rw [front_text, escape_utf8, auth_text, end_text]
  generalize ':' :: '\n' :: (render [] [⟨10, plain "auth", none⟩,
      ⟨12, plain "key-management", some (plain "psk")⟩] ++
        (List.replicate 12 ' ' ++ "password: \"".toList)) = auth
  simp only [utf8_append, hcons, toHex_ascii, List.append_assoc, List.cons_append]

def decodeUtf8 (data : Bytes) : Option (List Char) := data.toByteArray.utf8Decode?.map Array.toList

theorem decode_utf8 (s : List Char) : decodeUtf8 (utf8 s) = some s := by
  show (s.utf8Encode.utf8Decode?).map Array.toList = _
  rw [List.utf8Decode?_utf8Encode]
  rfl

def readYaml (data : Bytes) : Option Node := (decodeUtf8 data).bind Yaml.read

theorem good_draft {name key : List Char} (dhcp6 : Option Bool) (hname : '\n' ∉ name)
    (hkey : '\n' ∉ key) : (draftEntries dhcp6 name key).good = true := by
  rcases dhcp6 with - | - | - <;>
    simp [draftEntries, wlan0Settings, accessPoints, dhcp6Entry, under, field, Entries.good, Node.good,
      Scalar.good, hname, hkey] <;> decide

theorem read_draft {name : List Char} (hname : '\n' ∉ name) (dhcp6 : Option Bool) (psk : Bytes) :
    readYaml (WifiDraft.draftOf dhcp6 (utf8 name) psk).netplanYaml =
      some (.mapping (draftEntries dhcp6 name (ascii (toHex psk)))) := by
  have hkey : '\n' ∉ ascii (toHex psk) := fun hc =>
    absurd (List.all_eq_true.mp (keyChars_toHex psk) _ hc) (by decide)
  have hcomments : ∀ s ∈ draftComments, s.head? = some '#' ∧ '\n' ∉ s := by
    unfold draftComments
    repeat rw [String.toList_ofList]
    decide
  rw [readYaml, draft_text, decode_utf8, Option.bind_some]
  exact read_render (good_draft dhcp6 hname hkey) hcomments

/-! ## The check of a draft -/

theorem construct_draft (dhcp6 : Option Bool) (name key : List Char) :
    construct (.mapping (draftEntries dhcp6 name key)) =
      if name = "<<".toList then .error mergeKey else .ok () := by
  by_cases h : name = "<<".toList
  · subst h
    rcases dhcp6 with - | - | - <;> rfl
  · have hname : name ≠ ['<', '<'] := h
    rw [if_neg h]
    rcases dhcp6 with - | - | - <;>
      simp [draftEntries, wlan0Settings, accessPoints, dhcp6Entry, under, field, plain, construct,
        constructMapping, hname] <;> rfl

theorem load_draft {compose : Bytes → Option Node} {data : Bytes} {dhcp6 : Option Bool}
    {name key : List Char} (h : compose data = some (.mapping (draftEntries dhcp6 name key))) :
    load compose data = if name = "<<".toList then .error mergeKey
      else .ok (.mapping (draftEntries dhcp6 name key)) := by
  have hsmall : ¬(depth (.mapping (draftEntries dhcp6 name key)) > 20 ∨
      count (.mapping (draftEntries dhcp6 name key)) > 2048) := by
    rcases dhcp6 with - | - | - <;>
      simp [draftEntries, wlan0Settings, accessPoints, dhcp6Entry, under, field, depth, depthEntries,
        count, countEntries]
  unfold load
  rw [h]
  dsimp only
  rw [if_neg hsmall, construct_draft]
  split <;> rfl

theorem refuse_bind {α : Type} {b : Bool} (h : b = false) (message : String)
    (f : Unit → Except String α) : (refuse b message >>= f) = f () := by
  rw [h]
  rfl

theorem dict_bind {α : Type} (entries : Entries) (message : String) (f : Entries → Except String α) :
    (dict (some (.mapping entries)) message >>= f) = f entries := rfl

theorem settings_draft (dhcp6 : Option Bool) (name key : List Char) :
    let wifi := wlan0Settings dhcp6 name key
    (wifi.hasKeys ["renderer", "dhcp4", "access-points"] ||
      wifi.hasKeys ["renderer", "dhcp4", "dhcp6", "access-points"]) = true ∧
    isText (wifi.get "renderer") "networkd" = true ∧ isText (wifi.get "dhcp4") "true" = true ∧
    ((wifi.get "dhcp6").isSome = true →
      (isText (wifi.get "dhcp6") "true" || isText (wifi.get "dhcp6") "false") = true) ∧
    wifi.get "access-points" = some (.mapping (accessPoints name key)) := by
  rcases dhcp6 with - | - | - <;>
    simp [wlan0Settings, dhcp6Entry, field, under, Entries.hasKeys, Entries.keys, plain, isText,
      Entries.get]

theorem validatePoint_draft {name key : List Char} (hname : validName name = true)
    (hkey : isKey key = true) : validatePoint (accessPoints name key) = .ok () := by
  let auth := field "key-management" "psk" (.cons (plain "password") (.scalar ⟨key, true⟩) .nil)
  let point := under (plain "auth") auth .nil
  have hpoint : point.hasKeys ["auth"] = true ∧ point.get "auth" = some (.mapping auth) := by
    simp [point, under, plain, Entries.hasKeys, Entries.keys, Entries.get]
  have hauth : auth.hasKeys ["key-management", "password"] = true ∧
      isText (auth.get "key-management") "psk" = true ∧
      auth.get "password" = some (.scalar ⟨key, true⟩) := by
    simp [auth, field, plain, isText, Entries.hasKeys, Entries.keys, Entries.get]
  show (do
    refuse (!validName name) "Managed Wi-Fi profile has an unsupported network name"
    let point ← dict (some (.mapping point)) "Managed access point contains unexpected settings"
    _ : Except String Unit) = _
  rw [refuse_bind (by rw [hname]; rfl), dict_bind, refuse_bind (by rw [hpoint.1]; rfl), hpoint.2,
    dict_bind, refuse_bind (by rw [hauth.1, hauth.2.1]; rfl), hauth.2.2]
  dsimp only
  rw [hkey]
  rfl

theorem validateManaged_draft {data : Bytes} {name key : List Char} (dhcp6 : Option Bool)
    (hmarker : marker.isPrefixOf data = true) (hname : validName name = true) (hkey : isKey key = true) :
    validateManaged data (field "version" "2" (under (plain "wifis")
      (under (plain "wlan0") (wlan0Settings dhcp6 name key) .nil) .nil)) = .ok () := by
  obtain ⟨hkeys, hrenderer, hdhcp4, hdhcp6, hpoints⟩ := settings_draft dhcp6 name key
  generalize wlan0Settings dhcp6 name key = wifi at hkeys hrenderer hdhcp4 hdhcp6 hpoints ⊢
  let wifis := under (plain "wlan0") wifi .nil
  have hnetwork : (field "version" "2" (under (plain "wifis") wifis .nil)).hasKeys ["version", "wifis"] =
      true := by simp [field, under, plain, Entries.hasKeys, Entries.keys]
  have hwifis : (field "version" "2" (under (plain "wifis") wifis .nil)).get "wifis" =
      some (.mapping wifis) := by simp [field, under, plain, Entries.get]
  have hone : wifis.hasKeys ["wlan0"] = true := by
    simp [wifis, under, plain, Entries.hasKeys, Entries.keys]
  have hwifi : wifis.get "wlan0" = some (.mapping wifi) := by simp [wifis, under, plain, Entries.get]
  have hoption : ((wifi.get "dhcp6").isSome &&
      !(isText (wifi.get "dhcp6") "true" || isText (wifi.get "dhcp6") "false")) = false := by
    cases hs : (wifi.get "dhcp6").isSome with
    | false => rfl
    | true => rw [hdhcp6 hs]; rfl
  unfold validateManaged
  rw [refuse_bind (by rw [hmarker, hnetwork]; rfl), hwifis, dict_bind, refuse_bind (by rw [hone]; rfl),
    hwifi, dict_bind, refuse_bind (by rw [hkeys, hrenderer, hdhcp4]; rfl), refuse_bind hoption, hpoints,
    dict_bind]
  exact validatePoint_draft hname hkey

theorem validateScope_draft {compose : Bytes → Option Node} {data : Bytes} {dhcp6 : Option Bool}
    {name key : List Char} (h : compose data = some (.mapping (draftEntries dhcp6 name key)))
    (hmarker : marker.isPrefixOf data = true) (hname : validName name = true) (hkey : isKey key = true) :
    validateScope compose data true = if name = "<<".toList then .error mergeKey else .ok () := by
  unfold validateScope parse
  rw [load_draft h]
  split
  · rfl
  · exact validateManaged_draft dhcp6 hmarker hname hkey

/-! ## The drafts of made profiles -/

/-- Both filters exclude the same code points. -/
theorem namePoint_of_textChar {c : Char} (h : TextChar c) : namePoint c = true := by
  have hmod : c.toNat &&& 0xffff = c.toNat % 0x10000 := Nat.and_two_pow_sub_one_eq_mod c.toNat 16
  unfold TextChar at h
  simp only [namePoint, hmod, Bool.not_eq_true', Bool.or_eq_false_iff, Bool.and_eq_false_iff,
    decide_eq_false_iff_not, beq_eq_false_iff_ne, ne_eq, ge_iff_le]
  omega

theorem newline_not_text {name : List Char} (h : ∀ c ∈ name, TextChar c) : '\n' ∉ name :=
  fun hc => absurd (h _ hc) (by decide)

theorem validName_text {name : List Char} (hne : utf8 name ≠ []) (hl : (utf8 name).length ≤ 32)
    (h : ∀ c ∈ name, TextChar c) : validName name = true := by
  have hpos : 1 ≤ (utf8 name).length := List.length_pos_iff.mpr hne
  have hall : name.all namePoint = true := List.all_eq_true.mpr fun c hc => namePoint_of_textChar (h c hc)
  simp [validName, hpos, hl, hall]

theorem isKey_toHex {key : Bytes} (h : key.length = 32) : isKey (ascii (toHex key)) = true := by
  have hlen : (ascii (toHex key)).length = 64 := by simp [ascii, length_toHex, h]
  rw [isKey, hlen, keyChars_toHex]
  rfl

theorem marker_draft (dhcp6 : Option Bool) (ssid key : Bytes) :
    marker.isPrefixOf (WifiDraft.draftOf dhcp6 ssid key).netplanYaml = true := by
  have hhead : marker.isPrefixOf WifiDraft.yamlHead = true := by
    unfold marker WifiDraft.yamlHead bytes
    simp only [String.toList_append]
    repeat rw [String.toList_ofList]
    decide
  rw [List.isPrefixOf_iff_prefix] at hhead ⊢
  unfold WifiDraft.draftOf WifiDraft.prefixFor
  simp only [List.append_assoc]
  exact hhead.trans (List.prefix_append _ _)

theorem utf8_injective {s t : List Char} (h : utf8 s = utf8 t) : s = t := by
  have hs := decode_utf8 s
  rw [h, decode_utf8] at hs
  exact (Option.some.inj hs).symm

theorem toHex_merge {name : List Char} : toHex (utf8 name) = toHex (bytes "<<") ↔ name = "<<".toList := by
  have hmerge : bytes "<<" = utf8 "<<".toList := by decide
  constructor
  · intro h
    exact utf8_injective ((toHex_injective h).trans hmerge)
  · rintro rfl
    rw [hmerge]

/-- **A draft denotes the tree of its profile**, and the check accepts it unless the SSID is spelled
like a merge key. -/
theorem draft_checked_iff {kdf : Pbkdf2} {p : WifiProfile} (h : WifiDraft.Made kdf p) :
    ∃ draft name, WifiDraft.make p = .ok draft ∧ toHex (utf8 name) = p.ssidHex ∧
      readYaml draft.netplanYaml = some (.mapping (draftEntries p.dhcp6 name (ascii (toHex p.psk)))) ∧
      validName name = true ∧ isKey (ascii (toHex p.psk)) = true ∧
      ∀ compose, compose draft.netplanYaml = readYaml draft.netplanYaml →
        (validateScope compose draft.netplanYaml true = .ok () ↔ p.ssidHex ≠ toHex (bytes "<<")) := by
  obtain ⟨ssid, psk, hp, hne, hl, ht, hk⟩ := WifiDraft.made_shape h
  obtain ⟨name, rfl, htext⟩ := (WifiProfile.loop_iff _ _ le_rfl).mp ht
  generalize p.dhcp6 = dhcp6 at hp
  subst hp
  have hread := read_draft (newline_not_text htext) dhcp6 psk
  have hname := validName_text hne hl htext
  have hkey := isKey_toHex hk
  refine ⟨_, name, WifiDraft.make_usable dhcp6 hne hl hk, rfl, hread, hname, hkey, ?_⟩
  intro compose hcompose
  rw [validateScope_draft (hcompose.trans hread) (marker_draft _ _ _) hname hkey, ne_eq, toHex_merge]
  split <;> simp_all

def zeroProfile (ssid : Bytes) : WifiProfile := ⟨toHex ssid, List.replicate 32 0, some true⟩

theorem zeroProfile_made {ssid : Bytes}
    (h : ssid ≠ [] ∧ ssid.length ≤ 32 ∧ WifiProfile.validTextSsid ssid = true) :
    WifiDraft.Made noKdf (zeroProfile ssid) :=
  ⟨ssid, _, _, WifiProfile.make_key noKdf h.1 h.2.1 h.2.2 List.length_replicate, rfl⟩

theorem draft_checked_home : ∃ draft, WifiDraft.make (zeroProfile (bytes "home \"5\"")) = .ok draft ∧
    validateScope readYaml draft.netplanYaml true = .ok () := by
  have hmade : WifiDraft.Made noKdf (zeroProfile (bytes "home \"5\"")) :=
    zeroProfile_made (by decide)
  obtain ⟨draft, name, hmake, -, -, -, -, hcheck⟩ := draft_checked_iff hmade
  refine ⟨draft, hmake, (hcheck readYaml rfl).mpr fun h => ?_⟩
  exact absurd (toHex_injective h) (by decide)

/-- The profile is made and rendered, but its draft is refused. -/
theorem merge_ssid_refused : WifiDraft.Made noKdf (zeroProfile (bytes "<<")) ∧
    ∃ draft, WifiDraft.make (zeroProfile (bytes "<<")) = .ok draft ∧
      readYaml draft.netplanYaml = some (.mapping (draftEntries (some true) "<<".toList
        (ascii (toHex (List.replicate 32 0))))) ∧
      validateScope readYaml draft.netplanYaml true = .error mergeKey := by
  have hmerge : bytes "<<" = utf8 "<<".toList := by decide
  have hread := @read_draft "<<".toList (by decide) (some true) (List.replicate 32 0)
  have hcheck := validateScope_draft hread (marker_draft _ _ _) (by decide) (isKey_toHex (by simp))
  rw [if_pos rfl] at hcheck
  refine ⟨zeroProfile_made (by decide), _,
    WifiDraft.make_usable (some true) (by decide) (by decide) (by simp), ?_, ?_⟩
  · rw [hmerge]
    exact hread
  · rw [hmerge]
    exact hcheck

end NetplanPreflight

end EncoderNext
