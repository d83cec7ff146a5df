import EncoderNext.SsidText
import EncoderNext.Yaml

/-!
# The independent check of Netplan files

`netplan_preflight.py` reads a Netplan file with a loader of its own and compares its
shape: a managed file must be one of the generated profiles, an unmanaged one must leave
`wlan0` alone.
-/

namespace EncoderNext

namespace NetplanPreflight

open Yaml

/-! ## The loader -/

def tooLarge : String := "YAML structure exceeds the supported limits"
def mergeKey : String := "YAML merge keys require manual review"
def duplicateKey : String := "Duplicate YAML keys require manual review"

mutual

def depth : Node → Nat
  | .scalar _ => 1
  | .sequence items => 1 + depthItems items
  | .mapping entries => 1 + depthEntries entries

def depthItems : Items → Nat
  | .nil => 0
  | .cons value rest => max (depth value) (depthItems rest)

/-- A key is a node of its own, beside its value. -/
def depthEntries : Entries → Nat
  | .nil => 0
  | .cons _ value rest => max (max 1 (depth value)) (depthEntries rest)

end

mutual

def count : Node → Nat
  | .scalar _ => 1
  | .sequence items => 1 + countItems items
  | .mapping entries => 1 + countEntries entries

def countItems : Items → Nat
  | .nil => 0
  | .cons value rest => count value + countItems rest

def countEntries : Entries → Nat
  | .nil => 0
  | .cons _ value rest => 1 + count value + countEntries rest

end

mutual

def construct : Node → Except String Unit
  | .scalar _ => .ok ()
  | .sequence items => constructItems items
  | .mapping entries => constructMapping [] entries

def constructItems : Items → Except String Unit
  | .nil => .ok ()
  | .cons value rest => do
    construct value
    constructItems rest

def constructMapping (result : List (List Char)) : Entries → Except String Unit
  | .nil => .ok ()
  | .cons key value rest =>
    if key.text = "<<".toList then .error mergeKey
    else if key.text ∈ result then .error duplicateKey
    else do
      construct value
      constructMapping (key.text :: result) rest

end

/-- The library composes a document, or raises an error of its own. -/
def load (compose : Bytes → Option Node) (data : Bytes) : Except String Node :=
  match compose data with
  | none => .error "Invalid Netplan YAML"
  | some document => do
    if depth document > 20 ∨ count document > 2048 then throw tooLarge
    construct document
    return document

/-! ## The check -/

def marker : Bytes := bytes "# encoder managed wifi v1\n"

def refuse (b : Bool) (message : String) : Except String Unit := if b then .error message else .ok ()

def dict (node : Option Node) (message : String) : Except String Entries :=
  match node with
  | some (.mapping entries) => .ok entries
  | _ => .error message

def parse (compose : Bytes → Option Node) (data : Bytes) : Except String Entries := do
  let document ← load compose data
  let document ← dict (some document) "Unsupported Netplan document structure"
  refuse (!document.hasKeys ["network"]) "Unsupported Netplan document structure"
  let network ← dict (document.get "network") "Unsupported Netplan version or network structure"
  refuse (!isText (network.get "version") "2") "Unsupported Netplan version or network structure"
  return network

def namePoint (c : Char) : Bool :=
  let codepoint := c.toNat
  !(codepoint < 32 || (0x7f ≤ codepoint && codepoint ≤ 0x9f) || codepoint == 0x2028 ||
    codepoint == 0x2029 || (0xfdd0 ≤ codepoint && codepoint ≤ 0xfdef) || codepoint &&& 0xffff ≥ 0xfffe)

def validName (name : List Char) : Bool :=
  1 ≤ (utf8 name).length && (utf8 name).length ≤ 32 && name.all namePoint

def keyChar (c : Char) : Bool := ('0' ≤ c && c ≤ '9') || ('a' ≤ c && c ≤ 'f')

def isKey (text : List Char) : Bool := text.length == 64 && text.all keyChar

def validatePoint (points : Entries) : Except String Unit :=
  match points with
  | .cons name point .nil => do
    refuse (!validName name.text) "Managed Wi-Fi profile has an unsupported network name"
    let point ← dict (some point) "Managed access point contains unexpected settings"
    refuse (!point.hasKeys ["auth"]) "Managed access point contains unexpected settings"
    let auth ← dict (point.get "auth") "Managed Wi-Fi authentication settings are unsupported"
    refuse (!auth.hasKeys ["key-management", "password"] || !isText (auth.get "key-management") "psk")
      "Managed Wi-Fi authentication settings are unsupported"
    match auth.get "password" with
    | some (.scalar password) =>
      refuse (!isKey password.text) "Managed Wi-Fi key has an unsupported representation"
    | _ => throw "Managed Wi-Fi key has an unsupported representation"
  | _ => throw "Managed Wi-Fi profile must contain exactly one access point"

def validateManaged (data : Bytes) (network : Entries) : Except String Unit := do
  refuse (!marker.isPrefixOf data || !network.hasKeys ["version", "wifis"])
    "Managed Wi-Fi file has unexpected ownership marker or scope"
  let wifis ← dict (network.get "wifis") "Managed Wi-Fi file must describe only wlan0"
  refuse (!wifis.hasKeys ["wlan0"]) "Managed Wi-Fi file must describe only wlan0"
  let wifi ← dict (wifis.get "wlan0") "Managed wlan0 settings are not a supported generated profile"
  refuse (!(wifi.hasKeys ["renderer", "dhcp4", "access-points"] ||
      wifi.hasKeys ["renderer", "dhcp4", "dhcp6", "access-points"]) ||
      !isText (wifi.get "renderer") "networkd" || !isText (wifi.get "dhcp4") "true")
    "Managed wlan0 settings are not a supported generated profile"
  refuse ((wifi.get "dhcp6").isSome &&
      !(isText (wifi.get "dhcp6") "true" || isText (wifi.get "dhcp6") "false"))
    "Unsupported DHCPv6 setting"
  let points ← dict (wifi.get "access-points")
    "Managed Wi-Fi profile must contain exactly one access point"
  validatePoint points

def validateUnmanaged (network : Entries) : Except String Unit := do
  refuse (network.keys.any fun key =>
      !(["version", "renderer", "ethernets", "wifis"].any fun k => k.toList == key))
    "Additional network device types require manual scope review"
  refuse ((network.get "renderer").isSome && !isText (network.get "renderer") "networkd")
    "Non-networkd renderer requires manual migration"
  match network.get "wifis" with
  | none | some (.mapping .nil) => pure ()
  | some _ => throw "Existing unmanaged Wi-Fi configuration requires explicit migration"
  let ethernets ← dict (some ((network.get "ethernets").getD (.mapping .nil)))
    "Only the fixed end1 recovery interface is supported automatically"
  refuse (ethernets.keys.any fun key => key != "end1".toList)
    "Only the fixed end1 recovery interface is supported automatically"
  ethernets.values.forM fun settings => do
    let settings ← dict (some settings) "Interface matching or renaming requires manual review"
    refuse ((settings.get "match").isSome || (settings.get "set-name").isSome)
      "Interface matching or renaming requires manual review"
    refuse ((settings.get "renderer").isSome && !isText (settings.get "renderer") "networkd")
      "Recovery Ethernet renderer is unsupported"

def validateScope (compose : Bytes → Option Node) (data : Bytes) (managed : Bool) :
    Except String Unit := do
  let network ← parse compose data
  if managed then validateManaged data network else validateUnmanaged network

end NetplanPreflight

end EncoderNext
