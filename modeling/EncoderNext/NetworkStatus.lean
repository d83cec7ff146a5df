import EncoderNext.Decimal
import EncoderNext.FieldTable
import EncoderNext.LineFile

/-!
# The Wi-Fi snapshot

The collector writes the sanitized connection status and the scan table into one
file; the server reads them back. An empty line divides the two, and nothing in
the status may look like one.
-/

namespace EncoderNext

namespace NetworkStatus

/-! ## The connection status -/

abbrev Fields : Type := FieldTable.Fields Bytes Bytes

def statusKeys : List Bytes :=
  [bytes "wpa_state", bytes "ssid", bytes "bssid", bytes "ip_address"]

def states : List Bytes := [bytes "DISCONNECTED", bytes "INACTIVE", bytes "INTERFACE_DISABLED",
  bytes "SCANNING", bytes "AUTHENTICATING", bytes "ASSOCIATING", bytes "ASSOCIATED",
  bytes "4WAY_HANDSHAKE", bytes "GROUP_HANDSHAKE", bytes "COMPLETED"]

def isControl (c : UInt8) : Bool := c < 32 || c == 127

def sanitizeLine (fields : Fields) (line : Bytes) : Except String Fields :=
  match splitAt? (byte '=') line with
  | none => .ok fields
  | some (key, value) =>
    if key ∉ statusKeys then .ok fields
    else if value.length > 256 ∨ (fields.lookup key).isSome then .error "Invalid Wi-Fi status field"
    else if value.any isControl then .error "Invalid Wi-Fi status characters"
    else .ok (fields.insert key value)

def statusLine (key value : Bytes) : Bytes := key ++ byte '=' :: value

def statusLines (get : Bytes → Option Bytes) : List Bytes :=
  statusKeys.filterMap fun key => (get key).map (statusLine key)

def sanitizeWifiStatus (raw : Bytes) : Except String Bytes :=
  if raw.length > 8192 then .error "Wi-Fi status too large"
  else
    match (lines raw).foldlM sanitizeLine ∅ with
    | .error message => .error message
    | .ok fields =>
      if (fields.lookup (bytes "wpa_state")).getD [] ∉ states then
        .error "Unknown Wi-Fi connection state"
      else .ok ((statusLines fields.lookup).flatMap fun l => l ++ [lf])

/-! ## The collector -/

def version1 : Bytes := bytes "encoder-wifi-v1 "
def version2 : Bytes := bytes "encoder-wifi-v2 "

/-- What the collector publishes at a time, from the supplicant's status and scan table. -/
def collect (time : Int) (rawStatus results : Bytes) : Option Bytes :=
  match sanitizeWifiStatus rawStatus with
  | .error _ => none
  | .ok connection =>
    let data := version2 ++ decimalInt time ++ [lf] ++ connection ++ [lf] ++ results
    if data.length ≥ 65536 then none else some data

/-! ## The server -/

/-- `std::from_chars` that takes the whole text. -/
def fromChars (s : Bytes) : Option Int :=
  let (negative, ds) := match s with
    | c :: rest => if c = byte '-' then (true, rest) else (false, s)
    | [] => (false, [])
  let n : Int := if negative then -digitsValue ds else digitsValue ds
  if ds = [] ∨ ds.all isDigit = false ∨ ¬ Int64Range n then none else some n

def splitBlank : Bytes → Option (Bytes × Bytes)
  | a :: b :: rest =>
    if a = lf ∧ b = lf then some ([], rest)
    else (splitBlank (b :: rest)).map fun p => (a :: p.1, p.2)
  | _ => none

def heading : Bytes := bytes "bssid / frequency / signal level / flags / ssid\n"

def tableOf (results : Bytes) : Except String Bytes :=
  if heading.isPrefixOf results then .ok results else .error "Invalid Wi-Fi snapshot results"

def snapshotBody (second currentStatus : Bool) (results : Bytes) : Except String Bytes :=
  if second then
    match splitBlank results with
    | none => .error "Invalid Wi-Fi connection snapshot"
    | some (status, table) =>
      match sanitizeWifiStatus status with
      | .error _ => .error "Invalid Wi-Fi connection snapshot"
      | .ok connection => if currentStatus then .ok connection else tableOf table
  else if currentStatus then .error "Connection status requires an updated Wi-Fi collector"
  else tableOf results

def wifiSnapshot (file : Option Bytes) (now : Int) (currentStatus : Bool) : Except String Bytes :=
  match file with
  | none => .error "Wi-Fi snapshot unavailable; collector is not installed or not running"
  | some content =>
    if content.length ≥ 65536 then .error "Wi-Fi snapshot is oversized or unreadable"
    else
      -- the second version has a status in front of the table
      let second := version2.isPrefixOf content
      let front := if second then version2 else version1
      match splitAt? lf content with
      | none => .error "Invalid Wi-Fi snapshot format"
      | some (first, results) =>
        if front.isPrefixOf content = false ∨ first.length ≤ front.length then
          .error "Invalid Wi-Fi snapshot format"
        else
          match fromChars (first.drop front.length) with
          | none => .error "Wi-Fi snapshot expired or has invalid time"
          | some timestamp =>
            if timestamp < 0 ∨ timestamp > now ∨ now - timestamp > 90 then
              .error "Wi-Fi snapshot expired or has invalid time"
            else snapshotBody second currentStatus results

/-! ## What is kept of a status -/

def entryOf (line : Bytes) : Option (Option (Bytes × Bytes)) :=
  match splitAt? (byte '=') line with
  | none => some none
  | some (key, value) =>
    if key ∉ statusKeys then some none
    else if value.length > 256 ∨ value.any isControl = true then none
    else some (some (key, value))

theorem reads_sanitizeLine : FieldTable.Reads entryOf sanitizeLine := by
  intro fields line
  unfold entryOf sanitizeLine
  cases hs : splitAt? (byte '=') line with
  | none => rfl
  | some p =>
    obtain ⟨key, value⟩ := p
    dsimp only
    by_cases hk : key ∉ statusKeys
    · simp only [if_pos hk]
    simp only [if_neg hk]
    by_cases hv : value.length > 256
    · simp [hv]
    by_cases hc : value.any isControl = true
    · by_cases hl : (fields.lookup key).isSome = true <;> simp [hv, hc, hl]
    · by_cases hl : (fields.lookup key).isSome = true <;> simp [hv, hc, hl]

structure Kept (value : Bytes) : Prop where
  short : value.length ≤ 256
  plain : ∀ c ∈ value, isControl c = false

structure Status (get : Bytes → Option Bytes) : Prop where
  kept : ∀ key value, get key = some value → key ∈ statusKeys ∧ Kept value
  state : (get (bytes "wpa_state")).getD [] ∈ states

theorem entryOf_some {line key value : Bytes} : entryOf line = some (some (key, value)) ↔
    splitAt? (byte '=') line = some (key, value) ∧ key ∈ statusKeys ∧ Kept value := by
  unfold entryOf
  cases hs : splitAt? (byte '=') line with
  | none => simp
  | some p =>
    obtain ⟨k, v⟩ := p
    dsimp only
    by_cases hk : k ∉ statusKeys
    · simp only [if_pos hk, Option.some.injEq, reduceCtorEq, Prod.mk.injEq, false_iff, not_and]
      rintro ⟨rfl, rfl⟩ h
      exact absurd h hk
    rw [if_neg hk]
    rw [not_not] at hk
    by_cases hv : v.length > 256 ∨ v.any isControl = true
    · simp only [if_pos hv, reduceCtorEq, Option.some.injEq, Prod.mk.injEq, false_iff, not_and]
      rintro ⟨rfl, rfl⟩ - hkept
      rcases hv with hv | hv
      · have := hkept.short
        omega
      · obtain ⟨c, hc, hcc⟩ := List.any_eq_true.mp hv
        rw [hkept.plain c hc] at hcc
        cases hcc
    · simp only [if_neg hv, Option.some.injEq, Prod.mk.injEq]
      simp only [not_or, Nat.not_lt, Bool.not_eq_true, List.any_eq_false] at hv
      constructor
      · rintro ⟨rfl, rfl⟩
        exact ⟨⟨rfl, rfl⟩, hk, hv.1, hv.2⟩
      · exact And.left

theorem mem_values {ls : List Bytes} {key value : Bytes}
    (h : value ∈ FieldTable.values entryOf key ls) : key ∈ statusKeys ∧ Kept value := by
  obtain ⟨line, -, hv⟩ := List.mem_filterMap.mp h
  unfold FieldTable.valueOf at hv
  split at hv
  · rename_i k v he
    split at hv
    · rename_i hk
      cases hv
      exact hk ▸ (entryOf_some.mp he).2
    · cases hv
  · cases hv

theorem sanitize_ok {raw connection : Bytes} (h : sanitizeWifiStatus raw = .ok connection) :
    ∃ get, Status get ∧ connection = (statusLines get).flatMap fun l => l ++ [lf] := by
  unfold sanitizeWifiStatus at h
  split at h
  · cases h
  split at h
  · cases h
  rename_i fields hf
  split at h
  · cases h
  rename_i hstate
  cases h
  refine ⟨fields.lookup, ⟨fun key value hl => ?_, not_not.mp hstate⟩, rfl⟩
  rw [FieldTable.lookup_read reads_sanitizeLine hf] at hl
  exact mem_values (List.mem_of_mem_head? hl)

/-! ## What is written is read -/

theorem key_plain : ∀ key ∈ statusKeys, byte '=' ∉ key ∧ lf ∉ key ∧ key.length ≤ 10 := by decide

theorem nodup_statusKeys : statusKeys.Nodup := by decide

theorem mem_statusLines {get : Bytes → Option Bytes} {line : Bytes} (h : line ∈ statusLines get) :
    ∃ key value, get key = some value ∧ line = statusLine key value := by
  obtain ⟨key, -, hl⟩ := List.mem_filterMap.mp h
  obtain ⟨value, hv, rfl⟩ := Option.map_eq_some_iff.mp hl
  exact ⟨key, value, hv, rfl⟩

section
variable {get : Bytes → Option Bytes} (hg : Status get)
include hg

theorem entryOf_statusLine {key value : Bytes} (h : get key = some value) :
    entryOf (statusLine key value) = some (some (key, value)) := by
  obtain ⟨hk, hv⟩ := hg.kept key value h
  exact entryOf_some.mpr ⟨splitAt?_append (key_plain key hk).1, hk, hv⟩

theorem statusLines_plain {line : Bytes} (h : line ∈ statusLines get) :
    lf ∉ line ∧ line ≠ [] ∧ line.length ≤ 267 := by
  obtain ⟨key, value, hv, rfl⟩ := mem_statusLines h
  obtain ⟨hk, hkept⟩ := hg.kept key value hv
  obtain ⟨-, hlf, hlen⟩ := key_plain key hk
  refine ⟨?_, by simp [statusLine], ?_⟩
  · rw [statusLine, List.mem_append, List.mem_cons]
    rintro (h | h | h)
    · exact hlf h
    · exact absurd h (by decide)
    · exact absurd (hkept.plain lf h) (by decide)
  · have := hkept.short
    rw [statusLine, List.length_append, List.length_cons]
    omega

theorem values_statusLines (key : Bytes) : ∀ {keys : List Bytes}, keys.Nodup →
    FieldTable.values entryOf key (keys.filterMap fun k => (get k).map (statusLine k)) =
      if key ∈ keys then (get key).toList else []
  | [], _ => rfl
  | k :: keys, hn => by
    obtain ⟨hk, hn⟩ := List.nodup_cons.mp hn
    have ih := values_statusLines key hn
    cases hv : get k with
    | none =>
      rw [List.filterMap_cons_none (by rw [hv]; rfl), ih]
      by_cases he : key = k
      · subst he
        simp [hk, hv]
      · simp [he]
    | some value =>
      rw [List.filterMap_cons_some (by rw [hv]; rfl), FieldTable.values_cons, ih,
        FieldTable.valueOf_some (entryOf_statusLine hg hv)]
      by_cases he : key = k
      · subst he
        simp [hk, hv]
      · simp [he, Ne.symm he]

theorem lookup_statusLines {fields : Fields}
    (h : (statusLines get).foldlM sanitizeLine ∅ = .ok fields) (key : Bytes) :
    fields.lookup key = get key := by
  rw [FieldTable.lookup_read reads_sanitizeLine h, statusLines, values_statusLines hg key nodup_statusKeys]
  by_cases hk : key ∈ statusKeys
  · rw [if_pos hk]
    cases get key <;> rfl
  · rw [if_neg hk]
    cases hv : get key with
    | none => rfl
    | some value => exact absurd (hg.kept key value hv).1 hk

theorem accepts_statusLines : FieldTable.Accepts entryOf ∅ (statusLines get) := by
  rw [FieldTable.accepts_empty]
  constructor
  · intro line hl
    obtain ⟨key, value, hv, rfl⟩ := mem_statusLines hl
    rw [entryOf_statusLine hg hv]
    simp
  · intro key
    rw [statusLines, values_statusLines hg key nodup_statusKeys]
    split
    · cases get key <;> simp
    · simp

theorem sanitize_of_lines {raw : Bytes} (hlen : raw.length ≤ 8192) (hl : lines raw = statusLines get) :
    sanitizeWifiStatus raw = .ok ((statusLines get).flatMap fun l => l ++ [lf]) := by
  obtain ⟨fields, hf⟩ :=
    (FieldTable.foldlM_accepts reads_sanitizeLine (statusLines get) ∅).mpr (accepts_statusLines hg)
  have hlookup (key : Bytes) : fields.lookup key = get key := lookup_statusLines hg hf key
  unfold sanitizeWifiStatus
  rw [if_neg (by omega), hl, hf]
  simp only [hlookup]
  rw [if_neg (not_not.mpr hg.state)]

end

/-! ## The empty line -/

theorem lines_joined {ls : List Bytes} (h : ∀ l ∈ ls, lf ∉ l ∧ l ≠ []) :
    lines (joined lf ls) = ls := by
  rcases List.eq_nil_or_concat' ls with rfl | ⟨front, l, rfl⟩
  · rfl
  · rw [← parts_lf]
    exact parts_joined (h l (by simp)).1 (h l (by simp)).2 front fun p hp => (h p (by simp [hp])).1

theorem joined_lf : ∀ {ls : List Bytes}, ls ≠ [] →
    joined lf ls ++ [lf] = ls.flatMap fun l => l ++ [lf]
  | [], h => absurd rfl h
  | [l], _ => by simp
  | l :: m :: ls, _ => by
    rw [joined_cons_cons, List.flatMap_cons, ← joined_lf (List.cons_ne_nil m ls)]
    simp

theorem splitBlank_front {l : Bytes} (hl : lf ∉ l) (s : Bytes) :
    splitBlank (l ++ lf :: s) = (splitBlank (lf :: s)).map fun p => (l ++ p.1, p.2) := by
  induction l with
  | nil => simp
  | cons d l ih =>
    have hd : d ≠ lf := fun h => hl (by simp [h])
    have hrest := ih fun h => hl (by simp [h])
    have hstep : ∀ e rest, l ++ lf :: s = e :: rest → splitBlank (d :: (l ++ lf :: s)) =
        (splitBlank (l ++ lf :: s)).map fun p => (d :: p.1, p.2) := by
      intro e rest he
      rw [he, splitBlank, if_neg (by simp [hd])]
    rw [List.cons_append]
    cases l with
    | nil => rw [hstep _ _ rfl, hrest, Option.map_map]; rfl
    | cons e l => rw [hstep _ _ rfl, hrest, Option.map_map]; rfl

/-- The first empty line is the one behind the last line. -/
theorem splitBlank_joined (table : Bytes) : ∀ {ls : List Bytes}, ls ≠ [] →
    (∀ l ∈ ls, lf ∉ l ∧ l ≠ []) →
    splitBlank (joined lf ls ++ lf :: lf :: table) = some (joined lf ls, table)
  | [], h, _ => absurd rfl h
  | [l], _, h => by
    have hend : splitBlank (lf :: lf :: table) = some ([], table) := rfl
    rw [joined_singleton, splitBlank_front (h l (by simp)).1, hend]
    simp
  | l :: m :: ls, _, h => by
    have ih := splitBlank_joined table (List.cons_ne_nil m ls) fun l hl => h l (by simp [hl])
    have hstart : ∃ c rest, joined lf (m :: ls) ++ lf :: lf :: table = c :: rest ∧ c ≠ lf := by
      obtain ⟨hlf, hne⟩ := h m (by simp)
      cases m with
      | nil => exact absurd rfl hne
      | cons c m =>
        have hc : c ≠ lf := fun h => hlf (by simp [h])
        cases ls with
        | nil => exact ⟨c, _, rfl, hc⟩
        | cons n ls => exact ⟨c, _, rfl, hc⟩
    obtain ⟨c, rest, hcons, hc⟩ := hstart
    have hmid : splitBlank (lf :: c :: rest) = (splitBlank (c :: rest)).map fun p => (lf :: p.1, p.2) := by
      rw [splitBlank, if_neg (by simp [hc])]
    rw [joined_cons_cons, List.append_assoc, List.cons_append, hcons, splitBlank_front (h l (by simp)).1, hmid,
      ← hcons, ih]
    rfl

theorem fromChars_decimalInt {n : Int} (h : Int64Range n) : fromChars (decimalInt n) = some n := by
  have hdigits (k : Nat) : (decimal k).all isDigit = true :=
    List.all_eq_true.mpr (decimal_digits k)
  unfold decimalInt
  by_cases hn : n < 0
  · have habs : -|n| = n := by rw [abs_of_neg hn, neg_neg]
    rw [if_pos hn, fromChars]
    simp [digitsValue_decimal, decimal_ne_nil, hdigits, habs, h]
  · have habs : (n.natAbs : Int) = n := by omega
    rw [if_neg hn]
    cases hd : decimal n.natAbs with
    | nil => exact absurd hd (decimal_ne_nil _)
    | cons c rest =>
      have hc := (digit_plain c (decimal_digits n.natAbs c (by simp [hd]))).2.2.1
      rw [fromChars]
      simp only [if_neg hc]
      rw [← hd, digitsValue_decimal, hdigits]
      simp [decimal_ne_nil, habs, h]

/-! ## Collector and server -/

theorem length_flatMap_lines : ∀ {ls : List Bytes} {n : Nat}, (∀ l ∈ ls, l.length ≤ n) →
    (ls.flatMap fun l => l ++ [lf]).length ≤ ls.length * (n + 1)
  | [], _, _ => by simp
  | l :: ls, n, h => by
    have hl := h l (by simp)
    have ih := length_flatMap_lines fun l hl => h l (List.mem_cons_of_mem _ hl)
    rw [List.flatMap_cons, List.length_append, List.length_append, List.length_singleton,
      List.length_cons, Nat.add_mul]
    omega

section
variable {get : Bytes → Option Bytes} (hg : Status get)
include hg

theorem statusLines_ne_nil : statusLines get ≠ [] := by
  have hstate := hg.state
  cases hv : get (bytes "wpa_state") with
  | none =>
    rw [hv] at hstate
    exact absurd hstate (by decide)
  | some value =>
    have hmem : statusLine (bytes "wpa_state") value ∈ statusLines get :=
      List.mem_filterMap.mpr ⟨bytes "wpa_state", by simp [statusKeys], by rw [hv]; rfl⟩
    exact List.ne_nil_of_mem hmem

theorem length_status :
    ((statusLines get).flatMap fun l => l ++ [lf]).length ≤ 8192 := by
  have hcount : (statusLines get).length ≤ 4 := List.length_filterMap_le _ statusKeys
  have hlen := length_flatMap_lines fun l hl => (statusLines_plain hg hl).2.2
  omega

theorem sanitize_status : sanitizeWifiStatus ((statusLines get).flatMap fun l => l ++ [lf]) =
    .ok ((statusLines get).flatMap fun l => l ++ [lf]) :=
  sanitize_of_lines hg (length_status hg) (lines_flatMap fun _ hl => (statusLines_plain hg hl).1)

theorem snapshotBody_status (table : Bytes) (currentStatus : Bool) :
    snapshotBody true currentStatus (((statusLines get).flatMap fun l => l ++ [lf]) ++ [lf] ++ table) =
      if currentStatus then .ok ((statusLines get).flatMap fun l => l ++ [lf]) else tableOf table := by
  have hplain : ∀ l ∈ statusLines get, lf ∉ l ∧ l ≠ [] := fun l hl =>
    ⟨(statusLines_plain hg hl).1, (statusLines_plain hg hl).2.1⟩
  have hne := statusLines_ne_nil hg
  have hjoined := joined_lf hne
  have hlen : (joined lf (statusLines get)).length ≤ 8192 := by
    have hwhole := length_status hg
    rw [← hjoined, List.length_append] at hwhole
    omega
  have hsplit := splitBlank_joined table hne hplain
  have hbody : ((statusLines get).flatMap fun l => l ++ [lf]) ++ [lf] ++ table =
      joined lf (statusLines get) ++ lf :: lf :: table := by
    rw [← hjoined]
    simp
  rw [hbody]
  simp only [snapshotBody, hsplit, sanitize_of_lines hg hlen (lines_joined hplain), if_true]

end

theorem wifiSnapshot_collected {time now : Int} {body : Bytes}
    (hlen : (version2 ++ decimalInt time ++ [lf] ++ body).length < 65536) (htime : Int64Range time)
    (h0 : 0 ≤ time) (hnow : time ≤ now) (hage : now - time ≤ 90) (currentStatus : Bool) :
    wifiSnapshot (some (version2 ++ decimalInt time ++ [lf] ++ body)) now currentStatus =
      snapshotBody true currentStatus body := by
  have hfront (rest : Bytes) : version2.isPrefixOf (version2 ++ rest) = true :=
    List.isPrefixOf_iff_prefix.mpr (List.prefix_append _ _)
  have hlf : lf ∉ version2 ++ decimalInt time := by
    rw [List.mem_append]
    rintro (h | h)
    · exact absurd h (by decide)
    · exact not_numeral rfl (decimalInt_numeral time) h
  have hsplit : splitAt? lf (version2 ++ decimalInt time ++ [lf] ++ body) =
      some (version2 ++ decimalInt time, body) := by
    rw [List.append_assoc _ [lf]]
    exact splitAt?_append hlf
  have hsecond : version2.isPrefixOf (version2 ++ decimalInt time ++ [lf] ++ body) = true := by
    rw [List.append_assoc, List.append_assoc]
    exact hfront _
  have hfirst : ¬(true = false ∨ (version2 ++ decimalInt time).length ≤ version2.length) := by
    have hdigits := List.length_pos_iff.mpr (decimalInt_ne_nil time)
    rw [List.length_append]
    rintro (h | h)
    · cases h
    · omega
  unfold wifiSnapshot
  dsimp only
  rw [if_neg (by omega), hsplit]
  simp only [hsecond, if_true]
  rw [if_neg hfirst, List.drop_left, fromChars_decimalInt htime]
  dsimp only
  rw [if_neg (by omega)]

def lineKey (line : Bytes) : Option Bytes := (splitAt? (byte '=') line).map Prod.fst

theorem lineKeys_sublist (get : Bytes → Option Bytes) : ∀ {keys : List Bytes},
    (∀ key ∈ keys, byte '=' ∉ key) →
    List.Sublist ((keys.filterMap fun key => (get key).map (statusLine key)).map lineKey)
      (keys.map some)
  | [], _ => .slnil
  | key :: keys, h => by
    have ih := lineKeys_sublist get fun k hk => h k (List.mem_cons_of_mem _ hk)
    cases hv : get key with
    | none =>
      rw [List.filterMap_cons_none (by rw [hv]; rfl)]
      exact ih.cons _
    | some value =>
      have hkey : lineKey (statusLine key value) = some key := by
        rw [lineKey, statusLine, splitAt?_append (h key (by simp))]
        rfl
      rw [List.filterMap_cons_some (by rw [hv]; rfl), List.map_cons, hkey]
      exact ih.cons_cons _

/-- **Collector and server agree.** A published snapshot is read back as its two parts
for ninety seconds, whatever the table holds, and sanitizing twice changes nothing. -/
theorem snapshot_exact {raw connection : Bytes} (h : sanitizeWifiStatus raw = .ok connection) :
    sanitizeWifiStatus connection = .ok connection ∧
    List.Sublist ((lines connection).map lineKey) (statusKeys.map some) ∧
    ∀ {table data : Bytes} {time now : Int}, Int64Range time → 0 ≤ time → time ≤ now →
      now ≤ time + 90 → heading <+: table → collect time raw table = some data →
      wifiSnapshot (some data) now true = .ok connection ∧
      wifiSnapshot (some data) now false = .ok table := by
  obtain ⟨get, hg, rfl⟩ := sanitize_ok h
  have hlines : lines ((statusLines get).flatMap fun l => l ++ [lf]) = statusLines get :=
    lines_flatMap fun _ hl => (statusLines_plain hg hl).1
  refine ⟨sanitize_status hg, ?_, ?_⟩
  · rw [hlines]
    exact lineKeys_sublist get fun key hk => (key_plain key hk).1
  · intro table data time now htime h0 hnow hage hheading hdata
    simp only [collect, h] at hdata
    split at hdata
    · cases hdata
    rename_i hlen
    cases hdata
    rw [Nat.not_le] at hlen
    have htable : tableOf table = .ok table := if_pos (List.isPrefixOf_iff_prefix.mpr hheading)
    have hbody : version2 ++ decimalInt time ++ [lf] ++
        ((statusLines get).flatMap fun l => l ++ [lf]) ++ [lf] ++ table =
          version2 ++ decimalInt time ++ [lf] ++
            (((statusLines get).flatMap fun l => l ++ [lf]) ++ [lf] ++ table) := by
      simp only [List.append_assoc]
    rw [hbody] at hlen ⊢
    have hread := wifiSnapshot_collected hlen htime h0 hnow (by omega)
    rw [hread, hread, snapshotBody_status hg, snapshotBody_status hg]
    exact ⟨rfl, htable⟩

theorem snapshot_exact_sample :
    let connection := bytes "wpa_state=COMPLETED\nssid=home\n"
    wifiSnapshot (collect 1700000000 (bytes "ssid=home\nkey_mgmt=NONE\nwpa_state=COMPLETED\n")
      (heading ++ bytes "\n\n")) 1700000090 true = .ok connection ∧
    wifiSnapshot (collect 1700000000 (bytes "ssid=home\nkey_mgmt=NONE\nwpa_state=COMPLETED\n")
      (heading ++ bytes "\n\n")) 1700000090 false = .ok (heading ++ bytes "\n\n") := by
  have hstatus : sanitizeWifiStatus (bytes "ssid=home\nkey_mgmt=NONE\nwpa_state=COMPLETED\n") =
      .ok (bytes "wpa_state=COMPLETED\nssid=home\n") := by rfl
  obtain ⟨data, hdata⟩ : ∃ data, collect 1700000000
      (bytes "ssid=home\nkey_mgmt=NONE\nwpa_state=COMPLETED\n") (heading ++ bytes "\n\n") =
        some data := Option.isSome_iff_exists.mp (by decide +kernel)
  dsimp only
  rw [hdata]
  exact (snapshot_exact hstatus).2.2 (by decide) (by decide) (by decide) (by decide)
    (List.prefix_append _ _) hdata

end NetworkStatus

end EncoderNext
