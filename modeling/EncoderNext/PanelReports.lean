import EncoderNext.Alerts
import EncoderNext.BindingFile
import EncoderNext.StatsFile

/-!
# The reports of the administrator's panel

The panel asks for alerts, log lines, statistics, locks and clients, a limited number
of each. An answer is as long as its lines, and the panel takes none that is longer than
eight mebibytes.
-/

namespace EncoderNext

open Program

def listing (ls : List Bytes) : Bytes := ls.flatMap fun l => l ++ [lf]

/-! ## What the reports are made of -/

namespace AuditService

def formatEventLine (ts : Int) (kind username detail : Bytes) : Bytes :=
  joined (byte '|') [decimalInt ts, kind, username, detail]

def tailStep (limit : Nat) (buffer : List Bytes) (line : Bytes) : List Bytes :=
  if line = [] then buffer
  else
    let buffer := buffer ++ [line]
    if limit > 0 ∧ buffer.length > limit then buffer.drop 1 else buffer

def tailLogs (file : Bytes) (limit : Nat) : List Bytes := (lines file).foldl (tailStep limit) []

end AuditService

namespace SecurityMonitor

def dumpStats (es : List Entry) (limit : Nat) : List Bytes :=
  let out := es.map statsLine
  if limit > 0 ∧ out.length > limit then out.take limit else out

def lockLine (now : Int) (e : Entry) : Bytes :=
  joined (byte '|') [e.1, decimalInt e.2.lockUntilTs, decimalInt (e.2.lockUntilTs - now)]

def dumpLocks (now : Int) (limit : Nat) : List Bytes → List Entry → List Bytes
  | out, [] => out
  | out, e :: es =>
    if e.2.lockUntilTs ≤ now then dumpLocks now limit out es
    else
      let out := out ++ [lockLine now e]
      if limit > 0 ∧ out.length ≥ limit then out else dumpLocks now limit out es

end SecurityMonitor

namespace BindingPolicy

def bindingLine (e : Entry) : Bytes :=
  joined (byte '|') [e.1, flagText e.2.allowed, decimalInt e.2.firstSeenTs, decimalInt e.2.lastSeenTs,
    e.2.label]

def bindingLines (limit : Nat) : Nat → List Entry → List Bytes
  | _, [] => []
  | n, e :: es => bindingLine e :: if limit > 0 ∧ n + 1 ≥ limit then [] else bindingLines limit (n + 1) es

end BindingPolicy

/-! ## The answers -/

def okHeader : Header := Header.set {} (bytes "status") (bytes "ok")

def linesReport (resp : Header) (default : Nat) (build : Nat → List Bytes) (req : Header) :
    Except Bytes (Header × Bytes) :=
  match numberOf req (bytes "limit") default with
  | none => .error (bytes "Invalid parameters")
  | some limit =>
    let payload := listing (build limit)
    .ok (resp.set (bytes "payload_size") (decimal payload.length), payload)

def adminGetLogs (file : Bytes) : Header → Except Bytes (Header × Bytes) :=
  linesReport okHeader 200 (AuditService.tailLogs file)

def adminGetStats (es : List SecurityMonitor.Entry) : Header → Except Bytes (Header × Bytes) :=
  linesReport okHeader 200 (SecurityMonitor.dumpStats es)

def adminGetLocks (now : Int) (es : List SecurityMonitor.Entry) :
    Header → Except Bytes (Header × Bytes) :=
  linesReport okHeader 200 fun limit => SecurityMonitor.dumpLocks now limit [] es

def adminGetBinding (enabled : Bool) (es : List BindingPolicy.Entry) :
    Header → Except Bytes (Header × Bytes) :=
  linesReport (okHeader.set (bytes "binding_enabled") (BindingPolicy.flagText enabled)) 500 fun limit =>
    BindingPolicy.bindingLines limit 0 es

namespace AdminClient

/-- The request of one of the panel's reports; that of the alerts carries a number as well. -/
def limited (op token : Bytes) (limit : Nat) : Header :=
  ((Header.set {} (bytes "op") op).set (bytes "admin_token") token).set (bytes "limit") (decimal limit)

def alertsRequest (token : Bytes) (sinceId limit : Nat) : Header :=
  let header := Header.set {} (bytes "op") (bytes "admin_get_alerts")
  let header := header.set (bytes "admin_token") token
  let header := header.set (bytes "since_id") (decimal sinceId)
  header.set (bytes "limit") (decimal limit)

def Readable (answer : Except Bytes (Header × Bytes)) : Prop :=
  ∃ resp payload, answer = .ok (resp, payload) ∧ payload.length ≤ maxPayload

end AdminClient

/-! ## The length of a report -/

theorem length_listing_le {n k : Nat} : ∀ {ls : List Bytes}, (∀ l ∈ ls, l.length ≤ n) → ls.length ≤ k →
    (listing ls).length ≤ k * (n + 1)
  | [], _, _ => Nat.zero_le _
  | l :: ls, h, hk => by
    cases k with
    | zero => simp at hk
    | succ k =>
      have hl := h l (by simp)
      have hrest := length_listing_le (fun l hl => h l (by simp [hl])) (Nat.le_of_succ_le_succ hk)
      unfold listing at hrest ⊢
      rw [List.flatMap_cons, List.length_append, List.length_append, List.length_singleton,
        Nat.succ_mul]
      omega

theorem le_length_listing {n : Nat} : ∀ {ls : List Bytes}, (∀ l ∈ ls, n ≤ l.length) →
    ls.length * (n + 1) ≤ (listing ls).length
  | [], _ => by simp
  | l :: ls, h => by
    have hl := h l List.mem_cons_self
    have hrest := le_length_listing fun l hl => h l (List.mem_cons_of_mem _ hl)
    unfold listing at hrest ⊢
    rw [List.flatMap_cons, List.length_append, List.length_append, List.length_singleton,
      List.length_cons, Nat.succ_mul]
    omega

theorem numberOf_limited (op token : Bytes) {limit : Nat} (default : Nat) (h : limit < 2 ^ 64) :
    numberOf (AdminClient.limited op token limit) (bytes "limit") default = some limit := by
  rw [AdminClient.limited, numberOf_set _ _ _ _ h, if_pos rfl]

theorem readable_lines {resp : Header} {default limit n : Nat} {build : Nat → List Bytes}
    {op token : Bytes} (hlimit : limit < 2 ^ 64) (hcount : (build limit).length ≤ limit)
    (hline : ∀ l ∈ build limit, l.length ≤ n) (hsize : limit * (n + 1) ≤ AdminClient.maxPayload) :
    AdminClient.Readable (linesReport resp default build (AdminClient.limited op token limit)) := by
  have hanswer : linesReport resp default build (AdminClient.limited op token limit) =
      .ok (resp.set (bytes "payload_size") (decimal (listing (build limit)).length),
        listing (build limit)) := by
    unfold linesReport
    rw [numberOf_limited op token default hlimit]
  exact ⟨_, _, hanswer, (length_listing_le hline hcount).trans hsize⟩

namespace AuditService

theorem tailLogs_spec (file : Bytes) {limit : Nat} (h : 0 < limit) :
    (tailLogs file limit).length ≤ limit ∧ ∀ l ∈ tailLogs file limit, l ∈ lines file := by
  refine List.foldlRecOn (motive := fun buffer : List Bytes =>
    buffer.length ≤ limit ∧ ∀ l ∈ buffer, l ∈ lines file) (lines file) (tailStep limit)
    ⟨Nat.zero_le _, by simp⟩ fun buffer hb line hline => ?_
  obtain ⟨hlen, hmem⟩ := hb
  have hnew : ∀ l ∈ buffer ++ [line], l ∈ lines file := by
    intro l hl
    rcases List.mem_append.mp hl with hl | hl
    · exact hmem l hl
    · exact List.mem_singleton.mp hl ▸ hline
  unfold tailStep
  dsimp only
  split
  · exact ⟨hlen, hmem⟩
  split
  · refine ⟨?_, fun l hl => hnew l (List.mem_of_mem_drop hl)⟩
    rw [List.length_drop, List.length_append, List.length_singleton]
    omega
  · rename_i hfew
    exact ⟨by omega, hnew⟩

theorem getAlertsSince_spec (file : Bytes) (sinceId : Nat) {limit : Nat} (h : 0 < limit) :
    (getAlertsSince file sinceId limit).length ≤ limit ∧
    ∀ a ∈ getAlertsSince file sinceId limit, a ∈ alertsOf file := by
  unfold getAlertsSince
  dsimp only
  split
  · refine ⟨?_, fun a ha => List.mem_of_mem_filter (List.mem_of_mem_drop ha)⟩
    rw [List.length_drop]
    omega
  · rename_i hfew
    exact ⟨by omega, fun a ha => List.mem_of_mem_filter ha⟩

theorem stoull_lt {s : Bytes} {n : Nat} (h : stoull s = some n) : n < 2 ^ 64 := by
  unfold stoull at h
  dsimp only at h
  split at h
  · cases h
  split at h
  · cases h
  · rename_i hlt
    have hn := Option.some.inj h
    split at hn
    · exact hn ▸ Nat.mod_lt _ (by decide)
    · omega

theorem stoll_range {s : Bytes} {n : Int} (h : stoll s = some n) : Int64Range n := by
  unfold stoll at h
  dsimp only at h
  rw [Option.ite_none_left_eq_some, Option.ite_none_right_eq_some] at h
  obtain ⟨-, hr, he⟩ := h
  exact Option.some.inj he ▸ hr

theorem splitAt?_length {c : UInt8} {s p rest : Bytes} (h : splitAt? c s = some (p, rest)) :
    s.length = p.length + rest.length + 1 := by
  rw [(splitAt?_eq h).1, List.length_append, List.length_cons, Nat.add_assoc]

/-- Both numbers of an alert may be written longer than they were read. -/
theorem length_format_le {line : Bytes} {alert : AlertRecord} (h : parseAlertLine line = some alert) :
    (formatAlertLine alert).length ≤ line.length + 40 := by
  simp only [parseAlertLine, Option.bind_eq_bind, Option.bind_eq_some_iff] at h
  obtain ⟨⟨id, rest⟩, h₁, ⟨ts, rest₂⟩, h₂, ⟨kind, rest₃⟩, h₃, ⟨username, detail⟩, h₄, n, hn, t, ht, he⟩ := h
  cases he
  have hid := length_decimal_word (stoull_lt hn)
  have hts := length_decimalInt (stoll_range ht)
  have hl₁ := splitAt?_length h₁
  have hl₂ := splitAt?_length h₂
  have hl₃ := splitAt?_length h₃
  have hl₄ := splitAt?_length h₄
  simp only [formatAlertLine, joined_cons_cons, joined_singleton, List.length_append,
    List.length_cons] at hl₁ hl₂ hl₃ hl₄ ⊢
  omega

end AuditService

theorem readable_alerts {file token : Bytes} {sinceId limit n : Nat} (hs : sinceId < 2 ^ 64)
    (hl : limit < 2 ^ 64) (hpos : 0 < limit)
    (hline : ∀ a ∈ AuditService.alertsOf file, (AuditService.formatAlertLine a).length ≤ n)
    (hsize : limit * (n + 1) ≤ AdminClient.maxPayload) :
    AdminClient.Readable (adminGetAlerts file (AdminClient.alertsRequest token sinceId limit)) := by
  have hsince : numberOf (AdminClient.alertsRequest token sinceId limit) (bytes "since_id") 0 =
      some sinceId := by
    rw [AdminClient.alertsRequest, numberOf_set _ _ _ _ hl, if_neg (by decide), numberOf_set _ _ _ _ hs,
      if_pos rfl]
  have hlimit : numberOf (AdminClient.alertsRequest token sinceId limit) (bytes "limit") 100 =
      some limit := by
    rw [AdminClient.alertsRequest, numberOf_set _ _ _ _ hl, if_pos rfl]
  obtain ⟨hcount, hmem⟩ := AuditService.getAlertsSince_spec file sinceId hpos
  unfold adminGetAlerts
  rw [hsince, hlimit]
  refine ⟨_, _, rfl, ?_⟩
  have htext (alerts : List AlertRecord) :
      alertsText alerts = listing (alerts.map AuditService.formatAlertLine) :=
    (List.flatMap_map AuditService.formatAlertLine (fun l => l ++ [lf]) alerts).symm
  rw [htext]
  refine (length_listing_le (fun l hl => ?_) (by rw [List.length_map]; exact hcount)).trans hsize
  obtain ⟨a, ha, rfl⟩ := List.mem_map.mp hl
  exact hline a (hmem a ha)

namespace SecurityMonitor

theorem dumpStats_spec (es : List Entry) {limit : Nat} (h : 0 < limit) :
    (dumpStats es limit).length ≤ limit ∧ ∀ l ∈ dumpStats es limit, ∃ e ∈ es, l = statsLine e := by
  have hmem : ∀ l ∈ es.map statsLine, ∃ e ∈ es, l = statsLine e := by
    intro l hl
    obtain ⟨e, he, rfl⟩ := List.mem_map.mp hl
    exact ⟨e, he, rfl⟩
  unfold dumpStats
  dsimp only
  split
  · exact ⟨List.length_take_le _ _, fun l hl => hmem l (List.mem_of_mem_take hl)⟩
  · rename_i hfew
    exact ⟨by omega, hmem⟩

theorem dumpLocks_spec (now : Int) {limit : Nat} : ∀ (es : List Entry) (out : List Bytes),
    out.length < limit → (dumpLocks now limit out es).length ≤ limit ∧
      ∀ l ∈ dumpLocks now limit out es, l ∈ out ∨ ∃ e ∈ es, l = lockLine now e
  | [], out, h => ⟨h.le, fun _ => .inl⟩
  | e :: es, out, h => by
    rw [dumpLocks]
    split
    · obtain ⟨hlen, hmem⟩ := dumpLocks_spec now es out h
      refine ⟨hlen, fun l hl => (hmem l hl).imp_right ?_⟩
      exact fun ⟨e', he', hl⟩ => ⟨e', by simp [he'], hl⟩
    · dsimp only
      have hnew : ∀ l ∈ out ++ [lockLine now e], l ∈ out ∨ ∃ e' ∈ e :: es, l = lockLine now e' := by
        intro l hl
        rcases List.mem_append.mp hl with hl | hl
        · exact .inl hl
        · exact .inr ⟨e, by simp, List.mem_singleton.mp hl⟩
      have hlen : (out ++ [lockLine now e]).length = out.length + 1 := by simp
      split
      · exact ⟨by omega, hnew⟩
      · rename_i hroom
        have hnext : (out ++ [lockLine now e]).length < limit := by omega
        obtain ⟨hrest, hmem⟩ := dumpLocks_spec now es _ hnext
        refine ⟨hrest, fun l hl => ?_⟩
        rcases hmem l hl with hl | ⟨e', he', hl⟩
        · exact hnew l hl
        · exact .inr ⟨e', by simp [he'], hl⟩

end SecurityMonitor

namespace BindingPolicy

theorem bindingLines_spec {limit : Nat} : ∀ (es : List Entry) (n : Nat), n < limit →
    (bindingLines limit n es).length ≤ limit - n ∧ ∀ l ∈ bindingLines limit n es, ∃ e ∈ es, l = bindingLine e
  | [], _, _ => ⟨Nat.zero_le _, by simp [bindingLines]⟩
  | e :: es, n, h => by
    rw [bindingLines]
    split
    · refine ⟨?_, fun l hl => ⟨e, by simp, List.mem_singleton.mp hl⟩⟩
      rw [List.length_singleton]
      omega
    · rename_i hroom
      have hnext : n + 1 < limit := by omega
      obtain ⟨hlen, hmem⟩ := bindingLines_spec es _ hnext
      constructor
      · rw [List.length_cons]
        omega
      · intro l hl
        rcases List.mem_cons.mp hl with rfl | hl
        · exact ⟨e, by simp, rfl⟩
        · obtain ⟨e', he', rfl⟩ := hmem l hl
          exact ⟨e', by simp [he'], rfl⟩

theorem length_bindingLines {limit : Nat} : ∀ (es : List Entry) (n : Nat), n < limit →
    (bindingLines limit n es).length = min (limit - n) es.length
  | [], n, _ => by simp [bindingLines]
  | e :: es, n, h => by
    rw [bindingLines]
    split
    · rw [List.length_singleton, List.length_cons]
      omega
    · have hnext : n + 1 < limit := by omega
      have hrest := length_bindingLines es (n + 1) hnext
      rw [List.length_cons, List.length_cons, hrest]
      omega

end BindingPolicy

end EncoderNext
