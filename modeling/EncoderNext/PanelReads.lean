import EncoderNext.Admission
import EncoderNext.Framing
import EncoderNext.ShortRequests

/-!
# Whether the panel can read its reports

Lines and names are stored before anyone is authenticated, and a report holds hundreds of
them. Headers of a quarter of what the server accepts keep every report within what the
panel reads; a little more, and five hundred of them do not.
-/

namespace EncoderNext

open Program Program.Stateful AuditWorld
open Framing (Clean lookup_parse_clean writable_of_clean)

namespace Server

/-! ## Runs -/

/-- Tables and files after so many requests on either port, whose headers all meet `P`. -/
inductive Reached (cfg : ServerConfig) (kdf : PasswordKdf) (lib : CryptoLibrary) (P : Bytes → Prop) :
    Nat → ServerState → AuditWorld → Prop where
  | start (users : UserStore) : Reached cfg kdf lib P 0 { users := users } {}
  | request {k : Nat} {s s' : ServerState} {w w' : AuditWorld} {stream raw rest : Bytes} {adminOnly : Bool}
      {r : Except Unit Unit} :
      Reached cfg kdf lib P k s w →
      Header.readText cfg.maxHeaderBytes false stream = some (raw, rest) → P raw →
      Runs Answers ((handleRequest cfg kdf lib adminOnly (Header.parse raw)).go s) w (r, s') w' →
      Reached cfg kdf lib P (k + 1) s' w'

structure PanelReads (s : ServerState) (w : AuditWorld) : Prop where
  alerts (token : Bytes) {sinceId : Nat} (h : sinceId < 2 ^ 64) :
    AdminClient.Readable (adminGetAlerts (listing w.alerts) (AdminClient.alertsRequest token sinceId 200))
  logs (token : Bytes) : AdminClient.Readable
    (adminGetLogs (listing w.log) (AdminClient.limited (bytes "admin_get_logs") token 200))
  stats (token : Bytes) {es : List SecurityMonitor.Entry} (h : es.Perm s.stats.entries) :
    AdminClient.Readable
      (adminGetStats es (AdminClient.limited (bytes "admin_get_stats") token 200))
  locks (token : Bytes) {es : List SecurityMonitor.Entry} (h : es.Perm s.stats.entries) {now : Int}
    (hnow : Clock now) : AdminClient.Readable
      (adminGetLocks now es (AdminClient.limited (bytes "admin_get_locks") token 200))
  binding (token : Bytes) {es : List BindingPolicy.Entry} (h : es.Perm s.policy.clients.entries) :
    AdminClient.Readable
      (adminGetBinding s.policy.enabled es (AdminClient.limited (bytes "admin_get_binding") token 500))

/-! ## The lines of a report -/

theorem lines_append_le (rest : Bytes) : ∀ a : Bytes, ∃ l ls, lines (a ++ lf :: rest) = l :: ls ∧
    l.length ≤ a.length ∧ ∀ l' ∈ ls, l'.length ≤ a.length ∨ l' ∈ lines rest
  | [] => ⟨[], lines rest, rfl, le_rfl, fun _ => .inr⟩
  | c :: a => by
    obtain ⟨l, ls, hl, hlen, hls⟩ := lines_append_le rest a
    have hlonger : ∀ l' ∈ ls, l'.length ≤ (c :: a).length ∨ l' ∈ lines rest := fun l' hl' =>
      (hls l' hl').imp_left fun hshort => hshort.trans (Nat.le_succ _)
    rw [List.cons_append, lines, hl]
    split
    · refine ⟨[], l :: ls, rfl, Nat.zero_le _, fun l' hl' => ?_⟩
      rcases List.mem_cons.mp hl' with rfl | hl'
      · exact .inl (hlen.trans (Nat.le_succ _))
      · exact hlonger l' hl'
    · exact ⟨c :: l, ls, rfl, Nat.succ_le_succ hlen, hlonger⟩

theorem length_lines_listing {n : Nat} : ∀ {ls : List Bytes}, (∀ l ∈ ls, l.length ≤ n) →
    ∀ l ∈ lines (listing ls), l.length ≤ n
  | [], _, l, hl => by cases hl
  | first :: ls, h, l, hl => by
    have hrest := length_lines_listing fun l hl => h l (List.mem_cons_of_mem _ hl)
    have hfirst := h first List.mem_cons_self
    have htext : listing (first :: ls) = first ++ lf :: listing ls := by simp [listing]
    obtain ⟨l₀, ls₀, he, hl₀, hls₀⟩ := lines_append_le (listing ls) first
    rw [htext, he] at hl
    rcases List.mem_cons.mp hl with rfl | hl
    · exact hl₀.trans hfirst
    · rcases hls₀ l hl with hshort | hl
      · exact hshort.trans hfirst
      · exact hrest l hl

theorem length_joined_le (d : UInt8) {n : Nat} : ∀ {ps : List Bytes}, (∀ p ∈ ps, p.length ≤ n) →
    (joined d ps).length ≤ ps.length * (n + 1)
  | [], _ => Nat.zero_le _
  | [p], h => by
    have hp := h p List.mem_cons_self
    rw [joined_singleton, List.length_singleton, Nat.one_mul]
    omega
  | p :: q :: ps, h => by
    have hp := h p List.mem_cons_self
    have hrest := length_joined_le d fun p hp => h p (List.mem_cons_of_mem _ hp)
    rw [joined_cons_cons, List.length_append, List.length_cons, List.length_cons, Nat.succ_mul]
    omega

theorem length_hoursText (hours : Vector UInt32 24) : (SecurityMonitor.hoursText hours).length ≤ 264 := by
  have hparts : ∀ p ∈ hours.toList.map fun n => decimal n.toNat, p.length ≤ 10 := by
    intro p hp
    obtain ⟨n, -, rfl⟩ := List.mem_map.mp hp
    exact length_decimal_count n
  have hlen := length_joined_le (byte ',') hparts
  rw [List.length_map, Vector.length_toList] at hlen
  exact hlen

theorem lookup_of_walk {α : Type} {table : Table α} {es : List (Sigma fun _ : Bytes => α)}
    (h : es.Perm table.entries) {e : Sigma fun _ : Bytes => α} (he : e ∈ es) :
    table.lookup e.1 = some e.2 :=
  List.mem_dlookup table.nodupKeys (h.mem_iff.mp he)

section
variable {n : Nat} {s : ServerState} {w : AuditWorld} (h : Small n s w)
include h

theorem length_statsLine {es : List SecurityMonitor.Entry} (hes : es.Perm s.stats.entries) :
    ∀ e ∈ es, (SecurityMonitor.statsLine e).length ≤ shortHeader + 300 := by
  intro e he
  obtain ⟨hname, hsmall⟩ := h.stats e.1 e.2 (lookup_of_walk hes he)
  have hlogins := length_decimal_count e.2.totalLogins
  have hhours := length_hoursText e.2.hourCounts
  have huntil := hsmall.locked
  have hlock : (decimalInt e.2.lockUntilTs).length ≤ 20 := by
    refine length_decimalInt ?_
    unfold Int64Range
    omega
  simp only [SecurityMonitor.statsLine, joined_cons_cons, joined_singleton, List.length_append, List.length_cons]
  omega

theorem length_lockLine {es : List SecurityMonitor.Entry} (hes : es.Perm s.stats.entries) {now : Int}
    (hnow : Clock now) : ∀ e ∈ es, (SecurityMonitor.lockLine now e).length ≤ shortHeader + 300 := by
  intro e he
  obtain ⟨hname, hsmall⟩ := h.stats e.1 e.2 (lookup_of_walk hes he)
  have huntil := hsmall.locked
  unfold Clock at hnow
  have hlock : (decimalInt e.2.lockUntilTs).length ≤ 20 := by
    refine length_decimalInt ?_
    unfold Int64Range
    omega
  have hleft : (decimalInt (e.2.lockUntilTs - now)).length ≤ 20 := by
    refine length_decimalInt ?_
    unfold Int64Range
    omega
  simp only [SecurityMonitor.lockLine, joined_cons_cons, joined_singleton, List.length_append, List.length_cons]
  omega

theorem length_bindingLine {es : List BindingPolicy.Entry} (hes : es.Perm s.policy.clients.entries) :
    ∀ e ∈ es, (BindingPolicy.bindingLine e).length ≤ shortHeader + 60 := by
  intro e he
  obtain ⟨hlen, hfirst, hlast⟩ := h.clients e.1 e.2 (lookup_of_walk hes he)
  have hflag : (BindingPolicy.flagText e.2.allowed).length = 1 := by
    cases e.2.allowed <;> simp [BindingPolicy.flagText, bytes]
  have h₁ := length_decimalInt hfirst
  have h₂ := length_decimalInt hlast
  simp only [BindingPolicy.bindingLine, joined_cons_cons, joined_singleton, List.length_append,
    List.length_cons]
  omega

/-- Eight mebibytes hold two hundred lines of a file, and five hundred clients. -/
theorem Small.reads : PanelReads s w where
  alerts token sinceId hs := by
    have hparsed : ∀ a ∈ AuditService.alertsOf (listing w.alerts),
        (AuditService.formatAlertLine a).length ≤ 33840 := by
      intro a ha
      obtain ⟨line, hline, hread⟩ := List.mem_filterMap.mp ha
      have := length_lines_listing h.files.alerts line hline
      have := AuditService.length_format_le hread
      omega
    exact readable_alerts hs (by decide) (by decide) hparsed (by decide)
  logs token := by
    obtain ⟨hcount, hmem⟩ := AuditService.tailLogs_spec (listing w.log) (show 0 < 200 by decide)
    exact readable_lines (by decide) hcount
      (fun l hl => length_lines_listing h.files.log l (hmem l hl)) (by decide)
  stats token es hes := by
    obtain ⟨hcount, hmem⟩ := SecurityMonitor.dumpStats_spec es (show 0 < 200 by decide)
    refine readable_lines (by decide) hcount (fun l hl => ?_) (show 200 * (shortHeader + 300 + 1) ≤ _ by decide)
    obtain ⟨e, he, rfl⟩ := hmem l hl
    exact length_statsLine h hes e he
  locks token es hes now hnow := by
    obtain ⟨hcount, hmem⟩ := SecurityMonitor.dumpLocks_spec now es [] (show 0 < 200 by decide)
    refine readable_lines (by decide) hcount (fun l hl => ?_) (show 200 * (shortHeader + 300 + 1) ≤ _ by decide)
    rcases hmem l hl with hl | ⟨e, he, rfl⟩
    · cases hl
    · exact length_lockLine h hes hnow e he
  binding token es hes := by
    obtain ⟨hcount, hmem⟩ := BindingPolicy.bindingLines_spec es 0 (show 0 < 500 by decide)
    refine readable_lines (by decide) hcount (fun l hl => ?_) (show 500 * (shortHeader + 60 + 1) ≤ _ by decide)
    obtain ⟨e, he, rfl⟩ := hmem l hl
    exact length_bindingLine h hes e he

end

/-! ## Short headers -/

/-- A header of at most a quarter of what the server accepts, with a file name that has no
zero byte. -/
def ShortText (cfg : ServerConfig) (raw : Bytes) : Prop :=
  raw.length ≤ shortHeader ∧ 0 ∉ hashPath cfg ((Header.parse raw).get (bytes "file_id"))

section
variable {cfg : ServerConfig} {kdf : PasswordKdf} {lib : CryptoLibrary} {k : Nat} {s : ServerState}
  {w : AuditWorld}

theorem reached_small (hcfg : cfg.monitor.Loaded) (hlib : ShortDigests lib)
    (h : Reached cfg kdf lib (ShortText cfg) k s w) (hk : k < 2 ^ 63) : Small (2 * k) s w := by
  induction h with
  | start users =>
    refine ⟨fun who stats hl => ?_, fun id rec hl => ?_, ⟨nofun, nofun, nofun⟩⟩
    · rw [AList.lookup_empty] at hl
      cases hl
    · rw [AList.lookup_empty] at hl
      cases hl
  | request _ hread hraw hrun ih =>
    have hreq : ShortRequest cfg (Header.parse _) := ⟨(Header.size_parse_le _).trans hraw.1, hraw.2⟩
    have hend := runs_of_wp (handleRequest_small hreq hlib hcfg (by omega) _ (ih (by omega))) hrun
    rename_i r _
    cases r with
    | ok a => exact hend
    | error e => exact hend

/-- **The panel reads what short requests leave.** -/
theorem panel_reads_short (hcfg : cfg.monitor.Loaded) (hlib : ShortDigests lib)
    (h : Reached cfg kdf lib (ShortText cfg) k s w) (hk : k < 2 ^ 63) : PanelReads s w :=
  (reached_small hcfg hlib h hk).reads

end

/-! ## Long names -/

def clientRequest (id : Bytes) : Header :=
  (Header.set {} (bytes "op") (bytes "auth_check")).set (bytes "client_id") id

def clientText (id : Bytes) : Bytes := (clientRequest id).serialize Iteration.stored

structure Knows (ids : List Bytes) (s : ServerState) : Prop where
  enabled : s.policy.enabled = false
  clients : ∀ id, id ∈ s.policy.clients ↔ id ∈ ids

section
variable {cfg : ServerConfig} {kdf : PasswordKdf} {lib : CryptoLibrary} {k : Nat} {s : ServerState}
  {w : AuditWorld} {ids : List Bytes}

theorem knows_registered (h : Knows ids s) (id label : Bytes) (now : Int) :
    Knows (id :: ids) { s with policy := s.policy.registered id label now } := by
  refine ⟨h.enabled, fun id' => ?_⟩
  unfold BindingPolicy.registered
  rw [AList.mem_insert, List.mem_cons, h.clients]

theorem endures_knows : Endures Answers (fun _ => True) (fun s _ => Knows ids s) (fun s _ => Knows ids s)
    fun _ => True :=
  ⟨fun h _ _ => h, fun h _ => h, fun _ => trivial, fun _ => trivial⟩

theorem onStats_knows {E : Unit → ServerState → AuditWorld → Prop}
    (f : Table UserStats → ServerProgram (Table UserStats)) (h : Knows ids s) :
    wpS Answers (fun _ s' _ => Knows ids s') E (fun _ => True) (onStats f) s w :=
  (wpS_onStats f).mpr (wp_post (wp_true _ w) fun _ _ _ _ => ⟨h.enabled, h.clients⟩)

theorem requireUnlocked_knows (username stage : Bytes) (h : Knows ids s) :
    wpS Answers (fun _ s' _ => Knows ids s') (fun _ s' _ => Knows ids s') (fun _ => True)
      (requireUnlocked username stage 0) s w := by
  have hk := @endures_knows ids
  unfold requireUnlocked
  rw [wpS_state_bind, wpS_bind, wpS_lift]
  refine wp_post (wp_true _ w) fun remaining u _ _ => ?_
  cases remaining with
  | none => exact ⟨trivial, h⟩
  | some remaining =>
    dsimp only
    rw [wpS_bind, discardPayload, wpS_bind]
    refine wpS_post (hk.readExact trivial h) fun _ s₁ u₁ _ h₁ => ⟨trivial, ?_⟩
    dsimp only
    rw [wpS_bind]
    exact wpS_post (hk.perform_ trivial h₁) fun _ _ _ _ h₂ => hk.fail _ h₂

theorem requirePassword_knows (username password op : Bytes) (h : Knows ids s) :
    wpS Answers (fun _ s' _ => Knows ids s') (fun _ s' _ => Knows ids s') (fun _ => True)
      (requirePassword cfg kdf username password op) s w := by
  have hk := @endures_knows ids
  unfold requirePassword
  rw [wpS_state_bind]
  refine wpS_guardOr_last _ () _ (fun _ => ?_) fun _ => ⟨trivial, h⟩
  rw [wpS_bind]
  refine wpS_post (onStats_knows _ h) fun _ s₁ u₁ _ h₁ => ?_
  rw [wpS_bind]
  exact wpS_post (hk.perform_ trivial h₁) fun _ s₂ u₂ _ h₂ => hk.sendError _ h₂

theorem requireClient_knows {req : Header} (username op : Bytes) (h : Knows ids s) :
    wpS Answers (fun _ s' _ => Knows (BindingPolicy.clientIdOf req :: ids) s')
      (fun _ s' _ => Knows (BindingPolicy.clientIdOf req :: ids) s') (fun _ => True)
      (requireClient req username op 0) s w := by
  unfold requireClient enforceClientBinding BindingPolicy.registerClient
  rw [wpS_bind, wpS_bind, wpS_onPolicy, wp_ask_bind]
  refine ⟨trivial, fun (now : Int) u _ => ⟨trivial, fun _ u' _ => ⟨trivial, ?_⟩⟩⟩
  have h₁ := knows_registered h (BindingPolicy.clientIdOf req) (BindingPolicy.clientHostOf req) now
  have hlet : BindingPolicy.isClientAllowed (s.policy.registered (BindingPolicy.clientIdOf req)
      (BindingPolicy.clientHostOf req) now) (BindingPolicy.clientIdOf req) = true := by
    rw [BindingPolicy.isClientAllowed, h₁.enabled]
    rfl
  dsimp only
  rw [wpS_state_bind, if_pos hlet]
  exact ⟨trivial, trivial, h₁⟩

/-- A request about an account makes its client known, whoever sends it. -/
theorem handleAuthCheck_knows {req : Header} (h : Knows ids s) :
    wpS Answers (fun _ s' _ => Knows (BindingPolicy.clientIdOf req :: ids) s')
      (fun _ s' _ => Knows (BindingPolicy.clientIdOf req :: ids) s') (fun _ => True)
      (handleAuthCheck cfg kdf req) s w := by
  have hk := @endures_knows (BindingPolicy.clientIdOf req :: ids)
  unfold handleAuthCheck
  dsimp only
  rw [wpS_bind]
  refine wpS_post (requireClient_knows _ _ h) fun _ s₁ u₁ _ h₁ => ?_
  rw [wpS_bind]
  refine wpS_post (requireUnlocked_knows _ _ h₁) fun _ s₂ u₂ _ h₂ => ?_
  rw [wpS_bind]
  refine wpS_post (requirePassword_knows _ _ _ h₂) fun _ s₃ u₃ _ h₃ => ?_
  rw [wpS_bind]
  refine wpS_post (onStats_knows _ h₃) fun _ s₄ u₄ _ h₄ => ?_
  rw [wpS_bind]
  refine wpS_post (hk.perform_ trivial h₄) fun _ s₅ u₅ _ h₅ => ?_
  rw [wpS_state_bind]
  exact hk.perform_ trivial h₅

theorem answers_checking (w : AuditWorld) (c : ServerCall) (hc : c.Checking) :
    ∃ r u, Answers w c r u := by
  have hnow : Clock 0 := ⟨le_rfl, by decide⟩
  refine ⟨ServerCall.plain 0 c, w, ?_⟩
  cases c with
  | readFile path => exact hc.elim
  | sendData b => exact hc.elim
  | writeFile path b => exact hc.elim
  | writeText path text => exact hc.elim
  | rename source target => exact hc.elim
  | now => exact ⟨hnow, rfl⟩
  | localHour t => exact ⟨le_rfl, show (0 : Int) < 24 by decide, rfl⟩
  | logEvent kind who detail => exact ⟨0, false, hnow, rfl⟩
  | logAlert kind who detail =>
    exact ⟨0, 0, detail, false, false, by decide, hnow, .inl rfl, rfl⟩
  | random n | readHeader n | receive n | sendHeader hd | walk users | saveStats stats
  | savePolicy policy | report op req => exact rfl

theorem trim_plain {value : Bytes} (h : ∀ c ∈ value, isBlank c = false) : trim value = value := by
  have hfront : value.dropWhile isBlank = value := by
    refine List.dropWhile_eq_self_iff.mpr fun hl => ?_
    simp [h _ (List.getElem_mem hl)]
  rw [trim, hfront]
  refine List.rdropWhile_eq_self_iff.mpr fun hl => ?_
  simp [h _ (List.getLast_mem hl)]

theorem clean_client {id : Bytes} (hid : ∀ c ∈ id, isBlank c = false) : Clean (clientRequest id) := by
  intro key value hv
  rw [clientRequest, Header.lookup_set, Header.lookup_set, Header.lookup_empty] at hv
  split at hv
  · rename_i hkey
    cases hv
    rw [hkey]
    exact ⟨by decide, fun hlf => absurd (hid lf hlf) (by decide), trim_plain hid⟩
  · split at hv
    · rename_i hkey
      cases hv
      rw [hkey]
      exact ⟨by decide, by decide, by decide⟩
    · cases hv

theorem get_client {id : Bytes} (hid : ∀ c ∈ id, isBlank c = false) (key : Bytes) :
    (Header.parse (clientText id)).get key = (clientRequest id).get key := by
  unfold Header.get clientText
  rw [lookup_parse_clean (clean_client hid)]

theorem entries_client (id : Bytes) : (clientRequest id).fields.entries =
    [⟨bytes "client_id", id⟩, ⟨bytes "op", bytes "auth_check"⟩] := by
  have hnew : bytes "client_id" ∉ (Header.set {} (bytes "op") (bytes "auth_check")).fields := by
    decide
  rw [clientRequest, Header.set, AList.entries_insert_of_notMem hnew]
  rfl

theorem length_clientText (id : Bytes) : (clientText id).length = id.length + 28 := by
  have hkeys : (bytes "client_id").length = 9 ∧ (bytes "op").length = 2 ∧
      (bytes "auth_check").length = 10 ∧ (bytes ": ").length = 2 := by decide
  simp only [clientText, Header.serialize, Iteration.stored, entries_client, Header.line, id_eq,
    List.flatMap_cons, List.flatMap_nil, List.length_append, List.length_cons, List.length_nil]
  omega

theorem readText_client {id : Bytes} (hid : ∀ c ∈ id, isBlank c = false) {max : Nat}
    (hlen : (clientText id).length < max) :
    Header.readText max false (clientText id) = some (clientText id, []) := by
  have hw := writable_of_clean (clean_client hid)
  have hread := Header.readText_lines (Header.lineOk_order hw Iteration.stored)
    (by simp [Iteration.stored, entries_client]) [] max
  unfold clientText at hlen ⊢
  rw [← Header.serialize_eq, List.append_nil, if_pos hlen] at hread
  exact hread

theorem handleRequest_authCheck {req : Header} (h : req.get (bytes "op") = bytes "auth_check") :
    handleRequest cfg kdf lib false req = handleAuthCheck cfg kdf req := by
  unfold handleRequest
  dsimp only
  rw [h, if_neg (by decide), if_neg (by decide), if_neg (by decide),
    if_neg (by decide), if_neg (by decide), if_pos rfl]

theorem reached_client {P : Bytes → Prop} (h : Reached cfg kdf lib P k s w) (hs : Knows ids s) {id : Bytes}
    (hid : ∀ c ∈ id, isBlank c = false) (hne : id ≠ []) (hraw : P (clientText id))
    (hlen : (clientText id).length < cfg.maxHeaderBytes) :
    ∃ s' w', Reached cfg kdf lib P (k + 1) s' w' ∧ Knows (id :: ids) s' := by
  let req := Header.parse (clientText id)
  have hop : req.get (bytes "op") = bytes "auth_check" := by
    rw [get_client hid, clientRequest, Header.get_set, if_neg (by decide), Header.get_set_self]
  have hname : BindingPolicy.clientIdOf req = id := by
    rw [BindingPolicy.clientIdOf, get_client hid, clientRequest, Header.get_set_self, if_neg hne]
  have hrequest : handleRequest cfg kdf lib false req = handleAuthCheck cfg kdf req :=
    handleRequest_authCheck hop
  obtain ⟨⟨r, s'⟩, w', hrun⟩ := exists_runs answers_checking w
    (handleAuthCheck_uses (fun _ hc => hc) cfg kdf req s)
  have hend := runs_of_wp (handleAuthCheck_knows hs) hrun
  rw [hname] at hend
  rw [← hrequest] at hrun
  refine ⟨s', w', .request h (readText_client hid hlen) hraw hrun, ?_⟩
  cases r with
  | ok a => exact hend
  | error e => exact hend

theorem reached_clients {P : Bytes → Prop} : ∀ {ids : List Bytes}, (∀ id ∈ ids, id ≠ [] ∧
      (∀ c ∈ id, isBlank c = false) ∧ P (clientText id) ∧ (clientText id).length < cfg.maxHeaderBytes) →
    ∃ s w, Reached cfg kdf lib P ids.length s w ∧ Knows ids s
  | [], _ => ⟨_, _, .start ∅, rfl, fun id => by simp [AList.notMem_empty]⟩
  | id :: ids, h => by
    obtain ⟨s, w, hr, hs⟩ := reached_clients fun id' hid' => h id' (List.mem_cons_of_mem id hid')
    obtain ⟨hne, hid, hraw, hlen⟩ := h id List.mem_cons_self
    exact reached_client hr hs hid hne hraw hlen

/-- Five hundred names of such a length fill more than eight mebibytes. -/
theorem not_panelReads (hs : Knows ids s) (hn : ids.Nodup) (hcount : 500 ≤ ids.length)
    (hlong : ∀ id ∈ ids, 16800 ≤ id.length) : ¬PanelReads s w := by
  intro h
  obtain ⟨resp, payload, he, hsize⟩ := h.binding [] (List.Perm.refl _)
  unfold adminGetBinding linesReport at he
  rw [numberOf_limited _ _ _ (by decide)] at he
  cases he
  have hknown : 500 ≤ s.policy.clients.entries.length := by
    have hsub : ids ⊆ s.policy.clients.keys := fun id hid => (hs.clients id).mpr hid
    have hkeys := (hn.subperm hsub).length_le
    rw [AList.keys, List.keys, List.length_map] at hkeys
    exact hcount.trans hkeys
  have hlines : ∀ l ∈ BindingPolicy.bindingLines 500 0 s.policy.clients.entries, 16800 ≤ l.length := by
    intro l hl
    obtain ⟨e, he, rfl⟩ := (BindingPolicy.bindingLines_spec _ 0 (show 0 < 500 by decide)).2 l hl
    have hid := hlong e.1 ((hs.clients e.1).mp (List.mem_map_of_mem he))
    simp only [BindingPolicy.bindingLine, joined_cons_cons, joined_singleton, List.length_append,
      List.length_cons]
    omega
  have hfull := le_length_listing hlines
  rw [BindingPolicy.length_bindingLines _ 0 (by decide), Nat.min_eq_left hknown] at hfull
  dsimp only at hsize
  have hover : AdminClient.maxPayload < 500 * (16800 + 1) := by decide
  omega

end

def longName (i : Nat) : Bytes := List.replicate i (byte 'a') ++ List.replicate (16800 - i) (byte 'b')

theorem length_longName {i : Nat} (h : i < 500) : (longName i).length = 16800 := by
  rw [longName, List.length_append, List.length_replicate, List.length_replicate]
  omega

theorem longName_plain (i : Nat) : ∀ c ∈ longName i, isBlank c = false := by
  intro c hc
  rcases List.mem_append.mp hc with hc | hc
  · rw [List.eq_of_mem_replicate hc]
    decide
  · rw [List.eq_of_mem_replicate hc]
    decide

theorem nodup_longNames : ((List.range 500).map longName).Nodup := by
  refine List.nodup_range.map fun i j hij => ?_
  have hcount := congrArg (List.count (byte 'a')) hij
  have hother : byte 'b' ≠ byte 'a' := by decide
  simpa [longName, List.count_replicate, hother] using hcount

/-- Nobody has to be logged in for it. -/
theorem panel_unread_flood : ∃ s w, Reached fileConfig zeroKdf copyLibrary
    (fun raw => ∃ i < 500, raw = clientText (longName i)) 500 s w ∧ ¬PanelReads s w := by
  have hnames : ∀ id ∈ (List.range 500).map longName, ∃ i < 500, id = longName i := by
    intro id hid
    obtain ⟨i, hi, rfl⟩ := List.mem_map.mp hid
    exact ⟨i, List.mem_range.mp hi, rfl⟩
  have hrun : ∃ s w, Reached fileConfig zeroKdf copyLibrary
      (fun raw => ∃ i < 500, raw = clientText (longName i)) ((List.range 500).map longName).length s w ∧
      Knows ((List.range 500).map longName) s := by
    refine reached_clients fun id hid => ?_
    obtain ⟨i, hi, rfl⟩ := hnames id hid
    have hlen := length_longName hi
    refine ⟨fun hnil => ?_, longName_plain i, ⟨i, hi, rfl⟩, ?_⟩
    · rw [hnil] at hlen
      cases hlen
    · rw [length_clientText, hlen]
      decide
  rw [List.length_map, List.length_range] at hrun
  obtain ⟨s, w, hr, hs⟩ := hrun
  refine ⟨s, w, hr, not_panelReads hs nodup_longNames ?_ fun id hid => ?_⟩
  · rw [List.length_map, List.length_range]
  · obtain ⟨i, hi, rfl⟩ := hnames id hid
    exact (length_longName hi).ge

theorem panel_reads_desk : ∃ s w, Reached fileConfig zeroKdf copyLibrary (ShortText fileConfig) 1 s w ∧
    PanelReads s w := by
  have hcfg : fileConfig.monitor.Loaded := by constructor <;> exact ⟨by decide, by decide⟩
  have hlib : ShortDigests copyLibrary := by
    intro alg digest h
    cases alg with
    | sha256 => cases h; decide
    | sha512 => cases h; decide
    | streebog => cases h; decide
    | sha3_256 | sha3_512 | blake2b_512 => cases h
  have hrun : ∃ s w, Reached fileConfig zeroKdf copyLibrary (ShortText fileConfig) [bytes "desk"].length s w ∧
      Knows [bytes "desk"] s := by
    refine reached_clients fun id hid => ?_
    rw [List.mem_singleton.mp hid]
    have hplain : ∀ c ∈ bytes "desk", isBlank c = false := by decide +kernel
    refine ⟨by decide, hplain, ⟨by rw [length_clientText]; decide, ?_⟩, by rw [length_clientText]; decide⟩
    rw [get_client hplain]
    decide
  obtain ⟨s, w, hr, -⟩ := hrun
  exact ⟨s, w, hr, panel_reads_short hcfg hlib hr (by decide)⟩

end Server

end EncoderNext
