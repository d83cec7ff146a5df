import EncoderNext.PanelReads
import EncoderNext.RpcContract

/-!
# The panel and the helper

The panel writes packets for the Wi-Fi helper, the server hands them on, and the panel
reads the helper's word off the answer. Both sides spell the packets and the words on
their own.
-/

namespace EncoderNext

open Program Framing WifiRpc

/-! ## The panel -/

inductive WifiConnectAction where
  | start
  | status
  | confirm
  | cancel
  deriving DecidableEq

inductive WifiConnectState where
  | connecting
  | awaitingConfirmation
  | committed
  | rolledBack
  | recoveryRequired
  | rejected
  deriving DecidableEq

structure WifiConnectReply where
  ok : Bool := false
  state : WifiConnectState := .connecting
  deriving DecidableEq

namespace AdminWindow

def prefixOf (action : WifiConnectAction) : Bytes :=
  if action = .confirm then bytes "confirm|"
  else if action = .cancel then bytes "cancel|"
  else bytes "status|"

/-- The packet of an action, under the ticket held so far; some actions fail before any is sent. -/
def packetOf (ticket : Bytes) (profile : Option WifiProfile) (action : WifiConnectAction) : Option Bytes :=
  if action = .start then
    match profile with
    | none => none
    | some profile =>
      if profile.psk.length ≠ 32 ∨ ticket ≠ [] then none
      else some (bytes "start|" ++ profile.ssidHex ++ bytes "|" ++ toHex profile.psk)
  else if ticket.length ≠ 64 then none
  else some (prefixOf action ++ ticket)

def wifiQuery (packet : Bytes) : Header :=
  (Header.set {} (bytes "op") (bytes "admin_wifi_change")).set (bytes "wifi_packet") packet

def replyNamed (payload : Bytes) : WifiConnectReply :=
  if payload = bytes "connecting" then ⟨true, .connecting⟩
  else if payload = bytes "ready" then ⟨true, .awaitingConfirmation⟩
  else if payload = bytes "committed" then ⟨true, .committed⟩
  else if payload = bytes "rolled_back" then ⟨true, .rolledBack⟩
  else if payload = bytes "recovery_required" then ⟨true, .recoveryRequired⟩
  else if payload = bytes "rejected" then ⟨true, .rejected⟩
  else {}

def understand (action : WifiConnectAction) (ticket : Bytes) :
    Except Bytes Bytes → WifiConnectReply × Bytes
  | .error error =>
    if error = bytes "Wi-Fi change disabled or requires Ethernet admin connection" ∨
        error = bytes "Unauthorized" then
      (⟨true, .rejected⟩, ticket)
    else ({}, ticket)
  | .ok payload =>
    if action = .start ∧ payload.length = 75 ∧ bytes "connecting|" <+: payload then
      if (payload.drop 11).all isHexDigit then (⟨true, .connecting⟩, payload.drop 11) else ({}, ticket)
    else (replyNamed payload, ticket)

end AdminWindow

namespace AdminClient

def userRequest (token : Line) (request : Header) : Header := request.set (bytes "admin_token") token

def userAnswer (stream : Bytes) : Except Bytes Bytes :=
  match Header.read 65536 stream with
  | none => .error (bytes "Failed to read response")
  | some (resp, rest) =>
    match numberOf resp (bytes "payload_size") 0 with
    | none => .error (bytes "Invalid payload_size")
    | some size =>
      if size > maxPayload then .error (bytes "Administrative response exceeds 8 MiB limit")
      else if rest.length < size then .error (bytes "Failed to read payload")
      else if resp.get (bytes "status") ≠ bytes "ok" then
        .error (resp.get (bytes "message") (bytes "Server error"))
      else .ok (rest.take size)

end AdminClient

/-! ## The server -/

namespace WifiIpc

/-- Both ends of the helper's socket take packets of one to 1024 bytes. -/
def passes (packet : Bytes) : Bool := packet != [] && packet.length ≤ 1024

def requestWifiChange (exchange : Bytes → Option Bytes) (packet : Bytes) : Option Bytes :=
  if passes packet then exchange packet else none

def serveWifiChangePacket (response : Bytes) : Option Bytes :=
  if passes response then some response else none

end WifiIpc

namespace Server

def wifiAnswer : Option Bytes → Except Bytes (Header × Bytes)
  | none => .error (bytes "Wi-Fi helper unavailable; operation outcome unknown")
  | some payload =>
    .ok (okHeader.set (bytes "payload_size") (decimal payload.length), payload)

def adminWifiChange (adminOnly enabled recoveryPath : Bool) (exchange : Bytes → Option Bytes)
    (req : Header) : Except Bytes (Header × Bytes) :=
  if !adminOnly || !enabled || !recoveryPath then
    .error (bytes "Wi-Fi change disabled or requires Ethernet admin connection")
  else
    let packet := req.get (bytes "wifi_packet")
    if packet = [] ∨ packet.length > 256 then .error (bytes "Invalid Wi-Fi request")
    else wifiAnswer (WifiIpc.requestWifiChange exchange packet)

def answerStream (it : Iteration) : Except Bytes (Header × Bytes) → Bytes
  | .error message => (errorHeader message).serialize it
  | .ok (resp, payload) => resp.serialize it ++ payload

end Server

/-! ## The helper -/

namespace WifiRpc

def startWith (rpc : WifiRpc) (profile : WifiProfile) : WifiProgram (Bytes × WifiRpc) :=
  if (rpc.session.any fun s => !s.finished) = true then return (rejected, rpc)
  else do
    match rpc.session with
    | some s => let _ ← s.change.destroy
    | none => pure ()
    openSession profile

/-- The packets of an action, whatever they carry. -/
inductive Asks : WifiConnectAction → Bytes → Prop where
  | start (ssidHex pskHex : Bytes) : Asks .start (startPacket ssidHex pskHex)
  | ticketed {action : WifiConnectAction} (ticket : Bytes) : action ≠ .start →
      Asks action (AdminWindow.prefixOf action ++ ticket)

end WifiRpc

/-! ## From the panel to the helper -/

namespace WifiRpc

theorem digit_hexDigit : ∀ c : UInt8, digit (hexDigit (c >>> 4)) = c >>> 4 ∧
    digit (hexDigit (c &&& 15)) = c &&& 15 :=
  forall_byte (by decide +kernel)

theorem decodeHex_toHex : ∀ bs : Bytes, decodeHex (toHex bs) = bs
  | [] => rfl
  | c :: bs => by
    rw [toHex, decodeHex, (digit_hexDigit c).1, (digit_hexDigit c).2, join_halves, decodeHex_toHex bs]

theorem hex_toHex {bs : Bytes} {min max : Nat} (hmin : min ≤ 2 * bs.length) (hmax : 2 * bs.length ≤ max) :
    hex (toHex bs) min max = true := by
  simp only [hex, length_toHex, toHex_all, Bool.and_true, Bool.and_eq_true, decide_eq_true_eq,
    beq_iff_eq]
  omega

theorem plain_of_hex : ∀ c : UInt8, isHexDigit c = true → isBlank c = false :=
  forall_byte (by decide +kernel)

theorem startPacket_plain {ssidHex pskHex : Bytes} (hs : hex ssidHex 2 64 = true)
    (hp : hex pskHex 64 64 = true) : ∀ c ∈ startPacket ssidHex pskHex, isBlank c = false := by
  have hdigits : ∀ {text : Bytes} {min max : Nat}, hex text min max = true →
      ∀ c ∈ text, isBlank c = false := by
    intro text min max h c hc
    simp only [hex, Bool.and_eq_true, List.all_eq_true] at h
    exact plain_of_hex c (h.2 c hc)
  have hbar : isBlank (byte '|') = false := by decide
  have hstart : ∀ c ∈ bytes "start", isBlank c = false := by decide +kernel
  intro c hc
  simp only [startPacket, List.mem_append, List.mem_cons] at hc
  rcases hc with hc | rfl | hc | rfl | hc
  · exact hstart c hc
  · exact hbar
  · exact hdigits hs c hc
  · exact hbar
  · exact hdigits hp c hc

theorem handle_start {profile : WifiProfile} {ssidHex pskHex : Bytes} (kdf : Pbkdf2) (rpc : WifiRpc)
    (hs : hex ssidHex 2 64 = true) (hp : hex pskHex 64 64 = true)
    (hmake : WifiProfile.make kdf (decodeHex ssidHex) pskHex = .ok profile) :
    rpc.handle kdf (startPacket ssidHex pskHex) = startWith rpc profile := by
  rw [handle_startPacket kdf rpc hs hp]
  unfold handleStart startWith
  cases rpc.session <;> simp only [hs, hp, not_true_eq_false, or_false, hmake]

end WifiRpc

namespace Header

theorem length_serialize_set {h : Header} {key : Bytes} (hnew : h.fields.lookup key = none)
    (value : Bytes) (it : Iteration) :
    ((h.set key value).serialize it).length = (h.serialize it).length + (key.length + value.length + 3) := by
  have hwalk (h : Header) : (h.serialize it).length =
      (h.fields.entries.flatMap fun f => line f ++ [lf]).length + 1 := by
    rw [serialize, List.length_append, List.length_singleton,
      ((it.perm h.fields.entries).flatMap_right _).length_eq]
  have hline : (line ⟨key, value⟩).length = key.length + 2 + value.length := by
    rw [line, List.length_append, List.length_append]
    rfl
  rw [hwalk, hwalk, set, AList.entries_insert_of_notMem (AList.lookup_eq_none.mp hnew), List.flatMap_cons, List.length_append,
    List.length_append, List.length_singleton, hline]
  omega

theorem entries_set_ne_nil (h : Header) (key value : Bytes) : (h.set key value).fields.entries ≠ [] := by
  intro hnil
  have hmem : key ∈ (h.set key value).fields := (AList.mem_insert ..).mpr (.inl rfl)
  simp [AList.mem_keys, AList.keys, hnil] at hmem

end Header

namespace AdminWindow

theorem packetOf_start {profile : WifiProfile} (h : profile.psk.length = 32) :
    packetOf [] (some profile) .start = some (startPacket profile.ssidHex (toHex profile.psk)) := by
  have hstart : bytes "start|" = bytes "start" ++ [byte '|'] := by decide
  have hbar : bytes "|" = [byte '|'] := by decide
  simp [packetOf, h, startPacket, hstart, hbar]

theorem asks_packetOf {ticket packet : Bytes} {profile : Option WifiProfile} {action : WifiConnectAction}
    (h : packetOf ticket profile action = some packet) : Asks action packet := by
  unfold packetOf at h
  split at h
  · rename_i hstart
    subst hstart
    cases profile with
    | none => cases h
    | some profile =>
      have hbytes : bytes "start|" = bytes "start" ++ [byte '|'] := by decide
      have hbar : bytes "|" = [byte '|'] := by decide
      obtain ⟨-, he⟩ := Option.ite_none_left_eq_some.mp h
      have hpacket : startPacket profile.ssidHex (toHex profile.psk) = packet := by
        rw [← Option.some.inj he]
        simp [startPacket, hbytes, hbar]
      exact hpacket ▸ .start _ _
  · rename_i hstart
    obtain ⟨-, he⟩ := Option.ite_none_left_eq_some.mp h
    exact Option.some.inj he ▸ .ticketed ticket hstart

def panelRequest (token : Line) (packet : Bytes) : Header := AdminClient.userRequest token (wifiQuery packet)

theorem writable_panelRequest (token : Line) {packet : Bytes} (h : lf ∉ packet) :
    (panelRequest token packet).Writable := by
  refine Header.writable_set (Header.writable_set (Header.writable_set Header.writable_empty ?_ ?_) ?_ h)
    ?_ token.2 <;> decide

theorem length_empty (it : Iteration) : (({} : Header).serialize it).length = 1 := by
  have hnil : it.order [] = [] := List.perm_nil.mp (it.perm [])
  rw [Header.serialize]
  simp [hnil, AList.empty_entries]

theorem length_panelRequest (token : Line) (packet : Bytes) (it : Iteration) :
    ((panelRequest token packet).serialize it).length = token.1.length + packet.length + 51 := by
  have hkeys : (bytes "op").length = 2 ∧ (bytes "admin_wifi_change").length = 17 ∧
      (bytes "wifi_packet").length = 11 ∧ (bytes "admin_token").length = 11 := by decide
  have hpacket : ((Header.set {} (bytes "op") (bytes "admin_wifi_change")).fields.lookup
      (bytes "wifi_packet")) = none := by
    rw [Header.lookup_set, if_neg (by decide), Header.lookup_empty]
  have htoken : (wifiQuery packet).fields.lookup (bytes "admin_token") = none := by
    rw [wifiQuery, Header.lookup_set, if_neg (by decide), Header.lookup_set, if_neg (by decide),
      Header.lookup_empty]
  rw [panelRequest, AdminClient.userRequest, Header.length_serialize_set htoken, wifiQuery,
    Header.length_serialize_set hpacket, Header.length_serialize_set (Header.lookup_empty _), length_empty]
  omega

/-- The packet comes out of the header as it went in, exactly when the header is short enough. -/
theorem panelRequest_arrives (token : Line) {packet : Bytes} (h : ∀ c ∈ packet, isBlank c = false)
    (it : Iteration) (max : Nat) (rest : Bytes) :
    Header.read max ((panelRequest token packet).serialize it ++ rest) =
      if token.1.length + packet.length + 51 < max then
        some (Header.parse ((panelRequest token packet).serialize it), rest) else none := by
  have hw : (panelRequest token packet).Writable :=
    writable_panelRequest token fun hm => absurd (h lf hm) (by decide)
  have hne : (panelRequest token packet).fields.entries ≠ [] := Header.entries_set_ne_nil _ _ _
  rw [Header.read_serialize hw it hne, length_panelRequest]

theorem get_panelRequest (token : Line) {packet : Bytes} (h : ∀ c ∈ packet, isBlank c = false)
    (it : Iteration) :
    (Header.parse ((panelRequest token packet).serialize it)).get (bytes "op") = bytes "admin_wifi_change" ∧
    (Header.parse ((panelRequest token packet).serialize it)).get (bytes "wifi_packet") = packet := by
  have hw : (panelRequest token packet).Writable :=
    writable_panelRequest token fun hm => absurd (h lf hm) (by decide)
  unfold Header.get
  rw [Header.lookup_parse_serialize hw, Header.lookup_parse_serialize hw, panelRequest,
    AdminClient.userRequest, wifiQuery, Header.lookup_set, if_neg (by decide), Header.lookup_set,
    if_neg (by decide), Header.lookup_set, if_pos rfl, Header.lookup_set, if_neg (by decide),
    Header.lookup_set, if_pos rfl]
  refine ⟨?_, Server.trim_plain h⟩
  decide

structure Carried (packet ssid : Bytes) (profile : WifiProfile) : Prop where
  arrives (token : Line) (it : Iteration) (max : Nat) (rest : Bytes) :
    (∃ req, Header.read max ((panelRequest token packet).serialize it ++ rest) = some (req, rest) ∧
      req.get (bytes "op") = bytes "admin_wifi_change" ∧ req.get (bytes "wifi_packet") = packet) ↔
    token.1.length + packet.length + 51 < max
  accepted (req : Header) (exchange : Bytes → Option Bytes) : req.get (bytes "wifi_packet") = packet →
    Server.adminWifiChange true true true exchange req = Server.wifiAnswer (exchange packet)
  started (kdf : Pbkdf2) (rpc : WifiRpc) : rpc.handle kdf packet = startWith rpc profile
  ssid : decodeHex profile.ssidHex = ssid
  short : packet.length ≤ 135

theorem carried {kdf : Pbkdf2} {ssid password : Bytes} {profile : WifiProfile}
    (h : WifiProfile.make kdf ssid password = .ok profile) :
    Carried (startPacket profile.ssidHex (toHex profile.psk)) ssid profile := by
  obtain ⟨hne, hlen, hssid, hpsk, hdhcp⟩ := WifiProfile.make_ok h
  have hpos := List.length_pos_of_ne_nil hne
  have hs : hex profile.ssidHex 2 64 = true := by
    rw [hssid]
    exact hex_toHex (by omega) (by omega)
  have hp : hex (toHex profile.psk) 64 64 = true := hex_toHex (by omega) (by omega)
  have hdecode : decodeHex profile.ssidHex = ssid := by rw [hssid, decodeHex_toHex]
  have hprofile : profile = ⟨toHex ssid, profile.psk, none⟩ := by
    rw [← hssid, ← hdhcp]
  -- at most 64 digits of the name and 64 of the key
  have hshort : (startPacket profile.ssidHex (toHex profile.psk)).length ≤ 135 := by
    have hstart : (bytes "start").length = 5 := by decide
    rw [startPacket, List.length_append, List.length_cons, List.length_append, List.length_cons, hssid,
      length_toHex, length_toHex, hstart]
    omega
  have hblank : ∀ c ∈ startPacket profile.ssidHex (toHex profile.psk), isBlank c = false :=
    startPacket_plain hs hp
  refine ⟨fun token it max rest => ?_, fun req exchange hreq => ?_, fun kdf' rpc => ?_, hdecode, hshort⟩
  · rw [panelRequest_arrives token hblank]
    obtain ⟨hop, hget⟩ := get_panelRequest token hblank it
    by_cases hfits : token.1.length + (startPacket profile.ssidHex (toHex profile.psk)).length + 51 < max
    · rw [if_pos hfits]
      exact ⟨fun _ => hfits, fun _ => ⟨_, rfl, hop, hget⟩⟩
    · rw [if_neg hfits]
      refine ⟨fun hsome => ?_, fun hlt => absurd hlt hfits⟩
      obtain ⟨req, hread, -⟩ := hsome
      cases hread
  · have hpacket : startPacket profile.ssidHex (toHex profile.psk) ≠ [] := by simp [startPacket]
    have hpasses : WifiIpc.passes (startPacket profile.ssidHex (toHex profile.psk)) = true := by
      simp only [WifiIpc.passes, Bool.and_eq_true, bne_iff_ne, decide_eq_true_eq]
      exact ⟨hpacket, by omega⟩
    have hsize : ¬ (startPacket profile.ssidHex (toHex profile.psk) = [] ∨
        (startPacket profile.ssidHex (toHex profile.psk)).length > 256) := by
      rw [not_or]
      exact ⟨hpacket, by omega⟩
    simp only [Server.adminWifiChange, hreq, Bool.not_true, Bool.or_self, Bool.false_eq_true, if_false,
      if_neg hsize, WifiIpc.requestWifiChange, if_pos hpasses]
  · refine handle_start kdf' rpc hs hp ?_
    rw [hdecode, hprofile]
    exact WifiProfile.make_key kdf' hne hlen (WifiProfile.make_text h) hpsk

end AdminWindow

/-! ## From the helper to the panel -/

namespace AdminWindow

/-- What the panel makes of the helper's answer, once the server has passed it on. -/
def hear (it : Iteration) (action : WifiConnectAction) (held a : Bytes) : WifiConnectReply × Bytes :=
  understand action held
    (AdminClient.userAnswer (Server.answerStream it (Server.wifiAnswer (WifiIpc.serveWifiChangePacket a))))

theorem heard (it : Iteration) {a : Bytes} (h : WifiIpc.passes a = true) :
    AdminClient.userAnswer (Server.answerStream it (Server.wifiAnswer (WifiIpc.serveWifiChangePacket a))) =
      .ok a := by
  obtain ⟨-, hlen⟩ : a ≠ [] ∧ a.length ≤ 1024 := by
    simpa only [WifiIpc.passes, Bool.and_eq_true, bne_iff_ne, decide_eq_true_eq] using h
  let resp := okHeader.set (bytes "payload_size") (decimal a.length)
  have hw : resp.Writable := by
    refine Header.writable_set (Header.writable_set Header.writable_empty ?_ ?_) ?_
      (not_numeral rfl (decimal_numeral _)) <;> decide
  have hne : resp.fields.entries ≠ [] := Header.entries_set_ne_nil _ _ _
  have hsize : resp.fields.lookup (bytes "payload_size") = some (decimal a.length) :=
    Header.lookup_set_self ..
  -- the size has at most four digits here
  have hshort : (resp.serialize it).length < 65536 := by
    have hkeys : (bytes "status").length = 6 ∧ (bytes "ok").length = 2 ∧
        (bytes "payload_size").length = 12 := by decide
    have hnew : okHeader.fields.lookup (bytes "payload_size") = none := by
      rw [okHeader, Header.lookup_set, if_neg (by decide), Header.lookup_empty]
    have hdigits := length_decimal_word (n := a.length) (by omega)
    rw [Header.length_serialize_set hnew, okHeader, Header.length_serialize_set (Header.lookup_empty _),
      length_empty]
    omega
  have hread : Header.read 65536 (resp.serialize it ++ a) = some (Header.parse (resp.serialize it), a) := by
    rw [Header.read_serialize hw it hne, if_pos hshort]
  have hnumber : numberOf (Header.parse (resp.serialize it)) (bytes "payload_size") 0 = some a.length := by
    have hplain : trim (decimal a.length) = decimal a.length :=
      Server.trim_plain fun c hc => (digit_plain c (decimal_digits _ c hc)).2.1
    have hget : (Header.parse (resp.serialize it)).get (bytes "payload_size") = decimal a.length := by
      rw [Header.get, Header.lookup_parse_serialize hw, hsize, Option.map_some, hplain, Option.getD_some]
    rw [numberOf, hget, if_neg (decimal_ne_nil _), stoull_decimal, if_pos (by omega)]
  have hstatus : (Header.parse (resp.serialize it)).get (bytes "status") = bytes "ok" := by
    rw [Header.get, Header.lookup_parse_serialize hw, Header.lookup_set, if_neg (by decide), okHeader,
      Header.lookup_set_self]
    decide
  have hmax : ¬ a.length > AdminClient.maxPayload := by
    unfold AdminClient.maxPayload
    omega
  unfold WifiIpc.serveWifiChangePacket Server.wifiAnswer AdminClient.userAnswer
  rw [if_pos h]
  show (match Header.read 65536 (resp.serialize it ++ a) with
    | none => _
    | some (resp, rest) => _) = _
  rw [hread]
  dsimp only
  rw [hnumber]
  dsimp only
  rw [if_neg hmax, if_neg (Nat.lt_irrefl _), if_neg (not_not.mpr hstatus), List.take_length]

def shown : WifiChangeState → WifiConnectState
  | .connecting => .connecting
  | .awaitingConfirmation => .awaitingConfirmation
  | .committed => .committed
  | .rolledBack => .rolledBack
  | .recoveryRequired => .recoveryRequired
  | .idle => .rejected

theorem understand_word {a : Bytes} (h : opens a = none) (action : WifiConnectAction) (ticket : Bytes) :
    understand action ticket (.ok a) = (replyNamed a, ticket) := by
  have hprefix : ¬ bytes "connecting|" <+: a := by
    intro hp
    unfold opens connecting at h
    rw [if_pos hp] at h
    cases h
  rw [understand, if_neg fun hc => hprefix hc.2.2]

theorem understand_ticket {fresh : Bytes} (h : hex fresh 64 64 = true) (ticket : Bytes) :
    understand .start ticket (.ok (connecting ++ fresh)) = (⟨true, .connecting⟩, fresh) := by
  have hlen : fresh.length = 64 := by
    simp only [hex, Bool.and_eq_true, decide_eq_true_eq] at h
    omega
  have hdigits : fresh.all isHexDigit = true := by
    simp only [hex, Bool.and_eq_true] at h
    exact h.2
  have hword : connecting.length = 11 := by decide +kernel
  have hdrop : (connecting ++ fresh).drop 11 = fresh := by rw [← hword, List.drop_left]
  have hstart : WifiConnectAction.start = .start ∧ (connecting ++ fresh).length = 75 ∧
      bytes "connecting|" <+: connecting ++ fresh := by
    refine ⟨rfl, ?_, ?_⟩
    · rw [List.length_append, hword, hlen]
    · unfold connecting
      exact List.prefix_append _ _
  rw [understand, if_pos hstart, hdrop, if_pos hdigits]

theorem replyNamed_stateName (st : WifiChangeState) : replyNamed (stateName st) = ⟨true, shown st⟩ := by
  cases st <;> decide

structure Understood (action : WifiConnectAction) (held a : Bytes) (rpc' : WifiRpc)
    (r : WifiConnectReply × Bytes) : Prop where
  word : a = error ∨ a = rejected ∨ (named a).isSome
  unknown : a = error → r = ({}, held)
  refused : a = rejected → r = (⟨true, .rejected⟩, held)
  state : ∀ st, named a = some st → r.1 = ⟨true, shown st⟩
  stored : ∀ ticket, opens a = some ticket → action = .start ∧ hex ticket 64 64 = true ∧
    r.2 = ticket ∧ rpc'.session.bind holder = some ticket
  kept : opens a = none → r.2 = held

theorem understood_error (action : WifiConnectAction) (held : Bytes) (rpc' : WifiRpc) :
    Understood action held error rpc' (replyNamed error, held) where
  word := .inl rfl
  unknown _ := by
    have hreply : replyNamed error = {} := by decide +kernel
    rw [hreply]
  refused h := absurd h error_ne_rejected
  state st h := by simp [named_error] at h
  stored ticket h := by simp [opens_error] at h
  kept _ := rfl

theorem understood_state (action : WifiConnectAction) (held : Bytes) (rpc' : WifiRpc)
    (st : WifiChangeState) :
    Understood action held (stateName st) rpc' (replyNamed (stateName st), held) where
  word := .inr (by cases st <;> decide +kernel)
  unknown h := by
    have hne : stateName st ≠ error := by cases st <;> decide +kernel
    exact absurd h hne
  refused h := by
    have hreply : replyNamed rejected = ⟨true, .rejected⟩ := by decide +kernel
    rw [h, hreply]
  state st' h := by
    obtain rfl := named_stateName st st' h
    exact replyNamed_stateName st
  stored ticket h := by simp [opens_stateName] at h
  kept _ := rfl

theorem understood_ticket {fresh held : Bytes} {rpc' : WifiRpc} (h : hex fresh 64 64 = true)
    (hholder : rpc'.session.bind holder = some fresh) :
    Understood .start held (connecting ++ fresh) rpc' (⟨true, .connecting⟩, fresh) where
  word := .inr (.inr (by simp [named_connecting]))
  unknown he := by
    have hopens := congrArg opens he
    rw [opens_connecting, opens_error] at hopens
    cases hopens
  refused he := by
    have hopens := congrArg opens he
    rw [opens_connecting, opens_rejected] at hopens
    cases hopens
  state st hst := by
    rw [named_connecting] at hst
    cases hst
    rfl
  stored ticket ht := by
    rw [opens_connecting] at ht
    cases ht
    exact ⟨rfl, h, rfl, hholder⟩
  kept hnone := by simp [opens_connecting] at hnone

theorem prefixOf_eq (action : WifiConnectAction) : ∃ verb ∈ verbs, prefixOf action = verb ++ [byte '|'] := by
  cases action with
  | confirm => exact ⟨bytes "confirm", by decide, by decide⟩
  | cancel => exact ⟨bytes "cancel", by decide, by decide⟩
  | _ => exact ⟨bytes "status", by decide, by decide⟩

theorem action_of_start {action : WifiConnectAction} {packet ssidHex pskHex : Bytes}
    (h : Asks action packet) (hf : packet.splitOn (byte '|') = [bytes "start", ssidHex, pskHex]) :
    action = .start := by
  cases h with
  | start => rfl
  | ticketed ticket hne =>
    exfalso
    obtain ⟨verb, hverb, heq⟩ := prefixOf_eq action
    have hplain : ∀ verb ∈ verbs, byte '|' ∉ verb ∧ verb ≠ bytes "start" := by decide
    obtain ⟨hbar, hstart⟩ := hplain verb hverb
    rw [heq, List.append_assoc, List.singleton_append,
      List.splitOn_append_cons_self_of_not_mem hbar] at hf
    exact hstart (List.cons.inj hf).1

theorem outcome_hex {p : WifiProfile} {seg : List WifiRpc.Event} {ticket : Bytes} {s : WifiSession}
    (h : Outcome p seg (some ticket) s) : hex ticket 64 64 = true := by
  cases h with
  | opened t d => exact hex_toHex (by simp) (by simp)

theorem understood {kdf : Pbkdf2} {rpc rpc' : WifiRpc} {tr tr' : List WifiRpc.Event} {packet a : Bytes}
    {action : WifiConnectAction} (h : Asks action packet)
    (hr : Runs record (rpc.handle kdf packet) tr (a, rpc') tr') (held : Bytes) (it : Iteration) :
    Understood action held a rpc' (hear it action held a) := by
  have state (st : WifiChangeState) (ha : a = stateName st) :
      Understood action held a rpc' (hear it action held a) := by
    have hpasses : WifiIpc.passes (stateName st) = true := by cases st <;> decide
    rw [ha, hear, heard it hpasses, understand_word (opens_stateName st)]
    exact understood_state action held rpc' st
  have error (ha : a = error) : Understood action held a rpc' (hear it action held a) := by
    have hpasses : WifiIpc.passes WifiRpc.error = true := by decide +kernel
    rw [ha, hear, heard it hpasses, understand_word opens_error]
    exact understood_error action held rpc'
  obtain ⟨seg, -, hh⟩ := runs_of_wp (handled packet tr) hr
  cases hh with
  | malformed => exact error rfl
  | refused => exact state .idle (by decide +kernel)
  | started hf _ _ hs =>
    obtain rfl := action_of_start h hf
    cases hs with
    | noBackend => exact state .idle (by decide +kernel)
    | failed => exact state .recoveryRequired (by decide +kernel)
    | @opened seg ticket s ho =>
      have hhex := outcome_hex ho
      have hpasses : WifiIpc.passes (connecting ++ ticket) = true := by
        have hword : connecting.length = 11 := by decide +kernel
        have hlen := length_hex hhex
        simp only [WifiIpc.passes, Bool.and_eq_true, bne_iff_ne, decide_eq_true_eq,
          ← List.length_pos_iff_ne_nil, List.length_append, hword]
        omega
      show Understood .start held (connecting ++ ticket) _ (hear it .start held (connecting ++ ticket))
      rw [hear, heard it hpasses, understand_ticket hhex]
      exact understood_ticket hhex (outcome_holder ho)
  | ticketed _ _ _ _ _ ha =>
    rcases ha with ha | ha
    · exact error ha
    · exact state _ ha

/-- **One packet language.** The start of every made profile reaches the helper as it was
built and opens a session on that profile; the panel builds no packets but the helper's;
and what the panel makes of every answer to those, whatever the state of the helper, is
what the helper said. -/
theorem packet_language :
    (∀ (kdf : Pbkdf2) (ssid password : Bytes) (profile : WifiProfile),
      WifiProfile.make kdf ssid password = .ok profile →
      ∃ packet, packetOf [] (some profile) .start = some packet ∧ Carried packet ssid profile) ∧
    (∀ (held packet : Bytes) (profile : Option WifiProfile) (action : WifiConnectAction),
      packetOf held profile action = some packet → Asks action packet) ∧
    (∀ (kdf : Pbkdf2) (rpc rpc' : WifiRpc) (tr tr' : List WifiRpc.Event) (action : WifiConnectAction)
      (packet a held : Bytes) (it : Iteration), Asks action packet →
      Runs record (rpc.handle kdf packet) tr (a, rpc') tr' →
      Understood action held a rpc' (hear it action held a)) := by
  refine ⟨fun kdf ssid password profile hmake => ?_, fun held packet profile action => asks_packetOf, ?_⟩
  · obtain ⟨-, -, -, hpsk, -⟩ := WifiProfile.make_ok hmake
    exact ⟨_, packetOf_start hpsk, carried hmake⟩
  · intro kdf rpc rpc' tr tr' action packet a held it hasks hr
    exact understood hasks hr held it

def zeroProfile : WifiProfile := ⟨bytes "61", List.replicate 32 0, none⟩

theorem packet_language_zero :
    (∃ packet, packetOf [] (some zeroProfile) .start = some packet ∧
      Carried packet (bytes "a") zeroProfile) ∧
    ∃ a rpc' tr', Runs record (({} : WifiRpc).handle noKdf zeroStart) [] (a, rpc') tr' ∧
      hear Iteration.stored .start [] a = (⟨true, .connecting⟩, toHex (List.replicate 32 0)) := by
  obtain ⟨hstart, -, hheard⟩ := packet_language
  let e := exec (fun (tr : List WifiRpc.Event) c => (WifiCall.reply (fun _ => false) c,
    tr ++ [.call c (WifiCall.reply (fun _ => false) c)])) (({} : WifiRpc).handle noKdf zeroStart) []
  have hrun : Runs record (({} : WifiRpc).handle noKdf zeroStart) [] e.1 e.2 :=
    runs_exec (fun _ _ => rfl) _ _
  have hopens : opens e.1.1 = some (toHex (List.replicate 32 0)) := by decide +kernel
  have hnamed : named e.1.1 = some .connecting := by decide +kernel
  have h := hheard _ _ _ _ _ .start _ _ [] Iteration.stored (.start ..) hrun
  obtain ⟨-, -, hticket, -⟩ := h.stored _ hopens
  exact ⟨hstart noKdf (bytes "a") (List.replicate 64 (byte '0')) zeroProfile rfl, _, _, _, hrun,
    Prod.ext (h.state _ hnamed) hticket⟩

end AdminWindow

end EncoderNext
