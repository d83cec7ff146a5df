import EncoderNext.Decimal
import EncoderNext.Feed
import EncoderNext.LineFile

/-!
# Alerts on their way to the administrator

The server appends numbered alerts to a file. The administrator's window asks for
what is newer than the number it remembers, two hundred at most, and remembers the
number of the answer. Headers and payloads cross the connection as they are.
-/

namespace EncoderNext

structure AlertRecord where
  id : Nat
  ts : Int
  kind : Bytes
  username : Bytes
  detail : Bytes

namespace AuditService

def formatAlertLine (alert : AlertRecord) : Bytes :=
  joined (byte '|') [decimal alert.id, decimalInt alert.ts, alert.kind, alert.username, alert.detail]

/-- The first four bars count; a detail may hold more. -/
def parseAlertLine (line : Bytes) : Option AlertRecord := do
  let (id, rest) ← splitAt? (byte '|') line
  let (ts, rest) ← splitAt? (byte '|') rest
  let (kind, rest) ← splitAt? (byte '|') rest
  let (username, detail) ← splitAt? (byte '|') rest
  return { id := ← stoull id, ts := ← stoll ts, kind := kind, username := username, detail := detail }

def alertsOf (file : Bytes) : List AlertRecord := (lines file).filterMap parseAlertLine

def lastOf (alerts : List AlertRecord) (start : Nat) : Nat :=
  alerts.foldl (fun last alert => if alert.id > last then alert.id else last) start

def loadLastAlertId (file : Bytes) : Nat := lastOf (alertsOf file) 0

/-- No limit is a limit of zero. -/
def getAlertsSince (file : Bytes) (sinceId limit : Nat) : List AlertRecord :=
  let out := (alertsOf file).filter fun alert => alert.id > sinceId
  if limit > 0 ∧ out.length > limit then out.drop (out.length - limit) else out

end AuditService

open AuditService

def alertsText (alerts : List AlertRecord) : Bytes :=
  alerts.flatMap fun alert => formatAlertLine alert ++ [lf]

/-- An optional number of a request; nothing where it does not read. -/
def numberOf (req : Header) (key : Bytes) (default : Nat) : Option Nat :=
  if req.get key = [] then some default else stoull (req.get key)

/-- `admin_get_alerts`, for a request that was let in: an error, or a header and a payload. -/
def adminGetAlerts (file : Bytes) (req : Header) : Except Bytes (Header × Bytes) :=
  match numberOf req (bytes "since_id") 0, numberOf req (bytes "limit") 100 with
  | some sinceId, some limit =>
    let alerts := getAlertsSince file sinceId limit
    let lastId := lastOf alerts sinceId
    let payload := alertsText alerts
    let resp := Header.set {} (bytes "status") (bytes "ok")
    let resp := resp.set (bytes "payload_size") (decimal payload.length)
    .ok (resp.set (bytes "last_id") (decimal lastId), payload)
  | _, _ => .error (bytes "Invalid parameters")

namespace AdminClient

def maxPayload : Nat := 8 * 1024 * 1024

def getAlerts (serve : Header → Except Bytes (Header × Bytes)) (token : Bytes)
    (sinceId limit : Nat) : Option (List Bytes × Nat) :=
  let header := Header.set {} (bytes "op") (bytes "admin_get_alerts")
  let header := header.set (bytes "admin_token") token
  let header := header.set (bytes "since_id") (decimal sinceId)
  let header := header.set (bytes "limit") (decimal limit)
  match serve header with
  | .error _ => none
  | .ok (resp, payload) =>
    match numberOf resp (bytes "payload_size") 0 with
    | none => none
    | some size =>
      if size > maxPayload then none
      else if resp.get (bytes "status") ≠ bytes "ok" then none
      else
        some ((lines (payload.take size)).filter (· != []),
          (numberOf resp (bytes "last_id") sinceId).getD sinceId)

end AdminClient

structure AlertWorld where
  file : Bytes := []
  nextAlertId : Nat := 1
  lastAlertId : Nat := 0
deriving DecidableEq

inductive AlertOp where
  | log (kind username detail : Line) (ts : {t : Int // Int64Range t}) (opened : Bool)
  | restart
  | poll (token : Bytes) (arrives : Bool)

namespace AlertWorld

def alertOf (w : AlertWorld) (kind username detail : Line) (ts : {t : Int // Int64Range t}) :
    AlertRecord :=
  { id := w.nextAlertId, ts := ts.1, kind := kind.1, username := username.1, detail := detail.1 }

def logAlert (w : AlertWorld) (kind username detail : Line) (ts : {t : Int // Int64Range t})
    (opened : Bool) : AlertWorld :=
  let alert := w.alertOf kind username detail ts
  { w with
    nextAlertId := (w.nextAlertId + 1) % 2 ^ 64
    file := if opened then w.file ++ (formatAlertLine alert ++ [lf]) else w.file }

def onRefreshAlerts (w : AlertWorld) (token : Bytes) : AlertWorld × Option (List Bytes) :=
  match AdminClient.getAlerts (adminGetAlerts w.file) token w.lastAlertId 200 with
  | none => (w, none)
  | some (lines, lastId) =>
    (if lastId > w.lastAlertId then { w with lastAlertId := lastId } else w, some lines)

def step (w : AlertWorld) : AlertOp → AlertWorld × Option (List Bytes)
  | .log kind username detail ts opened => (w.logAlert kind username detail ts opened, none)
  | .restart => ({ w with nextAlertId := (loadLastAlertId w.file + 1) % 2 ^ 64 }, none)
  | .poll token arrives => if arrives then w.onRefreshAlerts token else (w, none)

def run (w : AlertWorld) (ops : List AlertOp) : AlertWorld := ops.foldl (fun w op => (w.step op).1) w

end AlertWorld

/-! ## A line and its alert -/

namespace AuditService

theorem splitAt?_some {c : UInt8} {s : Bytes} (h : c ∈ s) :
    ∃ a b, splitAt? c s = some (a, b) ∧ s = a ++ c :: b ∧ c ∉ a := by
  obtain ⟨a, b, rfl, ha⟩ := List.eq_append_cons_of_mem h
  exact ⟨a, b, splitAt?_append ha, rfl, ha⟩

/-- What is read of a line that was written has its number and writes the same line;
bars in a name move its fields. -/
theorem parse_format {alert : AlertRecord} (hid : alert.id < 2 ^ 64) (hts : Int64Range alert.ts) :
    ∃ read, parseAlertLine (formatAlertLine alert) = some read ∧ read.id = alert.id ∧
      formatAlertLine read = formatAlertLine alert := by
  let names := alert.kind ++ byte '|' :: (alert.username ++ byte '|' :: alert.detail)
  have hformat : formatAlertLine alert =
      decimal alert.id ++ byte '|' :: (decimalInt alert.ts ++ byte '|' :: names) := by
    simp [formatAlertLine, names]
  obtain ⟨kind, rest, hkind, hnames, hfree⟩ := splitAt?_some (c := byte '|') (s := names)
    (by simp [names])
  have hrest : byte '|' ∈ rest := by
    by_contra hnone
    have hcount := congrArg (List.count (byte '|')) hnames
    have hk := List.count_eq_zero.mpr hfree
    have hr := List.count_eq_zero.mpr hnone
    simp only [names, List.count_append, List.count_cons_self, hk, hr] at hcount
    omega
  obtain ⟨username, detail, husername, hsplit, -⟩ := splitAt?_some hrest
  refine ⟨⟨alert.id, alert.ts, kind, username, detail⟩, ?_, rfl, ?_⟩
  · have hid' : stoull (decimal alert.id) = some alert.id := by rw [stoull_decimal, if_pos hid]
    have hts' : stoll (decimalInt alert.ts) = some alert.ts := by rw [stoll_decimalInt, if_pos hts]
    have hfirst : byte '|' ∉ decimal alert.id := not_numeral rfl (decimal_numeral _)
    have hsecond : byte '|' ∉ decimalInt alert.ts := not_numeral rfl (decimalInt_numeral _)
    rw [hformat, parseAlertLine]
    simp [splitAt?_append hfirst, splitAt?_append hsecond, hkind, husername, hid', hts']
  · rw [hformat, hnames, hsplit]
    simp [formatAlertLine]

end AuditService

/-! ## The file as a list of alerts -/

/-- The file holds these alerts, numbered upwards, and the window remembers one of them. -/
structure Sound (w : AlertWorld) (alerts : List AlertRecord) : Prop where
  file : w.file = alertsText alerts
  line : ∀ a ∈ alerts, lf ∉ formatAlertLine a
  read : ∀ a ∈ alerts, parseAlertLine (formatAlertLine a) = some a
  upwards : alerts.Pairwise fun a b => a.id < b.id
  below : ∀ a ∈ alerts, a.id < w.nextAlertId
  some : 0 < w.nextAlertId ∧ w.nextAlertId < 2 ^ 64
  remembered : w.lastAlertId = 0 ∨ ∃ a ∈ alerts, w.lastAlertId = a.id

def waiting (w : AlertWorld) : List Bytes :=
  (getAlertsSince w.file w.lastAlertId 0).map formatAlertLine

theorem alertsOf_text {alerts : List AlertRecord} (hline : ∀ a ∈ alerts, lf ∉ formatAlertLine a)
    (hread : ∀ a ∈ alerts, parseAlertLine (formatAlertLine a) = some a) :
    alertsOf (alertsText alerts) = alerts := by
  have hlines : lines (alertsText alerts) = alerts.map formatAlertLine := by
    rw [alertsText, ← List.flatMap_map formatAlertLine fun l => l ++ [lf]]
    refine lines_flatMap fun l hl => ?_
    obtain ⟨a, ha, rfl⟩ := List.mem_map.mp hl
    exact hline a ha
  rw [alertsOf, hlines, List.filterMap_map]
  refine (List.filterMap_congr fun a ha => ?_).trans List.filterMap_some
  exact hread a ha

theorem lastOf_spec : ∀ (alerts : List AlertRecord) (start : Nat),
    start ≤ lastOf alerts start ∧ (∀ a ∈ alerts, a.id ≤ lastOf alerts start) ∧
      (lastOf alerts start = start ∨ ∃ a ∈ alerts, lastOf alerts start = a.id)
  | [], start => ⟨le_rfl, by simp, .inl rfl⟩
  | a :: alerts, start => by
    obtain ⟨hstart, hall, hone⟩ := lastOf_spec alerts (if a.id > start then a.id else start)
    have hstep : lastOf (a :: alerts) start = lastOf alerts (if a.id > start then a.id else start) :=
      rfl
    rw [hstep]
    by_cases ha : a.id > start
    · simp only [if_pos ha] at hstart hall hone ⊢
      refine ⟨by omega, fun b hb => ?_, .inr ?_⟩
      · rcases List.mem_cons.mp hb with rfl | hb
        · exact hstart
        · exact hall b hb
      · rcases hone with hone | ⟨b, hb, hone⟩
        · exact ⟨a, by simp, hone⟩
        · exact ⟨b, by simp [hb], hone⟩
    · simp only [if_neg ha] at hstart hall hone ⊢
      refine ⟨hstart, fun b hb => ?_, ?_⟩
      · rcases List.mem_cons.mp hb with rfl | hb
        · omega
        · exact hall b hb
      · rcases hone with hone | ⟨b, hb, hone⟩
        · exact .inl hone
        · exact .inr ⟨b, by simp [hb], hone⟩

theorem numberOf_set (req : Header) (key key' : Bytes) {n : Nat} (default : Nat) (hn : n < 2 ^ 64) :
    numberOf (req.set key (decimal n)) key' default =
      if key' = key then some n else numberOf req key' default := by
  by_cases hk : key' = key
  · rw [if_pos hk, numberOf, hk, Header.get_set_self, if_neg (decimal_ne_nil n), stoull_decimal,
      if_pos hn]
  · simp [numberOf, Header.get_set, hk]

theorem getAlerts_eq (file token : Bytes) {sinceId limit : Nat} (hs : sinceId < 2 ^ 64)
    (hl : limit < 2 ^ 64)
    (hlast : lastOf (getAlertsSince file sinceId limit) sinceId < 2 ^ 64) :
    AdminClient.getAlerts (adminGetAlerts file) token sinceId limit =
      let out := getAlertsSince file sinceId limit
      if (alertsText out).length > AdminClient.maxPayload then none
      else some ((lines (alertsText out)).filter (· != []), lastOf out sinceId) := by
  have hsince (req : Header) : numberOf ((req.set (bytes "since_id") (decimal sinceId)).set
      (bytes "limit") (decimal limit)) (bytes "since_id") 0 = some sinceId := by
    rw [numberOf_set _ _ _ _ hl, if_neg (by decide), numberOf_set _ _ _ _ hs, if_pos rfl]
  have hlimit (req : Header) : numberOf (req.set (bytes "limit") (decimal limit)) (bytes "limit") 100 =
      some limit := by
    rw [numberOf_set _ _ _ _ hl, if_pos rfl]
  let out := getAlertsSince file sinceId limit
  let resp := ((Header.set {} (bytes "status") (bytes "ok")).set (bytes "payload_size")
    (decimal (alertsText out).length)).set (bytes "last_id") (decimal (lastOf out sinceId))
  have hstatus : resp.get (bytes "status") = bytes "ok" := by
    rw [Header.get_set, if_neg (by decide), Header.get_set, if_neg (by decide), Header.get_set_self]
  have hnumber : numberOf resp (bytes "last_id") sinceId = some (lastOf out sinceId) := by
    rw [numberOf_set _ _ _ _ hlast, if_pos rfl]
  have hsize : numberOf resp (bytes "payload_size") 0 = stoull (decimal (alertsText out).length) := by
    rw [numberOf_set _ _ _ _ hlast, if_neg (by decide), numberOf, Header.get_set_self,
      if_neg (decimal_ne_nil _)]
  simp only [AdminClient.getAlerts, adminGetAlerts, hsince, hlimit]
  show (match numberOf resp (bytes "payload_size") 0 with
    | none => none
    | some size =>
      if size > AdminClient.maxPayload then none
      else if resp.get (bytes "status") ≠ bytes "ok" then none
      else some ((lines ((alertsText out).take size)).filter (· != []),
        (numberOf resp (bytes "last_id") sinceId).getD sinceId)) =
    if (alertsText out).length > AdminClient.maxPayload then none
    else some ((lines (alertsText out)).filter (· != []), lastOf out sinceId)
  rw [hsize, stoull_decimal]
  by_cases hlong : (alertsText out).length > AdminClient.maxPayload
  · rw [if_pos hlong]
    by_cases hhuge : (alertsText out).length < 2 ^ 64
    · rw [if_pos hhuge]
      dsimp only
      rw [if_pos hlong]
    · rw [if_neg hhuge]
  · have hfits : (alertsText out).length < 2 ^ 64 := by
      simp only [AdminClient.maxPayload] at hlong
      omega
    rw [if_pos hfits]
    dsimp only
    rw [if_neg hlong, if_neg hlong, if_neg (not_not.mpr hstatus), List.take_length, hnumber]
    rfl

section
variable {w : AlertWorld} {alerts : List AlertRecord} (h : Sound w alerts)
include h

theorem getAlertsSince_sound (limit : Nat) : getAlertsSince w.file w.lastAlertId limit =
    let out := alerts.filter fun a => a.id > w.lastAlertId
    if limit > 0 ∧ out.length > limit then out.drop (out.length - limit) else out := by
  rw [getAlertsSince, h.file, alertsOf_text h.line h.read]

theorem waiting_sound : waiting w =
    (alerts.filter fun a => a.id > w.lastAlertId).map formatAlertLine := by
  rw [waiting, getAlertsSince_sound h, if_neg (by simp)]

theorem lines_sound {out : List AlertRecord} (hout : ∀ a ∈ out, a ∈ alerts) :
    (lines (alertsText out)).filter (· != []) = out.map formatAlertLine := by
  have hlines : lines (alertsText out) = out.map formatAlertLine := by
    rw [alertsText, ← List.flatMap_map formatAlertLine fun l => l ++ [lf]]
    refine lines_flatMap fun l hl => ?_
    obtain ⟨a, ha, rfl⟩ := List.mem_map.mp hl
    exact h.line a (hout a ha)
  rw [hlines, List.filter_eq_self]
  intro l hl
  obtain ⟨a, -, rfl⟩ := List.mem_map.mp hl
  simp [formatAlertLine, decimal_ne_nil]

theorem below_next {n : Nat} (hn : n ≤ w.lastAlertId) : n < w.nextAlertId := by
  rcases h.remembered with hzero | ⟨a, ha, hid⟩
  · exact lt_of_le_of_lt (hzero ▸ hn) h.some.1
  · exact lt_of_le_of_lt (hid ▸ hn) (h.below a ha)

/-- A poll shows the newest two hundred of what waits and forgets the rest, unless its
answer is too long. -/
theorem onRefreshAlerts_sound (token : Bytes) :
    (AdminClient.maxPayload < ((Feed.newest 200 (waiting w)).flatMap fun l => l ++ [lf]).length ∧
      w.onRefreshAlerts token = (w, none)) ∨
    ((w.onRefreshAlerts token).2 = some (Feed.newest 200 (waiting w)) ∧
      Sound (w.onRefreshAlerts token).1 alerts ∧ waiting (w.onRefreshAlerts token).1 = [] ∧
      (w.onRefreshAlerts token).1.nextAlertId = w.nextAlertId) := by
  let fresh := alerts.filter fun a => a.id > w.lastAlertId
  let out := getAlertsSince w.file w.lastAlertId 200
  have hout : out = Feed.newest 200 fresh := by
    show getAlertsSince w.file w.lastAlertId 200 = _
    rw [getAlertsSince_sound h]
    show (if 200 > 0 ∧ fresh.length > 200 then fresh.drop (fresh.length - 200) else fresh) = _
    by_cases hmany : fresh.length > 200
    · rw [if_pos ⟨by decide, hmany⟩]
      rfl
    · rw [if_neg fun hc => hmany hc.2, Feed.newest_eq (by omega)]
  have hmem : ∀ a ∈ out, a ∈ alerts := by
    rw [hout]
    exact fun a ha => List.mem_of_mem_filter ((Feed.newest_sublist fresh).subset ha)
  obtain ⟨hstart, hall, hone⟩ := lastOf_spec out w.lastAlertId
  have hsmall : lastOf out w.lastAlertId < w.nextAlertId := by
    rcases hone with hone | ⟨a, ha, hone⟩
    · exact below_next h hone.le
    · exact hone ▸ h.below a (hmem a ha)
  have heq := @getAlerts_eq w.file token w.lastAlertId 200
    ((below_next h le_rfl).trans h.some.2) (by decide) (hsmall.trans h.some.2)
  -- what is dropped for the limit is older than something that is shown
  have hmax : ∀ a ∈ alerts, a.id ≤ lastOf out w.lastAlertId := by
    intro a ha
    by_cases hfresh : a.id > w.lastAlertId
    · have hmem : a ∈ fresh.take (fresh.length - 200) ++ out := by
        rw [hout, Feed.newest, List.take_append_drop]
        exact List.mem_filter.mpr ⟨ha, by simpa using hfresh⟩
      rcases List.mem_append.mp hmem with hold | hnew
      · have hlen := List.length_pos_of_mem hold
        rw [List.length_take] at hlen
        obtain ⟨b, hb⟩ : ∃ b, b ∈ out := by
          refine List.exists_mem_of_length_pos ?_
          rw [hout, Feed.length_newest]
          omega
        have hsorted := h.upwards.filter fun a => decide (a.id > w.lastAlertId)
        have hsplit : fresh = fresh.take (fresh.length - 200) ++ out := by
          rw [hout, Feed.newest, List.take_append_drop]
        have hlt : a.id < b.id := by
          change fresh.Pairwise _ at hsorted
          rw [hsplit] at hsorted
          exact (List.pairwise_append.mp hsorted).2.2 a hold b hb
        exact hlt.le.trans (hall b hb)
      · exact hall a hnew
    · exact (not_lt.mp hfresh).trans hstart
  unfold AlertWorld.onRefreshAlerts
  rw [heq]
  dsimp only
  by_cases hlong : (alertsText out).length > AdminClient.maxPayload
  · left
    refine ⟨?_, by rw [if_pos hlong]⟩
    have hlines : Feed.newest 200 (waiting w) = out.map formatAlertLine := by
      rw [hout, waiting_sound h]
      simp only [Feed.newest, List.map_drop, List.length_map]
      rfl
    rw [hlines, List.flatMap_map]
    exact hlong
  · right
    rw [if_neg hlong]
    dsimp only
    -- a number that does not grow is the one that was remembered
    have hw : (if lastOf out w.lastAlertId > w.lastAlertId then
        { w with lastAlertId := lastOf out w.lastAlertId } else w) =
        { w with lastAlertId := lastOf out w.lastAlertId } := by
      by_cases hgt : lastOf out w.lastAlertId > w.lastAlertId
      · rw [if_pos hgt]
      · rw [if_neg hgt, Nat.le_antisymm (not_lt.mp hgt) hstart]
    have hsound : Sound { w with lastAlertId := lastOf out w.lastAlertId } alerts := by
      refine ⟨h.file, h.line, h.read, h.upwards, h.below, h.some, ?_⟩
      rcases hone with hone | ⟨a, ha, hone⟩
      · rw [hone]
        exact h.remembered
      · exact .inr ⟨a, hmem a ha, hone⟩
    rw [hw]
    refine ⟨?_, hsound, ?_, rfl⟩
    · rw [lines_sound h hmem, hout, waiting_sound h]
      simp only [Feed.newest, List.map_drop, List.length_map]
      rfl
    · rw [waiting_sound hsound, List.map_eq_nil_iff, List.filter_eq_nil_iff]
      intro a ha hgt
      have := hmax a ha
      simp only [decide_eq_true_eq] at hgt
      omega

end

/-! ## The feed behind it -/

/-- What an operation is to the feed: only alerts that reach the file and polls that
are answered count. -/
def feedOp (w : AlertWorld) : AlertOp → Feed.Op Bytes
  | .log kind username detail ts opened =>
    if opened then .put (formatAlertLine (w.alertOf kind username detail ts)) else .idle
  | .restart => .idle
  | .poll token arrives => if (w.step (.poll token arrives)).2.isSome then .take else .idle

structure Refines (w : AlertWorld) (alerts : List AlertRecord) (op : AlertOp) : Prop where
  sound : ∃ logged, Sound (w.step op).1 (alerts ++ logged) ∧
    logged.map formatAlertLine = (feedOp w op).puts
  waiting : waiting (w.step op).1 = Feed.next (waiting w) (feedOp w op)
  shown : (w.step op).2.getD [] = Feed.shows 200 (EncoderNext.waiting w) (feedOp w op)
  next : (w.step op).1.nextAlertId ≤ w.nextAlertId + 1

section
variable {w : AlertWorld} {alerts : List AlertRecord} (h : Sound w alerts)
  (hroom : w.nextAlertId + 1 < 2 ^ 64)
include h hroom

theorem log_refines (kind username detail : Line) (ts : {t : Int // Int64Range t}) (opened : Bool) :
    Refines w alerts (.log kind username detail ts opened) := by
  have hnext : (w.nextAlertId + 1) % 2 ^ 64 = w.nextAlertId + 1 := Nat.mod_eq_of_lt hroom
  cases opened with
  | false =>
    -- the number is used up all the same
    have hsound : Sound (w.logAlert kind username detail ts false) alerts := by
      refine ⟨h.file, h.line, h.read, h.upwards, fun a ha => ?_, ?_, h.remembered⟩
      · exact (h.below a ha).trans (by simp only [AlertWorld.logAlert, hnext]; omega)
      · simp only [AlertWorld.logAlert, hnext]
        omega
    exact ⟨⟨[], by rwa [List.append_nil], rfl⟩, rfl, rfl, hnext.le⟩
  | true =>
    obtain ⟨read, hread, hid, hline⟩ :=
      @parse_format (w.alertOf kind username detail ts) h.some.2 ts.2
    have hlf : lf ∉ formatAlertLine read := by
      rw [hline]
      refine not_mem_joined (by decide) fun p hp => ?_
      simp only [List.mem_cons, List.not_mem_nil, or_false] at hp
      rcases hp with rfl | rfl | rfl | rfl | rfl
      · exact not_numeral rfl (decimal_numeral _)
      · exact not_numeral rfl (decimalInt_numeral _)
      · exact kind.2
      · exact username.2
      · exact detail.2
    have hnumber : read.id = w.nextAlertId := hid
    have hsound : Sound (w.logAlert kind username detail ts true) (alerts ++ [read]) := by
      refine ⟨?_, ?_, ?_, ?_, ?_, ?_, ?_⟩
      · simp [AlertWorld.logAlert, h.file, alertsText, hline]
      · intro a ha
        rcases List.mem_append.mp ha with ha | ha
        · exact h.line a ha
        · exact List.mem_singleton.mp ha ▸ hlf
      · intro a ha
        rcases List.mem_append.mp ha with ha | ha
        · exact h.read a ha
        · rw [List.mem_singleton.mp ha, hline, hread]
      · rw [List.pairwise_append]
        refine ⟨h.upwards, by simp, fun a ha b hb => ?_⟩
        rw [List.mem_singleton.mp hb, hnumber]
        exact h.below a ha
      · intro a ha
        simp only [AlertWorld.logAlert, hnext]
        rcases List.mem_append.mp ha with ha | ha
        · have := h.below a ha
          omega
        · rw [List.mem_singleton.mp ha, hnumber]
          omega
      · simp only [AlertWorld.logAlert, hnext]
        omega
      · rcases h.remembered with hzero | ⟨a, ha, hone⟩
        · exact .inl hzero
        · exact .inr ⟨a, by simp [ha], hone⟩
    refine ⟨⟨[read], hsound, by simp [hline, feedOp, Feed.Op.puts]⟩, ?_, rfl, hnext.le⟩
    have hnew : read.id > w.lastAlertId := hnumber ▸ below_next h le_rfl
    show waiting (w.logAlert kind username detail ts true) = waiting w ++ [_]
    rw [waiting_sound hsound, waiting_sound h, List.filter_append, List.map_append, ← hline]
    simp [AlertWorld.logAlert, hnew]

theorem restart_refines : Refines w alerts .restart := by
  obtain ⟨-, hall, hone⟩ := lastOf_spec alerts 0
  have hlast : loadLastAlertId w.file = lastOf alerts 0 := by
    rw [loadLastAlertId, h.file, alertsOf_text h.line h.read]
  have hle : lastOf alerts 0 + 1 ≤ w.nextAlertId := by
    rcases hone with hone | ⟨a, ha, hone⟩
    · rw [hone]
      exact h.some.1
    · rw [hone]
      exact h.below a ha
  have hnext : (loadLastAlertId w.file + 1) % 2 ^ 64 = lastOf alerts 0 + 1 := by
    rw [hlast]
    exact Nat.mod_eq_of_lt (by omega)
  have hsound : Sound (w.step .restart).1 alerts := by
    refine ⟨h.file, h.line, h.read, h.upwards, fun a ha => ?_, ?_, h.remembered⟩
    · simp only [AlertWorld.step, hnext]
      have := hall a ha
      omega
    · simp only [AlertWorld.step, hnext]
      omega
  refine ⟨⟨[], by simpa using hsound, rfl⟩, rfl, rfl, ?_⟩
  simp only [AlertWorld.step, hnext]
  omega

omit hroom in
theorem poll_refines (token : Bytes) (arrives : Bool) :
    Refines w alerts (.poll token arrives) := by
  have hidle : w.step (.poll token arrives) = (w, none) → Refines w alerts (.poll token arrives) := by
    intro hs
    have hop : feedOp w (.poll token arrives) = .idle := by simp [feedOp, hs]
    refine ⟨⟨[], ?_, ?_⟩, ?_, ?_, ?_⟩ <;> simp [hs, hop, h, Feed.Op.puts, Feed.next, Feed.shows]
  cases arrives with
  | false => exact hidle rfl
  | true =>
    rcases onRefreshAlerts_sound h token with ⟨-, hnone⟩ | ⟨hshown, hsound, hnil, hsame⟩
    · exact hidle hnone
    · have hs : w.step (.poll token true) = w.onRefreshAlerts token := rfl
      have hop : feedOp w (.poll token true) = .take := by simp [feedOp, hs, hshown]
      refine ⟨⟨[], ?_, ?_⟩, ?_, ?_, ?_⟩
      · simpa [hs] using hsound
      · simp [hop, Feed.Op.puts]
      · simp [hs, hop, hnil, Feed.next]
      · simp [hs, hop, hshown, Feed.shows]
      · simp [hs, hsame]

theorem step_refines (op : AlertOp) : Refines w alerts op := by
  cases op with
  | log kind username detail ts opened => exact log_refines h hroom kind username detail ts opened
  | restart => exact restart_refines h hroom
  | poll token arrives => exact poll_refines h token arrives

end

/-! ## Runs -/

def logged (w : AlertWorld) : List AlertOp → List Bytes
  | [] => []
  | op :: ops => (feedOp w op).puts ++ logged (w.step op).1 ops

def shown (w : AlertWorld) : List AlertOp → List Bytes
  | [] => []
  | op :: ops => (w.step op).2.getD [] ++ shown (w.step op).1 ops

def PollsSmall (w : AlertWorld) : List AlertOp → Prop
  | [] => True
  | op :: ops =>
    ((w.step op).2.isSome → (getAlertsSince w.file w.lastAlertId 0).length ≤ 200) ∧
      PollsSmall (w.step op).1 ops

def feedOps (w : AlertWorld) : List AlertOp → List (Feed.Op Bytes)
  | [] => []
  | op :: ops => feedOp w op :: feedOps (w.step op).1 ops

theorem feedOp_take (w : AlertWorld) (op : AlertOp) :
    feedOp w op = .take ↔ (w.step op).2.isSome = true := by
  cases op with
  | log kind username detail ts opened => cases opened <;> simp [feedOp, AlertWorld.step]
  | restart => simp [feedOp, AlertWorld.step]
  | poll token arrives =>
    by_cases hs : (w.step (.poll token arrives)).2.isSome = true
    · simp [feedOp, hs]
    · simp [feedOp, hs]

theorem logged_eq : ∀ (ops : List AlertOp) (w : AlertWorld),
    logged w ops = (feedOps w ops).flatMap Feed.Op.puts
  | [], _ => rfl
  | op :: ops, w => by
    rw [logged, feedOps, List.flatMap_cons, logged_eq ops]

theorem pollsSmall_iff : ∀ (ops : List AlertOp) {w : AlertWorld} {alerts : List AlertRecord},
    Sound w alerts → w.nextAlertId + ops.length < 2 ^ 64 →
    (PollsSmall w ops ↔ Feed.Calm 200 (waiting w) (feedOps w ops))
  | [], _, _, _, _ => Iff.rfl
  | op :: ops, w, alerts, h, hroom => by
    rw [List.length_cons] at hroom
    have hr := step_refines h (by omega) op
    obtain ⟨new, hsound, -⟩ := hr.sound
    have ih := pollsSmall_iff ops hsound (by have := hr.next; omega)
    rw [PollsSmall, feedOps, Feed.Calm, ih, hr.waiting, feedOp_take, waiting, List.length_map]

theorem run_refines : ∀ (ops : List AlertOp) {w : AlertWorld} {alerts : List AlertRecord},
    Sound w alerts → w.nextAlertId + ops.length < 2 ^ 64 →
    shown w ops = Feed.delivered 200 (waiting w) (feedOps w ops) ∧
    waiting (w.run ops) = (feedOps w ops).foldl Feed.next (waiting w) ∧
    ∃ new, Sound (w.run ops) (alerts ++ new) ∧ new.map formatAlertLine = logged w ops ∧
      (w.run ops).nextAlertId ≤ w.nextAlertId + ops.length
  | [], w, alerts, h, _ => ⟨rfl, rfl, [], by rwa [List.append_nil], rfl, le_rfl⟩
  | op :: ops, w, alerts, h, hroom => by
    rw [List.length_cons] at hroom
    have hr := step_refines h (by omega) op
    obtain ⟨new, hsound, hnew⟩ := hr.sound
    have hnext := hr.next
    obtain ⟨hshown, hwaiting, new', hsound', hnew', hlast⟩ := run_refines ops hsound (by omega)
    refine ⟨?_, ?_, new ++ new', ?_, ?_, ?_⟩
    · rw [shown, hshown, hr.shown, hr.waiting]
      rfl
    · show waiting ((w.step op).1.run ops) = _
      rw [hwaiting, hr.waiting]
      rfl
    · rw [← List.append_assoc]
      exact hsound'
    · rw [List.map_append, hnew, hnew']
      rfl
    · show ((w.step op).1.run ops).nextAlertId ≤ _
      rw [List.length_cons]
      omega

theorem sound_new : Sound {} [] :=
  ⟨rfl, by simp, by simp, .nil, by simp, by decide, .inl rfl⟩

theorem nodup_lines {w : AlertWorld} {alerts : List AlertRecord} (h : Sound w alerts) :
    (alerts.map formatAlertLine).Nodup := by
  refine List.Nodup.map_on (fun a ha b hb he => ?_) (h.upwards.imp fun hlt he => by simp [he] at hlt)
  have hread := h.read a ha
  rw [he, h.read b hb] at hread
  exact (Option.some.inj hread).symm

def Answered (w : AlertWorld) (token : Bytes) : Prop := (w.onRefreshAlerts token).2.isSome = true

theorem step_poll (w : AlertWorld) (token : Bytes) :
    w.step (.poll token true) = w.onRefreshAlerts token := rfl

theorem waiting_answered {w : AlertWorld} {alerts : List AlertRecord} (h : Sound w alerts)
    {token : Bytes} (ha : Answered w token) : waiting (w.step (.poll token true)).1 = [] := by
  rcases onRefreshAlerts_sound h token with ⟨-, hnone⟩ | ⟨-, -, hnil, -⟩
  · rw [Answered, hnone] at ha
    cases ha
  · exact hnil

theorem answered_of_short {w : AlertWorld} {alerts : List AlertRecord} (h : Sound w alerts)
    (hshort : ((Feed.newest 200 (waiting w)).flatMap fun l => l ++ [lf]).length ≤
      AdminClient.maxPayload) (token : Bytes) : Answered w token := by
  rcases onRefreshAlerts_sound h token with ⟨hlong, -⟩ | ⟨hshown, -⟩
  · omega
  · rw [Answered, hshown]
    rfl

theorem pollsSmall_last {op : AlertOp} : ∀ (ops : List AlertOp) {w : AlertWorld},
    PollsSmall w (ops ++ [op]) → ((w.run ops).step op).2.isSome = true →
      (waiting (w.run ops)).length ≤ 200
  | [], w, h, hs => by
    rw [waiting, List.length_map]
    exact h.1 hs
  | _ :: ops, _, h, hs => pollsSmall_last ops h.2 hs

theorem waiting_logs {ops : List AlertOp} {w : AlertWorld} {alerts : List AlertRecord}
    (h : Sound w alerts) (hroom : w.nextAlertId + ops.length < 2 ^ 64)
    (hlogs : ∀ op ∈ ops, ∀ u : AlertWorld, (u.step op).2 = none) :
    waiting (w.run ops) = waiting w ++ logged w ops := by
  have hputs : ∀ (ops : List AlertOp) (w : AlertWorld),
      (∀ op ∈ ops, ∀ u : AlertWorld, (u.step op).2 = none) → ∀ op ∈ feedOps w ops, op ≠ .take := by
    intro ops
    induction ops with
    | nil => simp [feedOps]
    | cons op ops ih =>
      intro w hlogs o ho
      rcases List.mem_cons.mp ho with rfl | ho
      · rw [Ne, feedOp_take, hlogs op (by simp)]
        simp
      · exact ih _ (fun op hop => hlogs op (by simp [hop])) o ho
  obtain ⟨-, hwaiting, -⟩ := run_refines ops h hroom
  rw [hwaiting, Feed.foldl_next _ _ (hputs ops w hlogs), logged_eq]

theorem run_append (w : AlertWorld) (ops ops' : List AlertOp) :
    w.run (ops ++ ops') = (w.run ops).run ops' := List.foldl_append

theorem logged_append : ∀ (ops ops' : List AlertOp) (w : AlertWorld),
    logged w (ops ++ ops') = logged w ops ++ logged (w.run ops) ops'
  | [], _, _ => rfl
  | op :: ops, ops', w => by
    rw [List.cons_append, logged, logged_append ops ops', logged, List.append_assoc]
    rfl

theorem logged_poll (w : AlertWorld) (token : Bytes) (arrives : Bool) :
    logged w [.poll token arrives] = [] := by
  by_cases hs : (w.step (.poll token arrives)).2.isSome = true
  · simp [logged, feedOp, hs, Feed.Op.puts]
  · simp [logged, feedOp, hs, Feed.Op.puts]

theorem shown_once_iff {w : AlertWorld} {alerts : List AlertRecord} (h : Sound w alerts)
    (hempty : waiting w = []) {ops : List AlertOp} {token : Bytes}
    (hroom : w.nextAlertId + ops.length + 1 < 2 ^ 64) (hlast : Answered (w.run ops) token) :
    (∀ line ∈ logged w ops, (shown w (ops ++ [.poll token true])).count line = 1) ↔
      PollsSmall w (ops ++ [.poll token true]) := by
  have hlen : w.nextAlertId + (ops ++ [AlertOp.poll token true]).length < 2 ^ 64 := by
    simp only [List.length_append, List.length_singleton]
    omega
  obtain ⟨hshown, hwaiting, new, hsound, hnew, -⟩ := run_refines (ops ++ [.poll token true]) h hlen
  obtain ⟨-, -, new', hsound', -, -⟩ := run_refines ops h (by omega)
  have hall : logged w ops = (feedOps w (ops ++ [.poll token true])).flatMap Feed.Op.puts := by
    rw [← logged_eq, logged_append, logged_poll, List.append_nil]
  have hleft : (feedOps w (ops ++ [.poll token true])).foldl Feed.next (waiting w) = [] := by
    rw [← hwaiting, run_append]
    exact waiting_answered hsound' hlast
  rw [hempty] at hleft
  have hnodup : (logged w ops).Nodup := by
    have hlines := nodup_lines hsound
    rw [List.map_append, hnew, logged_append, logged_poll, List.append_nil] at hlines
    exact (List.nodup_append.mp hlines).2.1
  rw [pollsSmall_iff _ h hlen, hshown, hempty, hall]
  rw [hall] at hnodup
  exact Feed.delivered_once_iff hleft hnodup

/-- **When no alert is lost.** Between an answered poll and a later one, every alert
that reaches the file is shown exactly once exactly when no answered poll finds more
than two hundred new ones. -/
theorem alerts_shown_iff {before rest : List AlertOp} {token token' : Bytes}
    (hroom : before.length + rest.length + 3 < 2 ^ 64)
    (hfirst : Answered (AlertWorld.run {} before) token)
    (hlast : Answered (AlertWorld.run {} (before ++ [.poll token true] ++ rest)) token') :
    (∀ line ∈ logged (AlertWorld.run {} (before ++ [.poll token true])) rest,
      (shown (AlertWorld.run {} (before ++ [.poll token true]))
        (rest ++ [.poll token' true])).count line = 1) ↔
      PollsSmall (AlertWorld.run {} (before ++ [.poll token true])) (rest ++ [.poll token' true]) := by
  have hlen : ({} : AlertWorld).nextAlertId + (before ++ [AlertOp.poll token true]).length < 2 ^ 64 := by
    simp only [List.length_append, List.length_singleton]
    omega
  obtain ⟨-, -, new, hsound, -, hnext⟩ := run_refines (before ++ [.poll token true]) sound_new hlen
  have hstart : (AlertWorld.run {} (before ++ [.poll token true])).nextAlertId ≤ before.length + 2 := by
    simpa [Nat.add_comm, Nat.add_left_comm] using hnext
  have hempty : waiting (AlertWorld.run {} (before ++ [.poll token true])) = [] := by
    obtain ⟨-, -, _, hsound, -, -⟩ := run_refines before sound_new
      (show 1 + before.length < 2 ^ 64 by omega)
    rw [run_append]
    exact waiting_answered hsound hfirst
  rw [run_append] at hlast
  exact shown_once_iff hsound hempty (by omega) hlast

/-! ## Two hundred and one alerts -/

def sampleKind : Line := ⟨bytes "x", by decide⟩

def sampleUser : Line := ⟨bytes "eve", by decide⟩

def sampleTime : {t : Int // Int64Range t} := ⟨0, by decide⟩

def sampleLog : AlertOp := .log sampleKind sampleUser Line.empty sampleTime true

theorem alerts_shown_one :
    (logged (AlertWorld.run {} ([] ++ [.poll [] true])) [sampleLog]).map (fun line =>
      (shown (AlertWorld.run {} ([] ++ [.poll [] true])) ([sampleLog] ++ [.poll [] true])).count line) =
      [1] := by
  have hone : ∀ line ∈ logged (AlertWorld.run {} ([] ++ [.poll [] true])) [sampleLog],
      (shown (AlertWorld.run {} ([] ++ [.poll [] true])) ([sampleLog] ++ [.poll [] true])).count line =
        1 := by
    refine (alerts_shown_iff (by decide) ?_ ?_).mpr ?_
    · unfold Answered
      decide
    · unfold Answered
      decide
    · refine ⟨?_, ?_, trivial⟩ <;> decide
  rw [List.map_congr_left hone]
  rfl

def burst : List AlertOp := List.replicate 201 sampleLog

theorem burst_room : ({} : AlertWorld).nextAlertId + burst.length < 2 ^ 64 := by
  rw [burst, List.length_replicate]
  decide

theorem burst_waiting : waiting (AlertWorld.run {} burst) = logged {} burst := by
  have hnew : waiting {} = [] := rfl
  rw [waiting_logs sound_new burst_room, hnew, List.nil_append]
  intro op hop u
  rw [List.eq_of_mem_replicate hop]
  rfl

/-- After two hundred and one alerts in a row the next poll does not show all of them. -/
theorem burst_loses_alert :
    Answered (AlertWorld.run {} []) [] ∧
    Answered (AlertWorld.run {} ([] ++ [.poll [] true] ++ burst)) [] ∧
    ¬ ∀ line ∈ logged (AlertWorld.run {} ([] ++ [.poll [] true])) burst,
      (shown (AlertWorld.run {} ([] ++ [.poll [] true])) (burst ++ [.poll [] true])).count line =
        1 := by
  have hstart : AlertWorld.run {} ([] ++ [.poll [] true]) = {} := by decide
  have hcount : (logged {} burst).length = 201 := by decide +kernel
  have hshort : ((Feed.newest 200 (logged {} burst)).flatMap fun l => l ++ [lf]).length ≤
      AdminClient.maxPayload := by decide +kernel
  obtain ⟨-, -, new, hsound, -, -⟩ := run_refines burst sound_new burst_room
  have hanswered : Answered (AlertWorld.run {} burst) [] := by
    refine answered_of_short hsound ?_ []
    rw [burst_waiting]
    exact hshort
  rw [run_append, hstart]
  refine ⟨by unfold Answered; decide, hanswered, fun hall => ?_⟩
  have hroom : ({} : AlertWorld).nextAlertId + burst.length + 1 < 2 ^ 64 := by
    rw [burst, List.length_replicate]
    decide
  have hnew : waiting {} = [] := rfl
  have hsmall := (shown_once_iff sound_new hnew hroom hanswered).mp hall
  have hlast := pollsSmall_last burst hsmall (by rw [step_poll]; exact hanswered)
  rw [burst_waiting, hcount] at hlast
  omega

end EncoderNext
