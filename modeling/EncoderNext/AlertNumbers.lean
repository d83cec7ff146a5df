import EncoderNext.Alerts

/-!
# The numbers of the alerts

The number of the next alert is found again in the file when the server starts. Names
may hold bars and move the fields of a line, but its number stays in front and the
line is written back as it was.
-/

namespace EncoderNext

namespace AuditService

structure Storable (alert : AlertRecord) : Prop where
  line : lf ∉ formatAlertLine alert
  id : alert.id < 2 ^ 64
  ts : Int64Range alert.ts

def readBack (alert : AlertRecord) : AlertRecord :=
  (parseAlertLine (formatAlertLine alert)).getD alert

theorem readBack_spec {alert : AlertRecord} (h : Storable alert) :
    parseAlertLine (formatAlertLine alert) = some (readBack alert) ∧ (readBack alert).id = alert.id ∧
      formatAlertLine (readBack alert) = formatAlertLine alert := by
  obtain ⟨read, hread, hid, hformat⟩ := parse_format h.id h.ts
  rw [readBack, hread]
  exact ⟨rfl, hid, hformat⟩

theorem lines_text {alerts : List AlertRecord} (h : ∀ a ∈ alerts, Storable a) :
    lines (alertsText alerts) = alerts.map formatAlertLine := by
  rw [alertsText, ← List.flatMap_map formatAlertLine fun l => l ++ [lf]]
  refine lines_flatMap fun l hl => ?_
  obtain ⟨a, ha, rfl⟩ := List.mem_map.mp hl
  exact (h a ha).line

theorem alertsOf_stored {alerts : List AlertRecord} (h : ∀ a ∈ alerts, Storable a) :
    alertsOf (alertsText alerts) = alerts.map readBack := by
  rw [alertsOf, lines_text h, List.filterMap_map, ← List.filterMap_eq_map]
  exact List.filterMap_congr fun a ha => (readBack_spec (h a ha)).1

theorem ids_stored {alerts : List AlertRecord} (h : ∀ a ∈ alerts, Storable a) :
    (alertsOf (alertsText alerts)).map (·.id) = alerts.map (·.id) := by
  rw [alertsOf_stored h, List.map_map]
  exact List.map_congr_left fun a ha => (readBack_spec (h a ha)).2.1

theorem newer_stored {alerts : List AlertRecord} (h : ∀ a ∈ alerts, Storable a) (sinceId : Nat) :
    ((alertsOf (alertsText alerts)).filter fun a => a.id > sinceId).map formatAlertLine =
      (alerts.filter fun a => a.id > sinceId).map formatAlertLine := by
  rw [alertsOf_stored h, List.filter_map, List.map_map]
  have hids : alerts.filter ((fun a : AlertRecord => decide (a.id > sinceId)) ∘ readBack) =
      alerts.filter fun a => a.id > sinceId := by
    refine List.filter_congr fun a ha => ?_
    rw [Function.comp_apply, (readBack_spec (h a ha)).2.1]
  rw [hids]
  exact List.map_congr_left fun a ha => (readBack_spec (h a (List.mem_of_mem_filter ha))).2.2

end AuditService

open AuditService

/-! ## Runs -/

def AlertOp.isLog : AlertOp → Bool
  | .log .. => true
  | _ => false

def AlertWorld.written (w : AlertWorld) : AlertOp → List AlertRecord
  | .log kind username detail ts true => [w.alertOf kind username detail ts]
  | _ => []

def writtenIn (w : AlertWorld) : List AlertOp → List AlertRecord
  | [] => []
  | op :: ops => w.written op ++ writtenIn (w.step op).1 ops

/-- The file holds the alerts, numbered upwards to a last number at most, after which
the next one follows. -/
structure Numbered (last : Nat) (w : AlertWorld) (alerts : List AlertRecord) : Prop where
  file : w.file = alertsText alerts
  stored : ∀ a ∈ alerts, Storable a
  upwards : alerts.Pairwise fun a b => a.id < b.id
  below : ∀ a ∈ alerts, a.id ≤ last
  next : w.nextAlertId = (last + 1) % 2 ^ 64

theorem numbered_restart {last : Nat} {w : AlertWorld} {alerts : List AlertRecord}
    (h : Numbered last w alerts) : loadLastAlertId w.file ≤ last ∧
      Numbered (loadLastAlertId w.file) (w.step .restart).1 alerts := by
  obtain ⟨-, hall, hone⟩ := lastOf_spec (alertsOf w.file) 0
  have hids : (alertsOf w.file).map (·.id) = alerts.map (·.id) := by
    rw [h.file]
    exact ids_stored h.stored
  refine ⟨?_, h.file, h.stored, h.upwards, fun a ha => ?_, rfl⟩
  · rcases hone with hone | ⟨a, ha, hone⟩
    · exact hone.trans_le (Nat.zero_le _)
    · have hmem : a.id ∈ alerts.map (·.id) := hids ▸ List.mem_map_of_mem ha
      obtain ⟨b, hb, hid⟩ := List.mem_map.mp hmem
      exact (hone.trans hid.symm).trans_le (h.below b hb)
  · have hmem : a.id ∈ (alertsOf w.file).map (·.id) := hids ▸ List.mem_map_of_mem ha
    obtain ⟨b, hb, hid⟩ := List.mem_map.mp hmem
    exact hid ▸ hall b hb

theorem storable_alertOf {last : Nat} {w : AlertWorld} {alerts : List AlertRecord}
    (h : Numbered last w alerts) (kind username detail : Line) (ts : {t : Int // Int64Range t}) :
    Storable (w.alertOf kind username detail ts) := by
  refine ⟨not_mem_joined (by decide) fun p hp => ?_, ?_, ts.2⟩
  · simp only [List.mem_cons, List.not_mem_nil, or_false] at hp
    rcases hp with rfl | rfl | rfl | rfl | rfl
    · exact not_numeral rfl (decimal_numeral _)
    · exact not_numeral rfl (decimalInt_numeral _)
    · exact kind.2
    · exact username.2
    · exact detail.2
  · show w.nextAlertId < 2 ^ 64
    rw [h.next]
    exact Nat.mod_lt _ (by decide)

theorem poll_keeps (w : AlertWorld) (token : Bytes) (arrives : Bool) :
    (w.step (.poll token arrives)).1.file = w.file ∧
    (w.step (.poll token arrives)).1.nextAlertId = w.nextAlertId := by
  cases arrives with
  | false => exact ⟨rfl, rfl⟩
  | true =>
    show (w.onRefreshAlerts token).1.file = _ ∧ (w.onRefreshAlerts token).1.nextAlertId = _
    unfold AlertWorld.onRefreshAlerts
    split
    · exact ⟨rfl, rfl⟩
    · dsimp only
      split <;> exact ⟨rfl, rfl⟩

/-- An operation keeps the numbers, and an alert uses up at most one. -/
theorem numbered_step {last : Nat} {w : AlertWorld} {alerts : List AlertRecord}
    (h : Numbered last w alerts) (op : AlertOp)
    (hroom : last + (if op.isLog then 1 else 0) < 2 ^ 64) :
    ∃ last' ≤ last + (if op.isLog then 1 else 0),
      Numbered last' (w.step op).1 (alerts ++ w.written op) := by
  cases op with
  | restart =>
    obtain ⟨hle, hnew⟩ := numbered_restart h
    exact ⟨_, hle, by simpa [AlertWorld.written] using hnew⟩
  | poll token arrives =>
    obtain ⟨hfile, hnext⟩ := poll_keeps w token arrives
    have hnone : w.written (.poll token arrives) = [] := rfl
    refine ⟨last, le_rfl, ?_⟩
    rw [hnone, List.append_nil]
    exact ⟨hfile.trans h.file, h.stored, h.upwards, h.below, hnext.trans h.next⟩
  | log kind username detail ts opened =>
    simp only [AlertOp.isLog, if_true] at hroom ⊢
    -- there is room, so the number has not wrapped
    have hnumber : w.nextAlertId = last + 1 := h.next.trans (Nat.mod_eq_of_lt hroom)
    have hnext : (w.step (.log kind username detail ts opened)).1.nextAlertId =
        (last + 1 + 1) % 2 ^ 64 := by
      rw [← hnumber]
      rfl
    refine ⟨last + 1, le_rfl, ?_⟩
    cases opened with
    | false =>
      have hnone : w.written (.log kind username detail ts false) = [] := rfl
      rw [hnone, List.append_nil]
      exact ⟨h.file, h.stored, h.upwards, fun a ha => (h.below a ha).trans (Nat.le_succ last), hnext⟩
    | true =>
      rw [AlertWorld.written]
      have hstored := storable_alertOf h kind username detail ts
      refine ⟨?_, ?_, ?_, ?_, hnext⟩
      · show w.file ++ (formatAlertLine (w.alertOf kind username detail ts) ++ [lf]) = _
        rw [h.file, alertsText, alertsText, List.flatMap_append, List.flatMap_singleton]
      · intro a ha
        rcases List.mem_append.mp ha with ha | ha
        · exact h.stored a ha
        · exact List.mem_singleton.mp ha ▸ hstored
      · refine List.pairwise_append.mpr ⟨h.upwards, List.pairwise_singleton _ _, fun a ha b hb => ?_⟩
        rw [List.mem_singleton.mp hb]
        show a.id < w.nextAlertId
        have := h.below a ha
        omega
      · intro a ha
        rcases List.mem_append.mp ha with ha | ha
        · exact (h.below a ha).trans (Nat.le_succ last)
        · rw [List.mem_singleton.mp ha]
          exact hnumber.le

theorem numbered_run : ∀ (ops : List AlertOp) {last : Nat} {w : AlertWorld} {alerts : List AlertRecord},
    Numbered last w alerts → last + ops.countP AlertOp.isLog < 2 ^ 64 →
    ∃ last', Numbered last' (w.run ops) (alerts ++ writtenIn w ops)
  | [], last, w, alerts, h, _ => ⟨last, by rwa [writtenIn, List.append_nil]⟩
  | op :: ops, last, w, alerts, h, hroom => by
    rw [List.countP_cons] at hroom
    obtain ⟨last', hle, hstep⟩ := numbered_step h op (by omega)
    obtain ⟨last'', hrun⟩ := numbered_run ops hstep (by omega)
    refine ⟨last'', ?_⟩
    rw [writtenIn, ← List.append_assoc]
    exact hrun

theorem numbered_new : Numbered 0 {} [] :=
  ⟨rfl, by simp, .nil, by simp, rfl⟩

/-- **The alerts of a file are what was logged.** While fewer than 2 ^ 64 alerts are
logged, the numbers of the lines increase, and what is newer than a number is written
back byte for byte as the lines that were logged with greater numbers; with a limit
these are the last of them. -/
theorem alert_file_exact {ops : List AlertOp} (h : ops.countP AlertOp.isLog < 2 ^ 64) :
    let file := (AlertWorld.run {} ops).file
    let logged := writtenIn {} ops
    lines file = logged.map formatAlertLine ∧
    (alertsOf file).map (·.id) = logged.map (·.id) ∧
    logged.Pairwise (fun a b => a.id < b.id) ∧
    ∀ sinceId : Nat,
      (getAlertsSince file sinceId 0).map formatAlertLine =
        (logged.filter fun a => a.id > sinceId).map formatAlertLine ∧
      ∀ limit > 0, (getAlertsSince file sinceId limit).map formatAlertLine =
        Feed.newest limit ((logged.filter fun a => a.id > sinceId).map formatAlertLine) := by
  obtain ⟨last, hn⟩ := numbered_run ops numbered_new (by omega)
  rw [List.nil_append] at hn
  dsimp only
  rw [hn.file]
  refine ⟨lines_text hn.stored, ids_stored hn.stored, hn.upwards, fun sinceId => ⟨?_, fun limit hl => ?_⟩⟩
  · rw [getAlertsSince, if_neg (by omega)]
    exact newer_stored hn.stored sinceId
  · rw [← newer_stored hn.stored sinceId, getAlertsSince]
    split
    · rw [Feed.newest, List.length_map, List.map_drop]
    · rename_i hfew
      rw [Feed.newest_eq]
      rw [List.length_map]
      omega

def barredLog : AlertOp :=
  .log sampleKind ⟨bytes "e|v|e", by decide⟩ Line.empty ⟨7, by decide⟩ true

theorem alert_file_barred :
    lines (AlertWorld.run {} [sampleLog, .restart, barredLog]).file =
      [bytes "1|0|x|eve|", bytes "2|7|x|e|v|e|"] ∧
    (getAlertsSince (AlertWorld.run {} [sampleLog, .restart, barredLog]).file 1 0).map formatAlertLine =
      [bytes "2|7|x|e|v|e|"] := by
  have hexact := @alert_file_exact [sampleLog, .restart, barredLog] (by decide)
  refine ⟨hexact.1.trans (by decide), ?_⟩
  exact ((hexact.2.2.2 1).1).trans (by decide)

def lostLog : AlertOp := .log sampleKind sampleUser Line.empty sampleTime false

theorem run_lost (n : Nat) : ∀ {w : AlertWorld}, w.nextAlertId < 2 ^ 64 →
    w.run (List.replicate n lostLog) = { w with nextAlertId := (w.nextAlertId + n) % 2 ^ 64 } := by
  induction n with
  | zero =>
    intro w hw
    rw [List.replicate_zero, Nat.add_zero, Nat.mod_eq_of_lt hw]
    rfl
  | succ n ih =>
    intro w hw
    have hstep : (w.step lostLog).1 = { w with nextAlertId := (w.nextAlertId + 1) % 2 ^ 64 } := rfl
    show (w.step lostLog).1.run (List.replicate n lostLog) = _
    rw [hstep, ih (Nat.mod_lt _ (by decide)), Nat.mod_add_mod, Nat.add_assoc, Nat.add_comm 1 n]

/-- Two alerts that reach the file and others between them that do not. -/
def apart (n : Nat) : List AlertOp := sampleLog :: (List.replicate n lostLog ++ [sampleLog])

theorem run_apart (n : Nat) : AlertWorld.run {} (apart n) =
    (AlertWorld.step { file := bytes "1|0|x|eve|\n", nextAlertId := (2 + n) % 2 ^ 64 } sampleLog).1 := by
  have hfirst : (AlertWorld.step {} sampleLog).1 = { file := bytes "1|0|x|eve|\n", nextAlertId := 2 } := by
    decide
  show ((AlertWorld.step {} sampleLog).1.run (List.replicate n lostLog ++ [sampleLog])) = _
  rw [hfirst, run_append, run_lost n (by decide)]
  rfl

/-- The last of 2 ^ 64 alerts gets the number zero. -/
theorem numbers_wrap :
    (alertsOf (AlertWorld.run {} (apart (2 ^ 64 - 2))).file).map (·.id) = [1, 0] := by
  have hzero : (2 + (2 ^ 64 - 2)) % 2 ^ 64 = 0 := by norm_num
  rw [run_apart, hzero]
  decide

end EncoderNext
