import EncoderNext.ScanIpc

/-!
# A scan and its result

`wifi_scan_and_wait` attaches itself to the supplicant's events, asks for a scan, waits for the
event that ends it and asks for the table. Commands go one way and replies and events come back
the other way in one queue; the supplicant works and reports while the messages are in flight.
-/

namespace EncoderNext

open Program NetworkStatus ScanIpc

namespace ScanSession

/-! ## The program -/

inductive ControlCall where
  | connect
  | send (b : Bytes)
  | receive

/-- No datagram: the time is up, or the socket fails. -/
@[reducible] def ControlCall.Reply : ControlCall → Type
  | receive => Option Bytes
  | _ => Bool

abbrev ControlProgram := Program ControlCall ControlCall.Reply

abbrev Fallible := ExceptT String ControlProgram

abbrev control (c : ControlCall) : ControlProgram c.Reply := ask c

def eventValue (text : Bytes) : Option Bytes :=
  if text.length < 3 ∨ text.head? ≠ some (byte '<') then none
  else (splitAt? (byte '>') text).map (·.2)

def eventMatches (name value : Bytes) : Bool :=
  name.isPrefixOf value &&
    (value.length == name.length || value[name.length]? == some (byte ' ') ||
      value[name.length]? == some (byte '\n'))

def scanResults : Bytes := bytes "CTRL-EVENT-SCAN-RESULTS"

def scanFailed : Bytes := bytes "CTRL-EVENT-SCAN-FAILED"

structure Watch where
  scanSent : Bool := false
  completed : Bool := false
  failed : Bool := false
  deriving DecidableEq

/-- What an event changes; `none` for a text that is no event. -/
def event (w : Watch) (text : Bytes) : Option Watch :=
  (eventValue text).map fun value =>
    { w with
      completed := w.completed || w.scanSent && eventMatches scanResults value
      failed := w.failed || w.scanSent && eventMatches scanFailed value }

def timedOut : String := "Wi-Fi scan timed out or event stream invalid; completion unknown"

def receive : Fallible Bytes := do
  match ← control .receive with
  | none => throw timedOut
  | some text => if text = [] ∨ 65536 ≤ text.length then throw timedOut else return text

/-- The first datagram that is no event; `left` more may come in this call. -/
def awaitReply : Nat → Watch → Fallible (Bytes × Nat × Watch)
  | 0, _ => throw timedOut
  | left + 1, w => do
    let text ← receive
    match event w text with
    | none => return (text, left, w)
    | some w => awaitReply left w

def command (text : Bytes) (left : Nat) (w : Watch) : Fallible (Bytes × Nat × Watch) := do
  ensure (← control (.send text)) "Cannot send Wi-Fi scan command"
  awaitReply left w

def awaitEnd (left : Nat) (w : Watch) : Fallible (Nat × Watch) := do
  if w.completed || w.failed then return (left, w)
  else
    match left with
    | 0 => throw timedOut
    | left + 1 =>
      let text ← receive
      match event w text with
      | none => throw "Unexpected Wi-Fi scan response"
      | some w => awaitEnd left w

def attachText : Bytes := bytes "ATTACH"

def scanText : Bytes := bytes "SCAN"

def resultsText : Bytes := bytes "SCAN_RESULTS"

def okText : Bytes := bytes "OK\n"

def attach : Fallible (Nat × Watch) := do
  let (reply, left, w) ← command attachText 512 {}
  ensure (reply == okText) "Cannot monitor Wi-Fi scan completion"
  return (left, w)

def scan (left : Nat) (w : Watch) : Fallible Bytes := do
  let (reply, left, w) ← command scanText left { w with scanSent := true }
  ensure (reply == okText) "Wi-Fi scan rejected or busy; retry later"
  let (left, w) ← awaitEnd left w
  ensure (!w.failed) "Wi-Fi scan failed"
  let (table, _, _) ← command resultsText left w
  ensure (heading.isPrefixOf table) "Invalid Wi-Fi scan results"
  return table

/-- Once attached the call detaches itself, whatever came of it. -/
def wifiScanAndWait (path error : Bytes) : ControlProgram Scan := do
  if validPath path then
    if ← control .connect then
      match ← attach.run with
      | .error message => return ⟨false, [], bytes message⟩
      | .ok (left, w) =>
        let result ← (scan left w).run
        let _ ← control (.send (bytes "DETACH"))
        match result with
        | .error message => return ⟨false, [], bytes message⟩
        | .ok table => return ⟨true, table, error⟩
    else return ⟨false, [], bytes "Wi-Fi control socket unavailable or permission denied"⟩
  else return ⟨false, [], bytes "Invalid Wi-Fi control socket path"⟩

/-! ## The supplicant -/

/-- What the supplicant does, in order. -/
inductive Mark where
  | took (command reply : Bytes)
  | replied (command reply : Bytes)
  | event (text : Bytes)
  deriving DecidableEq

def Mark.text : Mark → Option Bytes
  | took _ _ => none
  | replied _ reply => some reply
  | event text => some text

/-- The marks up to the last datagram received, those ahead, and the supplicant's state. -/
structure Session where
  seen : List Mark := []
  ahead : List Mark := []
  commands : List Bytes := []
  busy : Option (Bytes × Bytes) := none
  monitored : Bool := false

def Session.log (s : Session) : List Mark := s.seen ++ s.ahead

/-- One step of the supplicant: it takes the next command up, with the reply that it will
give; it gives that reply; or it reports an event that may happen. Replies and events are
told apart by their form. -/
inductive Step (may : Session → Bytes → Prop) : Session → Session → Prop where
  | take {s : Session} {command reply : Bytes} {rest : List Bytes} : s.busy = none →
      s.commands = command :: rest → eventValue reply = none →
        Step may s { s with
          commands := rest
          busy := some (command, reply)
          ahead := s.ahead ++ [.took command reply]
          monitored := if command = attachText then reply == okText
            else s.monitored && command != bytes "DETACH" }
  | reply {s : Session} {command reply : Bytes} : s.busy = some (command, reply) →
      Step may s { s with busy := none, ahead := s.ahead ++ [.replied command reply] }
  | report {s : Session} {text : Bytes} : s.monitored = true → (eventValue text).isSome = true →
      may s text → Step may s { s with ahead := s.ahead ++ [.event text] }

def controlEnv : Env Session ControlCall ControlCall.Reply
  | s, .connect, _, s' => s' = s
  | s, .send b, true, s' => s' = { s with commands := s.commands ++ [b] }
  | s, .send _, false, s' => s' = s
  | s, .receive, none, s' => s' = s
  | s, .receive, some text, s' => ∃ silent m rest, s.ahead = silent ++ m :: rest ∧
      (∀ m ∈ silent, m.text = none) ∧ m.text = some text ∧
      s' = { s with seen := s.seen ++ silent ++ [m], ahead := rest }

def beside (may : Session → Bytes → Prop) : Env Session ControlCall ControlCall.Reply :=
  between (Step may) controlEnv

def isScanResults (text : Bytes) : Bool := (eventValue text).any (eventMatches scanResults)

/-- The scan was accepted, then one ended, then the table was made. -/
def Fresh (log : List Mark) (table : Bytes) : Prop :=
  ∃ text, isScanResults text = true ∧
    [.took scanText okText, .event text, .took resultsText table].Sublist log

/-- No scan ends between the reply that attaches the call and the taking up of its own scan. -/
def Timely (s : Session) (text : Bytes) : Prop :=
  isScanResults text = true → .replied attachText okText ∈ s.log → ∃ reply, .took scanText reply ∈ s.log

/-! ## Logs -/

def Events (marks : List Mark) : Prop := ∀ m ∈ marks, ∃ text, m = .event text ∧ (eventValue text).isSome = true

def TimelyLog (log : List Mark) : Prop := ∀ (front : List Mark) (text : Bytes) (rest : List Mark),
  log = front ++ .event text :: rest → isScanResults text = true →
    .replied attachText okText ∈ front → ∃ reply, .took scanText reply ∈ front

theorem events_snoc {marks : List Mark} {text : Bytes} (h : Events marks)
    (ht : (eventValue text).isSome = true) : Events (marks ++ [.event text]) := by
  intro m hm
  rcases List.mem_append.mp hm with hm | hm
  · exact h m hm
  · exact ⟨text, List.mem_singleton.mp hm, ht⟩

theorem timelyLog_snoc {log : List Mark} {m : Mark} (h : TimelyLog log)
    (hm : ∀ text, m = .event text → isScanResults text = true →
      .replied attachText okText ∈ log → ∃ reply, .took scanText reply ∈ log) :
    TimelyLog (log ++ [m]) := by
  intro front text rest hlog hresults hattached
  rcases List.eq_nil_or_concat rest with rfl | ⟨rest, last, rfl⟩
  · obtain ⟨rfl, hlast⟩ := List.append_inj' hlog rfl
    exact hm text (List.singleton_inj.mp hlast) hresults hattached
  · rw [List.concat_eq_append, ← List.cons_append, ← List.append_assoc] at hlog
    obtain ⟨hlog, -⟩ := List.append_inj' hlog rfl
    exact h _ _ _ hlog hresults hattached

theorem log_step {may : Session → Bytes → Prop} {s s' : Session} (h : Step may s s') :
    ∃ m, s'.log = s.log ++ [m] ∧ s'.seen = s.seen ∧ ∀ text, m = .event text → may s text := by
  cases h with
  | take => exact ⟨_, (List.append_assoc ..).symm, rfl, nofun⟩
  | reply => exact ⟨_, (List.append_assoc ..).symm, rfl, nofun⟩
  | report _ _ hmay =>
    refine ⟨_, (List.append_assoc ..).symm, rfl, fun text ht => ?_⟩
    cases ht
    exact hmay

theorem timely_step {s s' : Session} (h : Step Timely s s') (ht : TimelyLog s.log) :
    TimelyLog s'.log := by
  obtain ⟨m, hlog, -, hmay⟩ := log_step h
  rw [hlog]
  exact timelyLog_snoc ht fun text hm => hmay text hm

theorem fresh_step {may : Session → Bytes → Prop} {table : Bytes} : ∀ s s', Fresh s.log table →
    Step may s s' → Fresh s'.log table := by
  rintro s s' ⟨text, hresults, hsub⟩ h
  obtain ⟨m, hlog, -⟩ := log_step h
  exact ⟨text, hresults, hlog ▸ hsub.trans (List.sublist_append_left ..)⟩

theorem cut_unique {α : Type} {p : α → Prop} {x y : α} (hx : p x) (hy : p y) :
    ∀ {a b c d : List α}, (∀ z ∈ a, ¬p z) → (∀ z ∈ b, ¬p z) → a ++ x :: c = b ++ y :: d →
      a = b ∧ x = y ∧ c = d
  | [], [], _, _, _, _, h => ⟨rfl, List.cons.inj h⟩
  | [], z :: b, _, _, _, hb, h => by
    obtain ⟨rfl, -⟩ := List.cons.inj h
    exact absurd hx (hb x List.mem_cons_self)
  | z :: a, [], _, _, ha, _, h => by
    obtain ⟨rfl, -⟩ := List.cons.inj h
    exact absurd hy (ha z List.mem_cons_self)
  | z :: a, z' :: b, _, _, ha, hb, h => by
    obtain ⟨hhead, htail⟩ := List.cons.inj h
    obtain ⟨hab, hxy, hcd⟩ := cut_unique hx hy (fun z hz => ha z (List.mem_cons_of_mem _ hz))
      (fun z hz => hb z (List.mem_cons_of_mem _ hz)) htail
    exact ⟨by rw [hhead, hab], hxy, hcd⟩

/-! ## Between two commands, and behind one -/

structure Idle (seen : List Mark) (s : Session) : Prop where
  seen_eq : s.seen = seen
  commands : s.commands = []
  busy : s.busy = none
  ahead : Events s.ahead
  timely : TimelyLog s.log

theorem idle_step {seen : List Mark} : ∀ s s', Idle seen s → Step Timely s s' → Idle seen s' := by
  intro s s' h hs
  have ht := timely_step hs h.timely
  cases hs with
  | take _ hcommands => exact absurd (h.commands.symm.trans hcommands) (by simp)
  | reply hbusy => exact absurd (h.busy.symm.trans hbusy) (by simp)
  | report _ hvalue _ =>
    exact ⟨h.seen_eq, h.commands, h.busy, events_snoc h.ahead hvalue, ht⟩

/-- The marks behind a command, while it is in flight, in work, and answered. -/
inductive Course (command : Bytes) : List Mark → List Bytes → Option (Bytes × Bytes) → Prop where
  | sent {before : List Mark} : Events before → Course command before [command] none
  | taken {before during : List Mark} {reply : Bytes} : Events before → Events during →
      eventValue reply = none →
        Course command (before ++ .took command reply :: during) [] (some (command, reply))
  | answered {before during after : List Mark} {reply : Bytes} : Events before → Events during →
      Events after → eventValue reply = none →
        Course command (before ++ .took command reply :: during ++ .replied command reply :: after) [] none

def IsReply (m : Mark) : Prop := ∃ command reply, m = .replied command reply

theorem not_reply_of_events {marks : List Mark} (h : Events marks) : ∀ m ∈ marks, ¬IsReply m := by
  rintro m hm ⟨command, reply, rfl⟩
  obtain ⟨text, ht, -⟩ := h _ hm
  cases ht

theorem not_reply_taken {command reply : Bytes} {before during : List Mark} (hb : Events before)
    (hd : Events during) : ∀ m ∈ before ++ .took command reply :: during, ¬IsReply m := by
  intro m hm
  rcases List.mem_append.mp hm with hm | hm
  · exact not_reply_of_events hb m hm
  · rcases List.mem_cons.mp hm with rfl | hm
    · rintro ⟨_, _, h⟩
      cases h
    · exact not_reply_of_events hd m hm

theorem course_reply {command : Bytes} {front rest : List Mark} {m : Mark} {commands : List Bytes}
    {busy : Option (Bytes × Bytes)} (h : Course command (front ++ m :: rest) commands busy)
    (hm : IsReply m) (hfront : ∀ m ∈ front, ¬IsReply m) :
    commands = [] ∧ busy = none ∧ Events rest ∧ ∃ before during reply, Events before ∧ Events during ∧
      m = .replied command reply ∧ front = before ++ .took command reply :: during := by
  have hmem : m ∈ front ++ m :: rest := List.mem_append_right _ List.mem_cons_self
  generalize hmarks : front ++ m :: rest = marks at h hmem
  cases h with
  | sent hb => exact absurd hm (not_reply_of_events hb m hmem)
  | taken hb hd => exact absurd hm (not_reply_taken hb hd m hmem)
  | @answered before during after reply hb hd ha hr =>
    obtain ⟨rfl, rfl, rfl⟩ := cut_unique hm ⟨_, _, rfl⟩ hfront (not_reply_taken hb hd) hmarks
    exact ⟨rfl, rfl, ha, before, during, reply, hb, hd, rfl, rfl⟩

theorem course_marks {command : Bytes} {marks : List Mark} {commands : List Bytes}
    {busy : Option (Bytes × Bytes)} (h : Course command marks commands busy) : ∀ m ∈ marks,
      (∃ text, m = .event text ∧ (eventValue text).isSome = true) ∨
        (∃ reply, m = .took command reply) ∨
          ∃ reply, m = .replied command reply ∧ eventValue reply = none := by
  intro m hm
  cases h with
  | sent hb => exact .inl (hb m hm)
  | taken hb hd hr =>
    rcases List.mem_append.mp hm with hm | hm
    · exact .inl (hb m hm)
    · rcases List.mem_cons.mp hm with rfl | hm
      · exact .inr (.inl ⟨_, rfl⟩)
      · exact .inl (hd m hm)
  | answered hb hd ha hr =>
    rcases List.mem_append.mp hm with hm | hm
    · rcases List.mem_append.mp hm with hm | hm
      · exact .inl (hb m hm)
      · rcases List.mem_cons.mp hm with rfl | hm
        · exact .inr (.inl ⟨_, rfl⟩)
        · exact .inl (hd m hm)
    · rcases List.mem_cons.mp hm with rfl | hm
      · exact .inr (.inr ⟨_, rfl, hr⟩)
      · exact .inl (ha m hm)

structure Waiting (command : Bytes) (seen mid : List Mark) (s : Session) : Prop where
  seen_eq : s.seen = seen ++ mid
  silent : ∀ m ∈ mid, ¬IsReply m
  course : Course command (mid ++ s.ahead) s.commands s.busy
  timely : TimelyLog s.log

theorem course_step {command : Bytes} {mid : List Mark} {may : Session → Bytes → Prop} {s s' : Session}
    (h : Course command (mid ++ s.ahead) s.commands s.busy) (hs : Step may s s') :
    Course command (mid ++ s'.ahead) s'.commands s'.busy := by
  obtain ⟨seen, ahead, commands, busy, monitored⟩ := s
  generalize hmarks : mid ++ ahead = marks at h
  cases h with
  | sent hb =>
    cases hs with
    | take _ hcommands hreply =>
      cases hcommands
      rw [← List.append_assoc, hmarks]
      exact .taken hb nofun hreply
    | reply hbusy => cases hbusy
    | report _ hvalue _ =>
      rw [← List.append_assoc, hmarks]
      exact .sent (events_snoc hb hvalue)
  | taken hb hd hr =>
    cases hs with
    | take hbusy => cases hbusy
    | reply hbusy =>
      cases hbusy
      rw [← List.append_assoc, hmarks]
      exact .answered hb hd nofun hr
    | report _ hvalue _ =>
      rw [← List.append_assoc, hmarks, List.append_assoc, List.cons_append]
      exact .taken hb (events_snoc hd hvalue) hr
  | answered hb hd ha hr =>
    cases hs with
    | take _ hcommands => cases hcommands
    | reply hbusy => cases hbusy
    | report _ hvalue _ =>
      rw [← List.append_assoc, hmarks, List.append_assoc, List.cons_append]
      exact .answered hb hd (events_snoc ha hvalue) hr

theorem waiting_step {command : Bytes} {seen mid : List Mark} : ∀ s s', Waiting command seen mid s →
    Step Timely s s' → Waiting command seen mid s' := by
  intro s s' h hs
  obtain ⟨m, -, hseen, -⟩ := log_step hs
  exact ⟨hseen.trans h.seen_eq, h.silent, course_step h.course hs, timely_step hs h.timely⟩

/-! ## What the parts do -/

def Session.received (s : Session) (silent : List Mark) (m : Mark) (rest : List Mark) : Session :=
  { s with seen := s.seen ++ silent ++ [m], ahead := rest }

theorem received_log {s : Session} {silent rest : List Mark} {m : Mark}
    (h : s.ahead = silent ++ m :: rest) : (s.received silent m rest).log = s.log := by
  simp [Session.log, Session.received, h]

theorem receive_spec {I : Session → Prop} {Q : Bytes → Session → Prop} {s : Session}
    (hI : ∀ s s', I s → Step Timely s s' → I s') (h : I s)
    (hQ : ∀ s silent m rest text, I s → s.ahead = silent ++ m :: rest → (∀ m ∈ silent, m.text = none) →
      m.text = some text → Q text (s.received silent m rest)) :
    wpOk (beside Timely) Q (fun _ => True) receive s := by
  unfold receive
  rw [wpOk_ask]
  refine ⟨trivial, fun reply s₂ he => ?_⟩
  obtain ⟨s₁, h₁, heffect⟩ := of_between hI h he
  cases reply with
  | none => exact (wpOk_throw ..).mpr trivial
  | some text =>
    obtain ⟨silent, m, rest, hahead, hsilent, htext, rfl⟩ := heffect
    dsimp only
    split
    · exact (wpOk_throw ..).mpr trivial
    · exact (wpOk_pure ..).mpr ⟨trivial, hQ s₁ silent m rest text h₁ hahead hsilent htext⟩

def Counted (start : Watch) (marks : List Mark) (w : Watch) : Prop :=
  w.scanSent = start.scanSent ∧ (w.completed = true → start.completed = true ∨
    start.scanSent = true ∧ ∃ text, .event text ∈ marks ∧ isScanResults text = true)

theorem counted_mono {start w : Watch} {marks more : List Mark} (h : Counted start marks w)
    (hsub : ∀ text, .event text ∈ marks → .event text ∈ more) : Counted start more w := by
  refine ⟨h.1, fun hcompleted => ?_⟩
  rcases h.2 hcompleted with hbefore | ⟨hsent, text, hmem, hresults⟩
  · exact .inl hbefore
  · exact .inr ⟨hsent, text, hsub text hmem, hresults⟩

theorem counted_event {start w w' : Watch} {marks more : List Mark} {text : Bytes}
    (h : Counted start marks w) (he : event w text = some w') (hmem : .event text ∈ more)
    (hsub : ∀ m ∈ marks, m ∈ more) : Counted start more w' := by
  obtain ⟨value, hvalue, rfl⟩ := Option.map_eq_some_iff.mp he
  refine ⟨h.1, fun hcompleted => ?_⟩
  rcases Bool.or_eq_true_iff.mp hcompleted with hbefore | hnow
  · exact (counted_mono h fun text htext => hsub _ htext).2 hbefore
  · obtain ⟨hsent, hmatches⟩ := Bool.and_eq_true_iff.mp hnow
    refine .inr ⟨h.1 ▸ hsent, text, hmem, ?_⟩
    rw [isScanResults, hvalue]
    exact hmatches

def Replied (command : Bytes) (seen : List Mark) (start : Watch) (reply : Bytes) (w : Watch)
    (s : Session) : Prop :=
  ∃ before during, Events before ∧ Events during ∧ Counted start (before ++ during) w ∧
    Idle (seen ++ (before ++ .took command reply :: during ++ [.replied command reply])) s

theorem awaitReply_spec {text : Bytes} {seen : List Mark} {start : Watch} : ∀ (left : Nat) {mid : List Mark}
    {w : Watch} {s : Session}, Waiting text seen mid s → Counted start mid w →
      wpOk (beside Timely) (fun r s' => Replied text seen start r.1 r.2.2 s') (fun _ => True)
        (awaitReply left w) s
  | 0, _, _, _, _, _ => (wpOk_throw ..).mpr trivial
  | left + 1, mid, w, s, h, hw => by
    unfold awaitReply
    rw [wpOk_bind]
    refine receive_spec waiting_step h fun s₁ silent m rest reply h₁ hahead hsilent htext => ?_
    -- no reply came before this datagram
    have hquiet : ∀ m ∈ mid ++ silent, ¬IsReply m := by
      intro m hm
      rcases List.mem_append.mp hm with hm | hm
      · exact h₁.silent m hm
      · rintro ⟨_, _, rfl⟩
        exact absurd (hsilent _ hm) (by simp [Mark.text])
    have hmarks : mid ++ s₁.ahead = (mid ++ silent) ++ m :: rest := by rw [hahead, List.append_assoc]
    have hcourse := h₁.course
    rw [hmarks] at hcourse
    have htimely : TimelyLog (s₁.received silent m rest).log := by
      rw [received_log hahead]
      exact h₁.timely
    have hkind := course_marks hcourse m (List.mem_append_right _ List.mem_cons_self)
    rcases hkind with ⟨text', rfl, hvalue⟩ | ⟨_, rfl⟩ | ⟨reply', rfl, hvalue⟩
    · obtain rfl : text' = reply := Option.some.inj htext
      obtain ⟨value, hvalue⟩ := Option.isSome_iff_exists.mp hvalue
      obtain ⟨w', hevent⟩ : ∃ w', event w text' = some w' := by
        rw [event, hvalue]
        exact ⟨_, rfl⟩
      rw [hevent]
      have hnext : Waiting text seen (mid ++ silent ++ [.event text'])
          (s₁.received silent (.event text') rest) := by
        refine ⟨by simp [Session.received, h₁.seen_eq], ?_, by simpa [Session.received] using hcourse, htimely⟩
        intro m hm
        rcases List.mem_append.mp hm with hm | hm
        · exact hquiet m hm
        · rw [List.mem_singleton.mp hm]
          rintro ⟨_, _, h⟩
          cases h
      refine awaitReply_spec left hnext ?_
      exact counted_event hw hevent (by simp) fun m hm => by simp [hm]
    · cases htext
    · obtain rfl : reply' = reply := Option.some.inj htext
      have hevent : event w reply' = none := by rw [event, hvalue, Option.map_none]
      rw [hevent]
      obtain ⟨hcommands, hbusy, hrest, before, during, reply, hb, hd, heq, hfront⟩ :=
        course_reply hcourse ⟨_, _, rfl⟩ hquiet
      cases heq
      refine (wpOk_pure ..).mpr ⟨trivial, before, during, hb, hd, counted_mono hw fun text' hmem => ?_, ?_⟩
      · have hmem' : Mark.event text' ∈ mid ++ silent := List.mem_append_left _ hmem
        rw [hfront] at hmem'
        simpa using hmem'
      · refine ⟨?_, hcommands, hbusy, hrest, htimely⟩
        simp [Session.received, h₁.seen_eq, ← hfront]

theorem command_spec {text : Bytes} {seen : List Mark} {left : Nat} {w : Watch} {s : Session}
    (h : Idle seen s) :
    wpOk (beside Timely) (fun r s' => Replied text seen w r.1 r.2.2 s') (fun _ => True)
      (command text left w) s := by
  unfold command
  rw [wpOk_ask]
  refine ⟨trivial, fun sent s₂ he => ?_⟩
  obtain ⟨s₁, h₁, heffect⟩ := of_between idle_step h he
  rw [wpOk_ensure]
  refine ⟨trivial, fun hsent => ?_⟩
  subst hsent
  obtain rfl : s₂ = { s₁ with commands := s₁.commands ++ [text] } := heffect
  have hcourse : Course text s₁.ahead (s₁.commands ++ [text]) s₁.busy := by
    rw [h₁.commands, h₁.busy]
    exact .sent h₁.ahead
  have hwaiting : Waiting text seen [] { s₁ with commands := s₁.commands ++ [text] } :=
    ⟨by rw [List.append_nil]; exact h₁.seen_eq, by simp, hcourse, h₁.timely⟩
  exact awaitReply_spec left hwaiting ⟨rfl, .inl⟩

def Attached (seen : List Mark) : Prop :=
  .replied attachText okText ∈ seen ∧ ∀ reply, .took scanText reply ∉ seen

def Accepted (seen : List Mark) (w : Watch) : Prop :=
  ∃ front back, seen = front ++ .took scanText okText :: back ∧ Counted { scanSent := true } back w

theorem attach_spec {s : Session} (h : Idle [] s) : wpOk (beside Timely)
    (fun r s' => r.2.completed = false ∧ ∃ seen, Idle seen s' ∧ Attached seen) (fun _ => True) attach s := by
  unfold attach
  rw [wpOk_bind]
  refine wpOk_post (command_spec h) ?_
  rintro ⟨reply, left, w⟩ s₁ - ⟨before, during, hb, hd, hw, hidle⟩
  dsimp only at hw hidle ⊢
  rw [wpOk_ensure]
  refine ⟨trivial, fun hok => ?_⟩
  obtain rfl : reply = okText := beq_iff_eq.mp hok
  refine (wpOk_pure ..).mpr ⟨trivial, ?_, _, hidle, by simp, ?_⟩
  · rw [Bool.eq_false_iff]
    intro hcompleted
    rcases hw.2 hcompleted with hbefore | ⟨hsent, -⟩
    · cases hbefore
    · cases hsent
  · intro reply hmem
    have hnot : attachText ≠ scanText := by decide
    simp only [List.nil_append, List.mem_append, List.mem_cons, List.not_mem_nil, or_false] at hmem
    rcases hmem with (hmem | hmem | hmem) | hmem
    · obtain ⟨_, ht, -⟩ := hb _ hmem
      cases ht
    · injection hmem with hcommand
      exact hnot hcommand.symm
    · obtain ⟨_, ht, -⟩ := hd _ hmem
      cases ht
    · cases hmem

theorem awaitEnd_spec : ∀ (left : Nat) {seen : List Mark} {w : Watch} {s : Session}, Idle seen s →
    Accepted seen w → wpOk (beside Timely)
      (fun r s' => (r.2.completed || r.2.failed) = true ∧ ∃ seen, Idle seen s' ∧ Accepted seen r.2)
      (fun _ => True) (awaitEnd left w) s := by
  intro left
  induction left with
  | zero =>
    intro seen w s h hw
    unfold awaitEnd
    split
    · rename_i hended
      exact (wpOk_pure ..).mpr ⟨trivial, hended, seen, h, hw⟩
    · exact (wpOk_throw ..).mpr trivial
  | succ left ih =>
    intro seen w s h hw
    unfold awaitEnd
    split
    · rename_i hended
      exact (wpOk_pure ..).mpr ⟨trivial, hended, seen, h, hw⟩
    · dsimp only
      rw [wpOk_bind]
      refine receive_spec idle_step h fun s₁ silent m rest text h₁ hahead _ htext => ?_
      have hevents := h₁.ahead
      rw [hahead] at hevents
      -- nothing is asked for, so only events come
      obtain ⟨text', rfl, -⟩ := hevents m (List.mem_append_right _ List.mem_cons_self)
      obtain rfl : text' = text := Option.some.inj htext
      cases hevent : event w text' with
      | none => exact (wpOk_throw ..).mpr trivial
      | some w' =>
        obtain ⟨front, back, hseen, hcounted⟩ := hw
        have hidle : Idle (seen ++ silent ++ [.event text']) (s₁.received silent (.event text') rest) := by
          refine ⟨by rw [Session.received, h₁.seen_eq], h₁.commands, h₁.busy, ?_, ?_⟩
          · exact fun m hm => hevents m (List.mem_append_right _ (List.mem_cons_of_mem _ hm))
          · rw [received_log hahead]
            exact h₁.timely
        refine ih hidle ⟨front, back ++ silent ++ [.event text'], ?_, ?_⟩
        · rw [hseen]
          simp
        · exact counted_event hcounted hevent (by simp) fun m hm => by simp [hm]

/-- Events reported before the scan was taken up are not of the kind that is counted. -/
theorem accepted_of_replied {seen : List Mark} {w w' : Watch} {s : Session} (hattached : Attached seen)
    (hw : w.completed = false) (hsent : w.scanSent = true) (h : Replied scanText seen w okText w' s) :
    ∃ seen, Idle seen s ∧ Accepted seen w' := by
  obtain ⟨before, during, hb, hd, hcounted, hidle⟩ := h
  refine ⟨_, hidle, seen ++ before, during ++ [.replied scanText okText], by simp, ?_⟩
  refine ⟨hcounted.1.trans hsent, fun hcompleted => .inr ⟨rfl, ?_⟩⟩
  obtain ⟨-, text, hmem, hresults⟩ := (hcounted.2 hcompleted).resolve_left (by simp [hw])
  rcases List.mem_append.mp hmem with hmem | hmem
  · exfalso
    obtain ⟨front, back, rfl⟩ := List.append_of_mem hmem
    have hlog : s.log = (seen ++ front) ++ .event text :: (back ++ .took scanText okText :: during ++
        [.replied scanText okText] ++ s.ahead) := by
      rw [Session.log, hidle.seen_eq]
      simp
    obtain ⟨reply, htaken⟩ := hidle.timely _ _ _ hlog hresults (List.mem_append_left _ hattached.1)
    rcases List.mem_append.mp htaken with htaken | htaken
    · exact hattached.2 reply htaken
    · obtain ⟨_, ht, -⟩ := hb _ (List.mem_append_left _ htaken)
      cases ht
  · exact ⟨text, by simp [hmem], hresults⟩

theorem fresh_of_replied {seen : List Mark} {w w' w'' : Watch} {table : Bytes} {s : Session}
    (haccepted : Accepted seen w) (hcompleted : w.completed = true)
    (h : Replied resultsText seen w' table w'' s) : Fresh s.log table := by
  obtain ⟨front, back, rfl, hcounted⟩ := haccepted
  obtain ⟨-, text, hmem, hresults⟩ := (hcounted.2 hcompleted).resolve_left (by simp)
  obtain ⟨before, during, -, -, -, hidle⟩ := h
  obtain ⟨back₁, back₂, rfl⟩ := List.append_of_mem hmem
  refine ⟨text, hresults, ?_⟩
  have hlog : s.log = (front ++ [.took scanText okText]) ++ ((back₁ ++ [.event text]) ++
      ((back₂ ++ before ++ [.took resultsText table]) ++ (during ++ .replied resultsText table :: s.ahead))) := by
    rw [Session.log, hidle.seen_eq]
    simp
  rw [hlog]
  have hlast : ∀ (marks : List Mark) (m : Mark), [m].Sublist (marks ++ [m]) := fun marks m =>
    List.sublist_append_right marks [m]
  exact (hlast _ _).append ((hlast _ _).append ((hlast _ _).trans (List.sublist_append_left _ _)))

theorem scan_spec {left : Nat} {seen : List Mark} {w : Watch} {s : Session} (h : Idle seen s)
    (hattached : Attached seen) (hw : w.completed = false) :
    wpOk (beside Timely) (fun table s' => Fresh s'.log table) (fun _ => True) (scan left w) s := by
  unfold scan
  rw [wpOk_bind]
  refine wpOk_post (command_spec h) ?_
  rintro ⟨reply, left, w₁⟩ s₁ - hreplied
  dsimp only at hreplied ⊢
  rw [wpOk_ensure]
  refine ⟨trivial, fun hok => ?_⟩
  obtain rfl : reply = okText := beq_iff_eq.mp hok
  obtain ⟨seen₁, hidle, haccepted⟩ := accepted_of_replied (w := { w with scanSent := true }) hattached hw rfl
    hreplied
  rw [wpOk_bind]
  refine wpOk_post (awaitEnd_spec left hidle haccepted) ?_
  rintro ⟨left, w₂⟩ s₂ - ⟨hended, seen₂, hidle₂, haccepted₂⟩
  dsimp only at hended hidle₂ haccepted₂ ⊢
  rw [wpOk_ensure]
  refine ⟨trivial, fun hfailed => ?_⟩
  have hcompleted : w₂.completed = true := by
    rwa [(Bool.not_eq_true' _).mp hfailed, Bool.or_false] at hended
  rw [wpOk_bind]
  refine wpOk_post (command_spec hidle₂) ?_
  rintro ⟨table, left, w₃⟩ s₃ - hreplied₃
  dsimp only at hreplied₃ ⊢
  rw [wpOk_ensure]
  refine ⟨trivial, fun _ => ?_⟩
  exact (wpOk_pure ..).mpr ⟨trivial, fresh_of_replied haccepted₂ hcompleted hreplied₃⟩

def FreshOrEmpty (scan : Scan) (s : Session) : Prop :=
  (scan.ok = true → Fresh s.log scan.output) ∧ (scan.ok = false → scan.output = [])

theorem idle_start : Idle [] {} :=
  ⟨rfl, rfl, rfl, nofun, fun front text rest h => absurd h.symm (by simp [Session.log])⟩

/-! ## Runs -/

section
variable {env : Env Session ControlCall ControlCall.Reply} {s s₁ s₂ : Session} {text : Bytes} {left : Nat}
  {w w' : Watch} {r : Except String (Bytes × Nat × Watch)}

theorem receive_runs (h : env s .receive (some text) s₁) (hne : text ≠ []) (hlen : text.length < 65536) :
    Runs env receive.run s (.ok text) s₁ := by
  have hfits : ¬(text = [] ∨ 65536 ≤ text.length) := by
    rw [not_or]
    exact ⟨hne, by omega⟩
  unfold receive
  refine .call h ?_
  show Runs env (if text = [] ∨ 65536 ≤ text.length then throw timedOut else pure text : Fallible Bytes).run _ _ _
  rw [if_neg hfits]
  exact .done _ _

theorem awaitReply_runs (h : env s .receive (some text) s₁) (hne : text ≠ []) (hlen : text.length < 65536)
    (hr : eventValue text = none) : Runs env (awaitReply (left + 1) w).run s (.ok (text, left, w)) s₁ := by
  unfold awaitReply
  refine runs_run_bind (receive_runs h hne hlen) ?_
  have hevent : event w text = none := by rw [event, hr, Option.map_none]
  rw [hevent]
  exact .done _ _

theorem awaitReply_event (h : env s .receive (some text) s₁) (hne : text ≠ []) (hlen : text.length < 65536)
    (hevent : event w text = some w') (hrest : Runs env (awaitReply left w').run s₁ r s₂) :
    Runs env (awaitReply (left + 1) w).run s r s₂ := by
  unfold awaitReply
  refine runs_run_bind (receive_runs h hne hlen) ?_
  rw [hevent]
  exact hrest

theorem ensure_runs {b : Bool} {message : String} (h : b = true) :
    Runs env (ensure b message : Fallible Unit).run s (.ok ()) s := by
  subst h
  exact .done _ _

theorem command_runs (h : env s (.send text) true s₁) (hrest : Runs env (awaitReply left w).run s₁ r s₂) :
    Runs env (command text left w).run s r s₂ := by
  unfold command
  exact .call h hrest

end

/-! ## A scan that ends in time, and one that ended too early -/

def endEvent : Bytes := bytes "<3>CTRL-EVENT-SCAN-RESULTS"

def attachedTo (seen ahead : List Mark) (commands : List Bytes) : Session :=
  { seen := seen, ahead := ahead, commands := commands, monitored := true }

theorem eventValue_ok : eventValue okText = none := by decide

theorem eventValue_heading : eventValue heading = none := by decide

theorem resultsText_monitored : (if resultsText = attachText then heading == okText
    else true && resultsText != bytes "DETACH") = true := by decide

theorem endEvent_counted : event { scanSent := true } endEvent =
    some { scanSent := true, completed := true } := by decide

section
variable {may : Session → Bytes → Prop} {seen : List Mark} {s : Session} {b asked reply : Bytes}

theorem sends : beside may s (.send b) true { s with commands := s.commands ++ [b] } := ⟨s, .refl, rfl⟩

theorem takes {monitored : Bool} (h : eventValue reply = none)
    (hmonitored : (if asked = attachText then reply == okText
      else monitored && asked != bytes "DETACH") = true) :
    Step may { seen := seen, commands := [asked], monitored := monitored }
      { attachedTo seen [.took asked reply] [] with busy := some (asked, reply) } := by
  have htake : Step may { seen := seen, commands := [asked], monitored := monitored } _ := .take rfl rfl h
  rwa [hmonitored] at htake

theorem receives_reply {monitored : Bool} (h : eventValue reply = none)
    (hmonitored : (if asked = attachText then reply == okText
      else monitored && asked != bytes "DETACH") = true) :
    beside may { seen := seen, commands := [asked], monitored := monitored } .receive (some reply)
      (attachedTo (seen ++ [.took asked reply] ++ [.replied asked reply]) [] []) := by
  refine ⟨_, .tail (.single (takes h hmonitored)) (.reply rfl), [.took asked reply],
    .replied asked reply, [], rfl, ?_, rfl, rfl⟩
  simp [Mark.text]

def attachLog : List Mark := [.took attachText okText, .replied attachText okText]

theorem attach_runs : Runs (beside may) attach.run {} (.ok (511, {})) (attachedTo attachLog [] []) := by
  unfold attach
  refine runs_run_bind (command_runs sends
    (awaitReply_runs (receives_reply eventValue_ok (by decide)) (by decide) (by decide) eventValue_ok)) ?_
  exact .done _ _

/-- A scan that is already counted as ended is followed by its table. -/
theorem scan_runs {scanned : List Mark} (h : Runs (beside may) (command scanText 511 { scanSent := true }).run
    (attachedTo attachLog [] []) (.ok (okText, 509, { scanSent := true, completed := true }))
    (attachedTo scanned [] [])) :
    Runs (beside may) (scan 511 {}).run (attachedTo attachLog [] []) (.ok heading) (attachedTo
      (scanned ++ [.took resultsText heading] ++ [.replied resultsText heading]) [] []) := by
  unfold scan
  refine runs_run_bind h (runs_run_bind (ensure_runs (beq_self_eq_true okText)) ?_)
  have hended : Runs (beside may) (awaitEnd 509 { scanSent := true, completed := true }).run
      (attachedTo scanned [] []) (.ok (509, { scanSent := true, completed := true }))
      (attachedTo scanned [] []) := by
    unfold awaitEnd
    exact .done _ _
  refine runs_run_bind hended (runs_run_bind (ensure_runs rfl) ?_)
  refine runs_run_bind (command_runs sends (awaitReply_runs
    (receives_reply eventValue_heading resultsText_monitored) (by decide) (by decide) eventValue_heading)) ?_
  refine runs_run_bind (ensure_runs (by decide)) ?_
  exact .done _ _

theorem wifiScanAndWait_runs {scanned : List Mark} (h : Runs (beside may) (scan 511 {}).run
    (attachedTo attachLog [] []) (.ok heading) (attachedTo scanned [] [])) :
    Runs (beside may) (wifiScanAndWait (bytes "/run/wpa_supplicant/wlan0") []) {} ⟨true, heading, []⟩
      (attachedTo scanned [] [bytes "DETACH"]) := by
  have hconnect : beside may {} .connect true {} := ⟨_, .refl, rfl⟩
  have hdetach : beside may (attachedTo scanned [] []) (.send (bytes "DETACH")) true
      (attachedTo scanned [] [bytes "DETACH"]) := ⟨_, .refl, rfl⟩
  unfold wifiScanAndWait
  rw [if_pos (by decide)]
  refine runs_bind (.call hconnect (.done _ _)) ?_
  rw [if_pos rfl]
  exact runs_bind attach_runs (runs_bind h (.call hdetach (.done _ _)))

end

/-- An earlier scan ends when the call is attached and has not yet asked for its own. -/
def earlyLog : List Mark :=
  attachLog ++ [.event endEvent] ++ [.took scanText okText] ++ [.replied scanText okText]

def timelyLog : List Mark :=
  attachLog ++ [.took scanText okText] ++ [.event endEvent] ++ [.replied scanText okText]

theorem early_runs : Runs (beside fun _ _ => True) (command scanText 511 { scanSent := true }).run
    (attachedTo attachLog [] []) (.ok (okText, 509, { scanSent := true, completed := true }))
    (attachedTo earlyLog [] []) := by
  have hreport : Step (fun _ _ => True) (attachedTo attachLog [] []) (attachedTo attachLog [.event endEvent] []) :=
    .report rfl (by decide) trivial
  have hsend : beside (fun _ _ => True) (attachedTo attachLog [] []) (.send scanText) true
      (attachedTo attachLog [.event endEvent] [scanText]) := ⟨_, .single hreport, rfl⟩
  have hevent : beside (fun _ _ => True) (attachedTo attachLog [.event endEvent] [scanText]) .receive
      (some endEvent) (attachedTo (attachLog ++ [.event endEvent]) [] [scanText]) :=
    ⟨_, .refl, [], .event endEvent, [], rfl, by simp, rfl, rfl⟩
  exact command_runs hsend (awaitReply_event hevent (by decide) (by decide) endEvent_counted
    (awaitReply_runs (receives_reply eventValue_ok (by decide)) (by decide) (by decide) eventValue_ok))

theorem timely_runs : Runs (beside Timely) (command scanText 511 { scanSent := true }).run
    (attachedTo attachLog [] []) (.ok (okText, 509, { scanSent := true, completed := true }))
    (attachedTo timelyLog [] []) := by
  have hreport : Step Timely
      { attachedTo attachLog [.took scanText okText] [] with busy := some (scanText, okText) }
      { attachedTo attachLog [.took scanText okText, .event endEvent] [] with busy := some (scanText, okText) } :=
    .report rfl (by decide) fun _ _ => ⟨okText, by simp [Session.log, attachedTo]⟩
  have hevent : beside Timely (attachedTo attachLog [] [scanText]) .receive (some endEvent)
      { attachedTo (attachLog ++ [.took scanText okText] ++ [.event endEvent]) [] [] with
        busy := some (scanText, okText) } :=
    ⟨_, .tail (.single (takes eventValue_ok (by decide))) hreport, [.took scanText okText],
      .event endEvent, [], rfl, by simp [Mark.text], rfl, rfl⟩
  have hreply : beside Timely { attachedTo (attachLog ++ [.took scanText okText] ++ [.event endEvent]) [] [] with
      busy := some (scanText, okText) } .receive (some okText) (attachedTo timelyLog [] []) :=
    ⟨_, .single (.reply rfl), [], .replied scanText okText, [], rfl, by simp, rfl, rfl⟩
  exact command_runs sends (awaitReply_event hevent (by decide) (by decide) endEvent_counted
    (awaitReply_runs hreply (by decide) (by decide) eventValue_ok))

/-- **A table is fresh where no scan ends too early.** -/
theorem scan_fresh (path error : Bytes) (scan : Scan) (s : Session)
    (h : Runs (beside Timely) (wifiScanAndWait path error) {} scan s) : FreshOrEmpty scan s := by
  have hempty : ∀ (text : Bytes) (s : Session), FreshOrEmpty ⟨false, [], text⟩ s :=
    fun _ _ => ⟨nofun, fun _ => rfl⟩
  refine runs_of_wp (K := fun _ => True) ?_ h
  unfold wifiScanAndWait
  split
  swap
  · exact ⟨trivial, hempty ..⟩
  rw [wp_ask_bind]
  refine ⟨trivial, fun connected s₂ he => ?_⟩
  obtain ⟨s₁, hidle, heffect⟩ := of_between idle_step idle_start he
  obtain rfl : s₂ = s₁ := heffect
  cases connected with
  | false => exact ⟨trivial, hempty ..⟩
  | true =>
    rw [if_pos rfl, wp_bind]
    refine wp_post (attach_spec hidle) fun r s₃ _ hattach => ?_
    cases r with
    | error message => exact ⟨trivial, hempty ..⟩
    | ok r =>
      obtain ⟨hw, seen, hidle₃, hattached⟩ := hattach r rfl
      dsimp only
      rw [wp_bind]
      refine wp_post (scan_spec hidle₃ hattached hw) fun result s₄ _ hscan => ?_
      rw [wp_ask_bind]
      refine ⟨trivial, fun sent s₆ he => ?_⟩
      cases result with
      | error message => exact ⟨trivial, hempty ..⟩
      | ok table =>
        obtain ⟨s₅, hfresh, heffect⟩ := of_between fresh_step (hscan table rfl) he
        have hlog : s₆.log = s₅.log := by
          cases sent with
          | false => rw [show s₆ = s₅ from heffect]
          | true =>
            obtain rfl : s₆ = _ := heffect
            rfl
        exact ⟨trivial, fun _ => hlog ▸ hfresh, nofun⟩

theorem scan_fresh_timely : FreshOrEmpty ⟨true, heading, []⟩ (attachedTo
    (timelyLog ++ [.took resultsText heading] ++ [.replied resultsText heading]) [] [bytes "DETACH"]) :=
  scan_fresh _ _ _ _ (wifiScanAndWait_runs (scan_runs timely_runs))

/-- The end of an earlier scan is taken for the end of one's own. -/
theorem scan_not_fresh : ∃ s, Runs (beside fun _ _ => True)
    (wifiScanAndWait (bytes "/run/wpa_supplicant/wlan0") []) {} ⟨true, heading, []⟩ s ∧
      ¬FreshOrEmpty ⟨true, heading, []⟩ s := by
  refine ⟨_, wifiScanAndWait_runs (scan_runs early_runs), ?_⟩
  rintro ⟨hfresh, -⟩
  obtain ⟨text, -, hsub⟩ := hfresh rfl
  have hmem := hsub.subset (by simp : Mark.event text ∈ [.took scanText okText, .event text, .took resultsText heading])
  obtain rfl : text = endEvent := by simpa [Session.log, attachedTo, earlyLog, attachLog] using hmem
  revert hsub
  decide

end ScanSession

end EncoderNext
