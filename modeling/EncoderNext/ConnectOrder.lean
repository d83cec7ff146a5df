import EncoderNext.ConnectDialog
import EncoderNext.RpcEnds

/-!
# The order of the Wi-Fi window

Buttons, timers and requests of the window, and what stands behind a state that it shows.
-/

namespace EncoderNext

open Program

/-! ## The window's own order -/

def Job.Open (job : Job) : Prop := ∀ reply, job.phase ≠ .done reply

namespace ConnectWindow

def ownNote : Note → Bool
  | .helper .. => false
  | _ => true

def windowLog (log : List Note) : List Note := log.filter ownNote

/-- The text of the window was found ready, and then the button was pressed. -/
def confirmed : List Note := [.shown (.told .awaitingConfirmation), .clicked .confirm]

/-- One request at a time, its answer looked for, and buttons that offer only what may be sent. -/
structure Orderly (d : WifiConnectDialog) (log : List Note) : Prop where
  request : d.request = true
  alone (n : Nat) (job : Job) : d.jobs[n]? = some job → job.Open → d.pending = some n
  held (n : Nat) : d.pending = some n → n < d.jobs.length
  polled : d.pending.isSome = true → d.poll = true
  followed : d.active = true → d.pending.isSome = true ∨ d.refresh = true
  fresh : d.startEnabled = true → d.jobs = [] ∧ d.refresh = false
  ready : d.confirmEnabled = true → d.startEnabled = false ∧ d.pending = none ∧
    [.shown (.told .awaitingConfirmation)] <:+ log
  cancels : d.cancelEnabled = true → d.startEnabled = false ∧ d.pending = none
  starts (n : Nat) (job : Job) : d.jobs[n]? = some job → job.action = .start → n = 0
  asked (n : Nat) (job : Job) : d.jobs[n]? = some job → job.Open → job.action = .confirm →
    confirmed <:+ log

section
variable {d : WifiConnectDialog} {log : List Note}

theorem orderly_opened : Orderly (.opened true) [] where
  request := rfl
  alone n job h := by simp [WifiConnectDialog.opened] at h
  held n h := by simp [WifiConnectDialog.opened] at h
  polled h := by simp [WifiConnectDialog.opened] at h
  followed h := by simp [WifiConnectDialog.opened] at h
  fresh _ := ⟨rfl, rfl⟩
  ready h := by simp [WifiConnectDialog.opened] at h
  cancels h := by simp [WifiConnectDialog.opened] at h
  starts n job h := by simp [WifiConnectDialog.opened] at h
  asked n job h := by simp [WifiConnectDialog.opened] at h

theorem send_pending {n : Nat} (hp : d.pending = some n) (thread : Bool) (action : WifiConnectAction)
    (profile : Option WifiProfile) : d.send thread action profile = d := by
  simp [WifiConnectDialog.send, hp]

theorem send_free (hr : d.request = true) (hp : d.pending = none) (thread : Bool)
    (action : WifiConnectAction) (profile : Option WifiProfile) :
    d.send thread action profile = { d with
      pending := some d.jobs.length
      jobs := d.jobs ++ [⟨action, profile, if thread then .waiting else .done {}⟩]
      confirmEnabled := false
      cancelEnabled := false
      poll := true } := by
  simp [WifiConnectDialog.send, hr, hp]

theorem sent_job {n : Nat} {job new : Job} (h : (d.jobs ++ [new])[n]? = some job) :
    d.jobs[n]? = some job ∨ n = d.jobs.length ∧ job = new := by
  by_cases hlt : n < d.jobs.length
  · rw [List.getElem?_append_left hlt] at h
    exact .inl h
  · rw [List.getElem?_append_right (by omega), List.getElem?_singleton] at h
    obtain ⟨hzero, hjob⟩ := Option.ite_none_right_eq_some.mp h
    exact .inr ⟨by omega, (Option.some.inj hjob).symm⟩

theorem send_orderly {action : WifiConnectAction} {log' : List Note} (hr : d.request = true)
    (hs : d.startEnabled = false) (hp : d.pending = none)
    (hjobs : ∀ (n : Nat) (job : Job), d.jobs[n]? = some job → ¬ job.Open)
    (hstarts : ∀ (n : Nat) (job : Job), d.jobs[n]? = some job → job.action = .start → n = 0)
    (hstart : action = .start → d.jobs = []) (hconfirm : action = .confirm → confirmed <:+ log')
    (thread : Bool) (profile : Option WifiProfile) :
    Orderly (d.send thread action profile) log' := by
  rw [send_free hr hp]
  refine ⟨hr, fun n job hn ho => ?_, fun n hn => ?_, fun _ => rfl, fun _ => .inl rfl, fun h => ?_,
    fun h => by simp at h, fun h => by simp at h, fun n job hn ha => ?_, fun n job hn ho ha => ?_⟩
  · rcases sent_job hn with hold | ⟨rfl, -⟩
    · exact absurd ho (hjobs n job hold)
    · rfl
  · simp only [Option.some.injEq] at hn
    simp [← hn]
  · simp [hs] at h
  · rcases sent_job hn with hold | ⟨rfl, rfl⟩
    · exact hstarts n job hold ha
    · simp [hstart ha]
  · rcases sent_job hn with hold | ⟨-, rfl⟩
    · exact absurd ho (hjobs n job hold)
    · exact hconfirm ha

theorem closed_jobs (h : Orderly d log) (hp : d.pending = none) :
    ∀ (n : Nat) (job : Job), d.jobs[n]? = some job → ¬ job.Open := by
  intro n job hn ho
  have := h.alone n job hn ho
  simp [hp] at this

def begun (d : WifiConnectDialog) : WifiConnectDialog :=
  { d with
    active := true
    startEnabled := false
    closeEnabled := false
    entryEnabled := false
    status := .started }

theorem onStart_cases (kdf : Pbkdf2) (d : WifiConnectDialog) (network password : Bytes) (thread : Bool) :
    d.onStart kdf network password thread = { d with status := .badEntry } ∨
    ∃ profile, d.onStart kdf network password thread = (begun d).send thread .start (some profile) := by
  unfold WifiConnectDialog.onStart
  cases WifiProfile.make kdf network password with
  | ok profile => exact .inr ⟨profile, rfl⟩
  | error e => exact .inl rfl

theorem fresh_free (h : Orderly d log) (hs : d.startEnabled = true) : d.pending = none := by
  cases hp : d.pending with
  | none => rfl
  | some n => simpa [(h.fresh hs).1] using h.held n hp

theorem onStart_orderly (h : Orderly d log) (hs : d.startEnabled = true) (kdf : Pbkdf2)
    (network password : Bytes) (thread : Bool) (log' : List Note) :
    Orderly (d.onStart kdf network password thread) log' := by
  obtain ⟨hjobs, -⟩ := h.fresh hs
  rcases onStart_cases kdf d network password thread with he | ⟨profile, he⟩
  · rw [he]
    refine ⟨h.request, fun n job hn => ?_, h.held, h.polled, h.followed, h.fresh, fun hc => ?_,
      h.cancels, fun n job hn => ?_, fun n job hn => ?_⟩
    · simp [hjobs] at hn
    · have := (h.ready hc).1
      simp [hs] at this
    · simp [hjobs] at hn
    · simp [hjobs] at hn
  · rw [he]
    have hnone : (begun d).jobs = [] := hjobs
    have hp : d.pending = none := fresh_free h hs
    have hother : WifiConnectAction.start = .confirm → confirmed <:+ log' := by simp
    refine send_orderly (d := begun d) h.request rfl hp ?_ ?_ (fun _ => hnone) hother thread _ <;>
      simp [hnone]

/-! What a reply leaves alone. -/

@[simp] theorem told_request (d : WifiConnectDialog) (st : WifiConnectState) :
    (d.told st).request = d.request := by cases st <;> rfl

@[simp] theorem told_jobs (d : WifiConnectDialog) (st : WifiConnectState) :
    (d.told st).jobs = d.jobs := by cases st <;> rfl

@[simp] theorem told_pending (d : WifiConnectDialog) (st : WifiConnectState) :
    (d.told st).pending = d.pending := by cases st <;> rfl

@[simp] theorem told_start (d : WifiConnectDialog) (st : WifiConnectState) :
    (d.told st).startEnabled = d.startEnabled := by cases st <;> rfl

@[simp] theorem told_status (d : WifiConnectDialog) (st : WifiConnectState) :
    (d.told st).status = .told st := by cases st <;> rfl

theorem told_confirm (d : WifiConnectDialog) (st : WifiConnectState) :
    (d.told st).confirmEnabled = true → d.confirmEnabled = true ∨ st = .awaitingConfirmation := by
  cases st <;> simp [WifiConnectDialog.told]

@[simp] theorem receive_request (d : WifiConnectDialog) (reply : WifiConnectReply) :
    (d.receive reply).request = d.request := by
  unfold WifiConnectDialog.receive
  cases reply.ok <;> simp

@[simp] theorem receive_jobs (d : WifiConnectDialog) (reply : WifiConnectReply) :
    (d.receive reply).jobs = d.jobs := by
  unfold WifiConnectDialog.receive
  cases reply.ok <;> simp

@[simp] theorem receive_pending (d : WifiConnectDialog) (reply : WifiConnectReply) :
    (d.receive reply).pending = none := by
  unfold WifiConnectDialog.receive
  cases reply.ok <;> simp

@[simp] theorem receive_start (d : WifiConnectDialog) (reply : WifiConnectReply) :
    (d.receive reply).startEnabled = d.startEnabled := by
  unfold WifiConnectDialog.receive
  cases reply.ok <;> simp

theorem receive_status (d : WifiConnectDialog) (reply : WifiConnectReply) :
    (d.receive reply).status = if reply.ok then .told reply.state else .unanswered := by
  unfold WifiConnectDialog.receive
  cases reply.ok <;> simp

theorem receive_followed (d : WifiConnectDialog) (reply : WifiConnectReply) :
    (d.receive reply).active = true → (d.receive reply).refresh = true := by
  unfold WifiConnectDialog.receive
  cases reply.ok <;> simp

theorem receive_confirm (d : WifiConnectDialog) (reply : WifiConnectReply) :
    (d.receive reply).confirmEnabled = true →
      d.confirmEnabled = true ∨ reply.ok = true ∧ reply.state = .awaitingConfirmation := by
  unfold WifiConnectDialog.receive
  cases reply.ok with
  | false => exact fun h => .inl h
  | true =>
    intro h
    rcases told_confirm _ reply.state h with h | h
    · exact .inl h
    · exact .inr ⟨rfl, h⟩

theorem arrived_some {reply : WifiConnectReply} (h : d.arrived = some reply) :
    ∃ n job, d.pending = some n ∧ d.jobs[n]? = some job ∧ job.phase = .done reply := by
  unfold WifiConnectDialog.arrived at h
  cases hp : d.pending with
  | none => simp [hp] at h
  | some n =>
    simp only [hp, Option.bind_some] at h
    split at h
    · rename_i job hjob
      cases h
      exact ⟨n, _, rfl, hjob, rfl⟩
    · cases h

theorem receive_orderly {reply : WifiConnectReply} (h : Orderly d log) (ha : d.arrived = some reply) :
    Orderly (d.receive reply) (log ++ [.shown (d.receive reply).status]) := by
  obtain ⟨n, job, hp, hjob, hdone⟩ := arrived_some ha
  have hclosed : ∀ (m : Nat) (other : Job), d.jobs[m]? = some other → ¬ other.Open := by
    intro m other hm ho
    have := h.alone m other hm ho
    rw [hp] at this
    cases this
    rw [hjob] at hm
    cases hm
    exact ho reply hdone
  have hstart : d.startEnabled = false := by
    cases hs : d.startEnabled with
    | false => rfl
    | true => simp [(h.fresh hs).1] at hjob
  refine ⟨by simp [h.request], fun m other hm ho => ?_, fun m hm => by simp at hm,
    fun hm => by simp at hm, fun hm => .inr (receive_followed d reply hm), fun hs => ?_,
    fun hc => ⟨by simp [hstart], by simp, ?_⟩, fun _ => ⟨by simp [hstart], by simp⟩,
    fun m other hm => ?_, fun m other hm ho => ?_⟩
  · rw [receive_jobs] at hm
    exact absurd ho (hclosed m other hm)
  · simp [hstart] at hs
  · rcases receive_confirm d reply hc with hc | ⟨hok, hst⟩
    · have := (h.ready hc).2.1
      simp [hp] at this
    · rw [receive_status, hok, hst]
      exact ⟨log, rfl⟩
  · rw [receive_jobs] at hm
    exact h.starts m other hm
  · rw [receive_jobs] at hm
    exact absurd ho (hclosed m other hm)

theorem settle_job {n m : Nat} {phase : JobPhase} {job : Job}
    (h : (d.settle n phase).jobs[m]? = some job) :
    ∃ old, d.jobs[m]? = some old ∧ job.action = old.action ∧
      (m ≠ n → job = old) ∧ (m = n → job.phase = phase) := by
  simp only [WifiConnectDialog.settle, List.getElem?_modify] at h
  obtain ⟨old, hold, hjob⟩ := Option.map_eq_some_iff.mp h
  refine ⟨old, hold, ?_⟩
  by_cases hm : n = m
  · simp only [hm, if_true] at hjob
    simp [← hjob, hm]
  · simp only [hm, if_false] at hjob
    simp [← hjob, Ne.symm hm]

theorem settle_orderly {n : Nat} {job : Job} (h : Orderly d log) (hn : d.jobs[n]? = some job)
    (ho : job.Open) (phase : JobPhase) : Orderly (d.settle n phase) log := by
  have hlen : (d.settle n phase).jobs.length = d.jobs.length := by simp [WifiConnectDialog.settle]
  refine ⟨h.request, fun m other hm ho' => ?_, fun m hm => hlen ▸ h.held m hm, h.polled, h.followed,
    fun hs => ?_, h.ready, h.cancels, fun m other hm ha => ?_, fun m other hm ho' ha => ?_⟩
  · obtain ⟨old, hold, -, hsame, -⟩ := settle_job hm
    by_cases hmn : m = n
    · exact hmn ▸ h.alone n job hn ho
    · exact h.alone m old hold (hsame hmn ▸ ho')
  · have := (h.fresh hs).1
    simp [this] at hn
  · obtain ⟨old, hold, hact, -, -⟩ := settle_job hm
    exact h.starts m old hold (hact ▸ ha)
  · obtain ⟨old, hold, hact, hsame, -⟩ := settle_job hm
    by_cases hmn : m = n
    · rw [hmn, hn] at hold
      cases hold
      exact h.asked n job hn ho (hact ▸ ha)
    · exact h.asked m old hold (hsame hmn ▸ ho') (hact ▸ ha)

theorem settle_pending {n m : Nat} {job other : Job} (h : Orderly d log) (hn : d.jobs[n]? = some job)
    (ho : job.Open) (phase : JobPhase) (hp : (d.settle n phase).pending = some m)
    (hm : (d.settle n phase).jobs[m]? = some other) : other = { job with phase := phase } := by
  obtain rfl : n = m := by
    have hpm : d.pending = some m := hp
    rw [h.alone n job hn ho] at hpm
    exact Option.some.inj hpm
  simp only [WifiConnectDialog.settle, List.getElem?_modify, hn] at hm
  simpa using hm.symm

theorem settle_waiting {n m : Nat} {job other : Job} {phase : JobPhase} (h : Orderly d log)
    (hn : d.jobs[n]? = some job) (ho : job.Open) (hphase : phase ≠ .waiting)
    (hm : (d.settle n phase).jobs[m]? = some other) : other.phase ≠ .waiting := by
  intro hw
  obtain ⟨old, hold, -, hsame, hset⟩ := settle_job hm
  by_cases hmn : m = n
  · exact hphase ((hset hmn).symm.trans hw)
  · have hopen : old.Open := by
      intro reply
      rw [← hsame hmn, hw]
      simp
    have hp := h.alone m old hold hopen
    rw [h.alone n job hn ho] at hp
    exact hmn (Option.some.inj hp).symm

end

/-! ## What a text rests on -/

def Source.away : Source → Bool
  | .asked _ => false
  | _ => true

/-- What the helper does for others, for the clock and for packets that nobody waits for. -/
def Foreign (log : List Note) : Prop :=
  ∀ note ∈ log, ∃ source e, note = .helper source e ∧ source.away = true

def Untouched (log : List Note) : Prop :=
  ∃ before note mid, log = before ++ note :: mid ∧ ownNote note = true ∧
    ∀ n c r, .helper (.asked n) (.call c r) ∈ mid → c.changes = false

/-- What stands behind a state in the window: the helper's last answer to the window, with the call
that has brought the change to its end, a start that failed and left everything as it was, or a
request that has changed nothing. -/
inductive Vouched (log : List Note) : WifiConnectState → Prop
  | answered {before mid : List Note} {n : Nat} {packet a : Bytes} {calls : List WifiRpc.Event}
      {st : WifiChangeState} :
      log = before ++ (.packet packet :: (calls ++ [WifiRpc.Event.answer a (some st)])).map (.helper (.asked n)) ++
        mid → Foreign mid →
      (∀ e, WifiRpc.ending st = some e →
        ∃ l, WifiRpc.since (helperLog before ++ .packet packet :: calls) = some l ∧ e ∈ l) →
      Vouched log (AdminWindow.shown st)
  | failed {before mid : List Note} {n : Nat} {packet a : Bytes} {calls : List WifiRpc.Event}
      {st : WifiChangeState} :
      log = before ++ (.packet packet :: (calls ++ [WifiRpc.Event.answer a (some st)])).map (.helper (.asked n)) ++
        mid → Foreign mid → WifiRpc.harmless calls = true → st = .idle ∨ st = .rolledBack →
      Vouched log .recoveryRequired
  | untouched : Untouched log → Vouched log .rejected

def begins : Note → Bool
  | .helper (.asked _) (.call .factory _) | .helper (.late _) (.call .factory _) => true
  | _ => false

/-- The button was pressed under a text that had just shown the network ready: as the last thing in
the window for a request that is waited for, and at some time for one that is not. -/
def Pressed (window : List Note) : Source → Prop
  | .asked _ => confirmed <:+ window
  | .late _ => confirmed <:+: window
  | .others => True

def Justified (pre : List Note) : Note → Prop
  | .helper source (.call .commit _) => Pressed (windowLog pre) source
  | .shown (.told st) => Vouched pre st
  | _ => True

section
variable {log more : List Note} {st : WifiConnectState}

theorem helperLog_append (log more : List Note) :
    helperLog (log ++ more) = helperLog log ++ helperLog more := List.filterMap_append

theorem windowLog_append (log more : List Note) :
    windowLog (log ++ more) = windowLog log ++ windowLog more := List.filter_append ..

theorem helperLog_helper (source : Source) (es : List WifiRpc.Event) :
    helperLog (es.map (.helper source)) = es := by
  induction es with
  | nil => rfl
  | cons e es ih =>
    unfold helperLog at ih ⊢
    simp [helperEvent, ih]

theorem windowLog_helper (source : Source) (es : List WifiRpc.Event) :
    windowLog (es.map (.helper source)) = [] := by
  unfold windowLog
  simp [ownNote]

theorem foreign_helper {source : Source} (h : source.away = true) (es : List WifiRpc.Event) :
    Foreign (es.map (.helper source)) := by
  intro note hn
  obtain ⟨e, -, rfl⟩ := List.mem_map.mp hn
  exact ⟨source, e, rfl, h⟩

theorem untouched_append (h : Untouched log)
    (hm : ∀ n c r, .helper (.asked n) (.call c r) ∈ more → c.changes = false) : Untouched (log ++ more) := by
  obtain ⟨before, note, mid, rfl, hown, hmid⟩ := h
  refine ⟨before, note, mid ++ more, by simp, hown, fun n c r hc => ?_⟩
  rcases List.mem_append.mp hc with hc | hc
  · exact hmid n c r hc
  · exact hm n c r hc

theorem untouched_foreign (h : Untouched log) (hf : Foreign more) : Untouched (log ++ more) := by
  refine untouched_append h fun n c r hc => ?_
  obtain ⟨source, e, he, haway⟩ := hf _ hc
  cases he
  cases haway

theorem vouched_foreign (h : Vouched log st) (hf : Foreign more) : Vouched (log ++ more) st := by
  have grow {mid : List Note} (hm : Foreign mid) : Foreign (mid ++ more) := fun note hn =>
    (List.mem_append.mp hn).elim (hm note) (hf note)
  cases h with
  | answered hlog hm hend => exact .answered (by rw [hlog, List.append_assoc]) (grow hm) hend
  | failed hlog hm hh hst => exact .failed (by rw [hlog, List.append_assoc]) (grow hm) hh hst
  | untouched hu => exact .untouched (untouched_foreign hu hf)

theorem lawful_helper {source : Source} {es : List WifiRpc.Event} (h : Program.Lawful Justified log)
    (he : ∀ r, .call .commit r ∈ es → Pressed (windowLog log) source) :
    Program.Lawful Justified (log ++ es.map (.helper source)) := by
  induction es using List.reverseRecOn with
  | nil => simpa using h
  | append_singleton es e ih =>
    rw [List.map_append, ← List.append_assoc]
    refine lawful_snoc (ih fun r hc => he r (by simp [hc])) ?_
    cases e with
    | call c r =>
      cases c with
      | commit =>
        have := he r (by simp)
        simpa [Justified, windowLog_append, windowLog_helper] using this
      | _ => trivial
    | _ => trivial

theorem begins_others (es : List WifiRpc.Event) : (es.map (Note.helper .others)).countP begins = 0 := by
  rw [List.countP_eq_zero]
  intro note hn
  obtain ⟨e, -, rfl⟩ := List.mem_map.mp hn
  simp [begins]

end

/-! ## One request at the helper -/

section
variable {kdf : Pbkdf2} {rpc rpc' : WifiRpc} {tr : List WifiRpc.Event} {packet a : Bytes}
  {seg : List WifiRpc.Event}

theorem head_packet {verb rest : Bytes} (h : byte '|' ∉ verb) :
    ((verb ++ byte '|' :: rest).splitOn (byte '|')).head? = some verb := by
  rw [List.splitOn_append_cons_self_of_not_mem h]
  rfl

theorem action_of_confirm {ticket : Bytes} {action : WifiConnectAction} (h : WifiRpc.Asks action packet)
    (hp : packet = WifiRpc.ticketPacket (bytes "confirm") ticket) : action = .confirm := by
  have hhead : (packet.splitOn (byte '|')).head? = some (bytes "confirm") :=
    hp ▸ head_packet (by decide)
  cases h with
  | start ssidHex pskHex =>
    rw [WifiRpc.startPacket, head_packet (by decide)] at hhead
    have hne : ¬ bytes "start" = bytes "confirm" := by decide
    exact absurd (Option.some.inj hhead) hne
  | ticketed t hne =>
    have hplain : ∀ verb ∈ WifiRpc.verbs, byte '|' ∉ verb := by decide
    obtain ⟨verb, hverb, hword⟩ := AdminWindow.prefixOf_eq action
    rw [hword, List.append_assoc, List.singleton_append, head_packet (hplain verb hverb)] at hhead
    rw [Option.some.inj hhead] at hword
    have hother : ∀ action : WifiConnectAction, action ≠ .start → action ≠ .confirm →
        AdminWindow.prefixOf action ≠ bytes "confirm" ++ [byte '|'] := by
      intro action
      cases action <;> decide
    by_contra hc
    exact hother action hne hc hword

theorem begins_handling (source : Source) (packet a : Bytes) (seg : List WifiRpc.Event) (rpc : WifiRpc) :
    (handling source packet a seg rpc).countP begins ≤ seg.countP WifiRpc.isFactory := by
  have hle : ∀ e : WifiRpc.Event, begins (.helper source e) = true → WifiRpc.isFactory e = true := by
    intro e he
    cases e with
    | call c r => cases c <;> first | rfl | simp [begins] at he
    | _ => simp [begins] at he
  have hends : ([WifiRpc.Event.answer a rpc.sessionState]).countP WifiRpc.isFactory = 0 := rfl
  rw [handling, List.countP_map]
  calc _ ≤ (WifiRpc.Event.packet packet :: (seg ++ [.answer a rpc.sessionState])).countP WifiRpc.isFactory :=
        List.countP_mono_left fun e _ => hle e
    _ = seg.countP WifiRpc.isFactory := by simp [hends, WifiRpc.isFactory]

theorem created_quiet (h : WifiRpc.Quiet seg) : seg.countP WifiRpc.isFactory = 0 := by
  rw [List.countP_eq_zero]
  intro e he
  simp [(h e he).1]

/-- One change at most is taken up for a packet, and only for a start. -/
theorem created_handled (h : WifiRpc.Handled kdf rpc packet seg a rpc') :
    seg.countP WifiRpc.isFactory ≤ 1 ∧ ∀ action, WifiRpc.Asks action packet → action ≠ .start →
      seg.countP WifiRpc.isFactory = 0 := by
  cases h with
  | malformed => simp
  | refused => simp
  | started hf _ _ hs =>
    refine ⟨?_, fun action hasks hne => absurd (AdminWindow.action_of_start hasks hf) hne⟩
    cases hs with
    | noBackend => simp [WifiRpc.isFactory]
    | failed ho => simp [List.countP_cons, created_quiet (WifiRpc.quiet_outcome ho), WifiRpc.isFactory]
    | opened ho => simp [List.countP_cons, created_quiet (WifiRpc.quiet_outcome ho), WifiRpc.isFactory]
  | ticketed _ _ _ _ _ _ hseg =>
    have hzero : seg.countP WifiRpc.isFactory = 0 := by
      refine created_quiet (WifiRpc.quiet_calls fun e he => ?_)
      obtain ⟨c, r, hcall, hc, -⟩ := hseg e he
      exact ⟨c, r, hcall, hc⟩
    simp [hzero]

end

end ConnectWindow

end EncoderNext
