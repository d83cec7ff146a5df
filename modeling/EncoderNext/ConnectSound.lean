import EncoderNext.ConnectOrder

/-!
# What the Wi-Fi window shows and what it confirms

Over every order of clicks, timers, threads, answers and other people's packets: at most one request
is under way, a commit for the window follows a click on a shown confirmation, and a state that the
window shows is the one the helper was in when it answered.
-/

namespace EncoderNext

open Program

namespace ConnectWindow

/-! ## Every run -/

def Sayable (log : List Note) (job : Job) : Prop :=
  match job.phase with
  | .waiting => Untouched log
  | .asked answer => ∀ ticket, (AdminWindow.understand job.action ticket answer).1.ok = true →
      Vouched log (AdminWindow.understand job.action ticket answer).1.state
  | .done reply => reply.ok = true → Vouched log reply.state

def texts (log : List Note) : List ConnectStatus :=
  log.filterMap fun
    | .shown status => some status
    | _ => none

def Queued.isStart (q : Queued) : Bool := q.action = .start

/-- The changes that the helper has taken up for the window, and those that it may yet take up for
packets nobody waits for. -/
def System.taken (s : System) : Nat := s.log.countP begins + s.queue.countP Queued.isStart

structure Inv (kdf : Pbkdf2) (s : System) : Prop where
  helper : WifiRpc.Reach kdf (s.rpc, helperLog s.log)
  settled : WifiRpc.Settled s.rpc (helperLog s.log)
  orderly : Orderly s.dialog (windowLog s.log)
  lawful : Program.Lawful Justified s.log
  sayable (n : Nat) (job : Job) : s.dialog.pending = some n → s.dialog.jobs[n]? = some job → Sayable s.log job
  queued (q : Queued) : q ∈ s.queue →
    WifiRpc.Asks q.action q.packet ∧ (q.action = .confirm → confirmed <:+: windowLog s.log)
  once : s.taken ≤ 1
  first : s.dialog.jobs = [] → s.taken = 0
  unasked (n : Nat) (job : Job) : s.dialog.jobs[n]? = some job → job.phase = .waiting →
    job.action = .start → s.taken = 0
  text : (texts s.log).getLastD .entry = s.dialog.status

section
variable {kdf : Pbkdf2} {s s' : System} {log more : List Note}

theorem texts_append (log more : List Note) : texts (log ++ more) = texts log ++ texts more :=
  List.filterMap_append

theorem texts_helper (source : Source) (es : List WifiRpc.Event) :
    texts (es.map (.helper source)) = [] := by
  unfold texts
  simp

theorem sayable_foreign {job : Job} (h : Sayable log job) (hf : Foreign more) : Sayable (log ++ more) job := by
  unfold Sayable at h ⊢
  cases hphase : job.phase with
  | waiting =>
    simp only [hphase] at h ⊢
    exact untouched_foreign h hf
  | asked answer =>
    simp only [hphase] at h ⊢
    exact fun ticket hok => vouched_foreign (h ticket hok) hf
  | done reply =>
    simp only [hphase] at h ⊢
    exact fun hok => vouched_foreign (h hok) hf

theorem inv_opened : Inv kdf { dialog := .opened true } where
  helper := .refl
  settled s h := by cases h
  orderly := orderly_opened
  lawful := lawful_nil
  sayable n job h := by simp [WifiConnectDialog.opened] at h
  queued q h := by simp at h
  once := by simp [System.taken]
  first _ := by simp [System.taken]
  unasked n job h := by simp [WifiConnectDialog.opened] at h
  text := rfl

theorem away_inv {source : Source} {rpc : WifiRpc} {queue : List Queued} {es : List WifiRpc.Event}
    (h : Inv kdf s) (haway : source.away = true)
    (hr : WifiRpc.Reach kdf (rpc, helperLog s.log ++ es)) (hs : WifiRpc.Settled rpc (helperLog s.log ++ es))
    (hpressed : ∀ r, .call .commit r ∈ es → Pressed (windowLog s.log) source)
    (hsub : ∀ q ∈ queue, q ∈ s.queue)
    (htaken : (es.map (Note.helper source)).countP begins + queue.countP Queued.isStart ≤
      s.queue.countP Queued.isStart) :
    Inv kdf { s with rpc := rpc, queue := queue, log := s.log ++ es.map (.helper source) } := by
  have hlog : helperLog (s.log ++ es.map (Note.helper source)) = helperLog s.log ++ es := by
    rw [helperLog_append, helperLog_helper]
  have hwin : windowLog (s.log ++ es.map (Note.helper source)) = windowLog s.log := by
    rw [windowLog_append, windowLog_helper, List.append_nil]
  have hle : (s.log ++ es.map (Note.helper source)).countP begins + queue.countP Queued.isStart ≤ s.taken := by
    rw [List.countP_append, System.taken]
    omega
  refine ⟨hlog ▸ hr, hlog ▸ hs, hwin ▸ h.orderly, lawful_helper h.lawful hpressed, fun n job hp hn => ?_,
    fun q hq => ?_, hle.trans h.once, fun hd => ?_, fun n job hn hw ha => ?_, ?_⟩
  · exact sayable_foreign (h.sayable n job hp hn) (foreign_helper haway es)
  · exact hwin ▸ h.queued q (hsub q hq)
  · exact Nat.le_zero.mp (h.first hd ▸ hle)
  · exact Nat.le_zero.mp (h.unasked n job hn hw ha ▸ hle)
  · rw [texts_append, texts_helper, List.append_nil]
    exact h.text

theorem window_inv {d : WifiConnectDialog} {notes : List Note} (h : Inv kdf s)
    (hown : ∀ note ∈ notes, ownNote note = true) (ho : Orderly d (windowLog s.log ++ notes))
    (hl : Program.Lawful Justified (s.log ++ notes))
    (hsay : ∀ (n : Nat) (job : Job), d.pending = some n → d.jobs[n]? = some job →
      Sayable (s.log ++ notes) job)
    (hfirst : d.jobs = [] → s.dialog.jobs = [])
    (hold : ∀ (n : Nat) (job : Job), d.jobs[n]? = some job → job.phase = .waiting → job.action = .start →
      s.dialog.jobs = [] ∨ s.dialog.jobs[n]? = some job)
    (htext : (texts (s.log ++ notes)).getLastD .entry = d.status) : Inv kdf (s.window d notes) := by
  have hlog : helperLog (s.log ++ notes) = helperLog s.log := by
    have hnone : helperLog notes = [] := by
      refine List.filterMap_eq_nil_iff.mpr fun note hn => ?_
      have := hown note hn
      cases note <;> simp_all [ownNote, helperEvent]
    rw [helperLog_append, hnone, List.append_nil]
  have hcount : (s.window d notes).taken = s.taken := by
    have hnone : notes.countP begins = 0 := by
      refine List.countP_eq_zero.mpr fun note hn => ?_
      have := hown note hn
      cases note <;> simp_all [ownNote, begins]
    rw [System.taken, System.taken, System.window, List.countP_append, hnone, Nat.add_zero]
  have hwin : windowLog (s.log ++ notes) = windowLog s.log ++ notes := by
    rw [windowLog_append, windowLog, windowLog, List.filter_eq_self.mpr hown]
  refine ⟨hlog ▸ h.helper, hlog ▸ h.settled, hwin ▸ ho, hl, hsay, fun q hq => ?_, ?_, ?_, ?_, htext⟩
  · obtain ⟨hasks, hconfirm⟩ := h.queued q hq
    exact ⟨hasks, fun ha => hwin ▸ (hconfirm ha).trans (List.prefix_append ..).isInfix⟩
  · rw [hcount]
    exact h.once
  · rw [hcount]
    exact fun hd => h.first (hfirst hd)
  · rw [hcount]
    intro n job hn hw ha
    rcases hold n job hn hw ha with hnil | hjob
    · exact h.first hnil
    · exact h.unasked n job hjob hw ha

theorem sent_sayable {d : WifiConnectDialog} (hr : d.request = true) (hp : d.pending = none)
    (hu : Untouched log) (thread : Bool) (action : WifiConnectAction) (profile : Option WifiProfile) :
    ∀ (n : Nat) (job : Job), (d.send thread action profile).pending = some n →
      (d.send thread action profile).jobs[n]? = some job → Sayable log job := by
  rw [send_free hr hp]
  intro n job hn hjob
  obtain rfl : d.jobs.length = n := Option.some.inj hn
  rcases sent_job hjob with hold | ⟨-, rfl⟩
  · simp at hold
  · cases thread with
    | true => exact hu
    | false => exact fun hok => by simp at hok

theorem untouched_last {note : Note} (hown : ownNote note = true) : Untouched (log ++ [note]) :=
  ⟨log, note, [], rfl, hown, by simp⟩

theorem send_status (d : WifiConnectDialog) (thread : Bool) (action : WifiConnectAction)
    (profile : Option WifiProfile) : (d.send thread action profile).status = d.status := by
  unfold WifiConnectDialog.send
  by_cases hb : (!d.request || d.pending.isSome) = true <;> simp [hb]

theorem sent_inv {action : WifiConnectAction} {note : Note} (h : Inv kdf s)
    (hs : s.dialog.startEnabled = false) (hp : s.dialog.pending = none) (hne : action ≠ .start)
    (hnote : note = .clicked action ∨ note = .refreshed)
    (hconfirm : action = .confirm → confirmed <:+ windowLog s.log ++ [note]) (thread : Bool) :
    Inv kdf (s.window (s.dialog.send thread action) [note]) := by
  have hown : ownNote note = true := by
    rcases hnote with rfl | rfl <;> rfl
  have hjust : Justified s.log note := by
    rcases hnote with rfl | rfl <;> trivial
  have hsilent : texts [note] = [] := by
    rcases hnote with rfl | rfl <;> rfl
  have hr := h.orderly.request
  refine window_inv h (by simpa using hown) ?_ (lawful_snoc h.lawful hjust) ?_ (fun hd => ?_)
    (fun n job hn hw ha => ?_) ?_
  · exact send_orderly hr hs hp (closed_jobs h.orderly hp) h.orderly.starts (fun ha => absurd ha hne)
      hconfirm thread none
  · exact sent_sayable hr hp (untouched_last hown) thread action none
  · rw [send_free hr hp] at hd
    simp at hd
  · rw [send_free hr hp] at hn
    rcases sent_job hn with hjob | ⟨-, rfl⟩
    · exact .inr hjob
    · exact absurd ha hne
  · rw [texts_append, hsilent, List.append_nil, send_status]
    exact h.text

theorem start_inv (h : Inv kdf s) (hs : s.dialog.startEnabled = true) (network password : Bytes)
    (thread : Bool) :
    Inv kdf (s.window (s.dialog.onStart kdf network password thread)
      [.clicked .start, .shown (s.dialog.onStart kdf network password thread).status]) := by
  obtain ⟨hjobs, -⟩ := h.orderly.fresh hs
  have hp := fresh_free h.orderly hs
  have horderly := onStart_orderly h.orderly hs kdf network password thread (windowLog s.log ++
    [.clicked .start, .shown (s.dialog.onStart kdf network password thread).status])
  have hlawful {status : ConnectStatus} (hst : status = .badEntry ∨ status = .started) :
      Program.Lawful Justified (s.log ++ [.clicked .start, .shown status]) := by
    rw [List.append_cons]
    refine lawful_snoc (lawful_snoc h.lawful trivial) ?_
    rcases hst with rfl | rfl <;> trivial
  rcases onStart_cases kdf s.dialog network password thread with he | ⟨profile, he⟩
  · rw [he] at horderly ⊢
    refine window_inv h (by simp [ownNote]) horderly (hlawful (.inl rfl)) (fun n job hn => ?_)
      (fun _ => hjobs) (fun _ _ _ _ _ => .inl hjobs) (by simp [texts])
    simp [hp] at hn
  · have hst : ((begun s.dialog).send thread .start (some profile)).status = .started := send_status ..
    rw [he] at horderly ⊢
    rw [hst] at horderly ⊢
    refine window_inv h (by simp [ownNote]) horderly (hlawful (.inr rfl)) ?_ (fun _ => hjobs)
      (fun _ _ _ _ _ => .inl hjobs) (by simp [texts, hst])
    have hu : Untouched (s.log ++ [.clicked .start, .shown .started]) := by
      rw [List.append_cons]
      exact untouched_last rfl
    exact sent_sayable (d := begun s.dialog) h.orderly.request hp hu thread .start (some profile)

theorem poll_inv (h : Inv kdf s) :
    Inv kdf (s.window s.dialog.onPoll (shownNote s.dialog s.dialog.onPoll)) := by
  unfold WifiConnectDialog.onPoll shownNote
  cases ha : s.dialog.arrived with
  | none => simpa [System.window] using h
  | some reply =>
    obtain ⟨n, job, hp, hjob, hdone⟩ := arrived_some ha
    have hjust : Justified s.log (.shown (s.dialog.receive reply).status) := by
      rw [receive_status]
      cases hok : reply.ok with
      | false => trivial
      | true =>
        have hsay := h.sayable n job hp hjob
        simp only [Sayable, hdone] at hsay
        exact hsay hok
    refine window_inv h (by simp [ownNote]) (receive_orderly h.orderly ha) (lawful_snoc h.lawful hjust)
      (fun m other hm => ?_) (fun hd => ?_) (fun m other hm _ _ => ?_) ?_
    · simp at hm
    · simpa using hd
    · exact .inr (by simpa using hm)
    · simp [texts]

theorem settle_inv {n : Nat} {job : Job} {phase : JobPhase} (h : Inv kdf s)
    (hn : s.dialog.jobs[n]? = some job) (ho : job.Open) (hphase : phase ≠ .waiting)
    (hsay : Sayable s.log { job with phase := phase }) :
    Inv kdf (s.window (s.dialog.settle n phase) []) := by
  refine window_inv h (by simp) ?_ (by simpa using h.lawful) (fun m other hp hm => ?_) (fun hd => ?_)
    (fun m other hm hw _ => absurd hw (settle_waiting h.orderly hn ho hphase hm)) ?_
  · simpa using settle_orderly h.orderly hn ho phase
  · rw [List.append_nil, settle_pending h.orderly hn ho phase hp hm]
    exact hsay
  · simpa [WifiConnectDialog.settle] using hd
  · rw [List.append_nil]
    exact h.text

theorem gaveUp_inv {n : Nat} {job : Job} {packet : Bytes} {phase : JobPhase} (h : Inv kdf s)
    (hn : s.dialog.jobs[n]? = some job) (hw : job.phase = .waiting)
    (hpacket : AdminWindow.packetOf s.ticket job.profile job.action = some packet)
    (hphase : GivenUp phase) :
    Inv kdf { s with
      dialog := s.dialog.settle n phase
      queue := s.queue ++ [⟨n, job.action, packet⟩] } := by
  have ho : job.Open := by
    intro reply
    simp [hw]
  -- the request is not waited for any more
  have hne : phase ≠ .waiting := by
    cases hphase <;> simp
  have hsay : Sayable s.log { job with phase := phase } := by
    cases hphase with
    | thrown => exact fun hok => by simp at hok
    | unknown herror =>
      intro ticket hok
      have hother := herror
      simp only [refusals, List.mem_cons, List.not_mem_nil, or_false] at hother
      simp only [AdminWindow.understand, if_neg hother] at hok
      cases hok
  have hset := settle_inv h hn ho hne hsay
  simp only [System.window, List.append_nil] at hset
  refine ⟨hset.helper, hset.settled, hset.orderly, hset.lawful, hset.sayable, fun q hq => ?_, ?_,
    fun hd => ?_, fun m other hm hwait => absurd hwait (settle_waiting h.orderly hn ho hne hm), hset.text⟩
  · rcases List.mem_append.mp hq with hq | hq
    · exact h.queued q hq
    · obtain rfl := List.mem_singleton.mp hq
      exact ⟨AdminWindow.asks_packetOf hpacket, fun ha => (h.orderly.asked n job hn ho ha).isInfix⟩
  · -- A start that is given up has been waited for until now, so no change has been taken up.
    simp only [System.taken, List.countP_append, List.countP_singleton, Queued.isStart]
    by_cases hstart : job.action = .start
    · have := h.unasked n job hn hw hstart
      simp only [System.taken] at this
      simp [hstart]
      omega
    · have := h.once
      simp only [System.taken] at this
      simp [hstart]
      omega
  · have : s.dialog.jobs = [] := by simpa [WifiConnectDialog.settle] using hd
    simp [this] at hn

end

/-! ## What the helper does for a request -/

section
variable {kdf : Pbkdf2} {s s' : System} {log : List Note} {rpc rpc' : WifiRpc} {packet a : Bytes}
  {tr seg : List WifiRpc.Event} {action : WifiConnectAction} {answer : Except Bytes Bytes}

theorem harmless_state (h : WifiRpc.Handled kdf rpc packet seg a rpc')
    (hh : WifiRpc.harmless seg = true) :
    ∃ st, rpc'.sessionState = some st ∧ (st = .idle ∨ st = .rolledBack) := by
  cases h with
  | malformed => simp [WifiRpc.harmless] at hh
  | refused => simp [WifiRpc.harmless] at hh
  | started _ _ _ hs =>
    cases hs with
    | noBackend => simp [WifiRpc.harmless, WifiRpc.stopped, WifiRpc.undone] at hh
    | failed ho =>
      cases ho with
      | noEthernet t s _ hst => exact ⟨_, rfl, .inl hst⟩
      | noTicket t s _ hst => exact ⟨_, rfl, .inl hst⟩
      | notPrepared t d r s _ hst =>
        cases r with
        | true => exact ⟨_, rfl, .inr hst⟩
        | false => simp [WifiRpc.harmless, WifiRpc.stopped, WifiRpc.undone] at hh
      | notActivated t d r s _ hst =>
        cases r with
        | true => exact ⟨_, rfl, .inr hst⟩
        | false => simp [WifiRpc.harmless, WifiRpc.stopped, WifiRpc.undone] at hh
    | opened ho =>
      cases ho with
      | opened t d s _ _ => simp [WifiRpc.harmless, WifiRpc.stopped, WifiRpc.undone] at hh
  | ticketed hf hv hs hl hk ha hseg =>
    cases seg with
    | nil => simp [WifiRpc.harmless] at hh
    | cons e seg =>
      obtain ⟨c, r, rfl, hc, -⟩ := hseg e List.mem_cons_self
      cases c <;> simp [WifiRpc.harmless] at hh hc

theorem harmless_recovery (h : WifiRpc.Handled kdf rpc packet seg a rpc')
    (hh : WifiRpc.harmless seg = true) : WifiRpc.named a = some .recoveryRequired := by
  have hnames := WifiRpc.handled_names h
  have hnot : ¬ WifiRpc.Names a rpc'.sessionState := by simp [hnames, hh]
  cases h with
  | malformed => simp [WifiRpc.harmless] at hh
  | refused => simp [WifiRpc.harmless] at hh
  | started _ _ _ hs =>
    cases hs with
    | noBackend => simp [WifiRpc.harmless, WifiRpc.stopped, WifiRpc.undone] at hh
    | failed => exact WifiRpc.named_recoveryRequired
    | opened ho =>
      refine absurd ?_ hnot
      rw [hnames]
      cases ho with
      | opened t d s ht hs => rfl
  | ticketed hf hv hs hl hk ha hseg =>
    refine absurd (fun st hst => ?_) hnot
    rcases ha with rfl | rfl
    · simp [WifiRpc.named_error] at hst
    · rw [← WifiRpc.named_stateName _ _ hst]
      rfl

theorem handled_vouched {n : Nat} (hasks : WifiRpc.Asks action packet) (hu : Untouched log)
    (hrun : Runs WifiRpc.record (rpc.handle kdf packet) tr (a, rpc') (tr ++ seg))
    (hs : WifiRpc.Settled rpc' (helperLog log ++ [.packet packet] ++ seg)) (hret : Returned a answer)
    (ticket : Bytes) (hok : (AdminWindow.understand action ticket answer).1.ok = true) :
    Vouched (log ++ handling (.asked n) packet a seg rpc')
      (AdminWindow.understand action ticket answer).1.state := by
  cases hret with
  | lost herror =>
    rename_i error
    have hother : ¬ (error = bytes "Wi-Fi change disabled or requires Ethernet admin connection" ∨
        error = bytes "Unauthorized") := by simpa [refusals] using herror
    simp only [AdminWindow.understand, if_neg hother] at hok
    cases hok
  | whole it =>
    have hheard := AdminWindow.understood hasks hrun ticket it
    obtain ⟨seg', heq, hh⟩ := runs_of_wp (WifiRpc.handled packet tr) hrun
    obtain rfl := List.append_cancel_left heq
    unfold AdminWindow.hear at hheard
    rcases hheard.word with herror | hrejected | hnamed
    · rw [hheard.unknown herror] at hok
      cases hok
    · rw [hheard.refused hrejected]
      refine .untouched (untouched_append hu fun m c r hc => ?_)
      have hcall : .call c r ∈ seg ∧ n = m := by simpa [handling] using hc
      exact WifiRpc.rejected_still hrun hrejected c r hcall.1
    · obtain ⟨st, hst⟩ := Option.isSome_iff_exists.mp hnamed
      rw [hheard.state st hst]
      have hend : log ++ handling (.asked n) packet a seg rpc' =
          log ++ (.packet packet :: (seg ++ [WifiRpc.Event.answer a rpc'.sessionState])).map (.helper (.asked n)) ++
            [] := by
        simp [handling]
      have hnobody : Foreign [] := by simp [Foreign]
      cases hharm : WifiRpc.harmless seg with
      | true =>
        have hrec := harmless_recovery hh hharm
        rw [hst] at hrec
        obtain rfl := Option.some.inj hrec
        obtain ⟨st, hstate, hcalm⟩ := harmless_state hh hharm
        rw [hstate] at hend
        exact .failed hend hnobody hharm hcalm
      | false =>
        have hstate := (WifiRpc.handled_names hh).mpr hharm st hst
        rw [hstate] at hend
        refine .answered hend hnobody fun e he => ?_
        obtain ⟨x, hx, hxs⟩ := Option.map_eq_some_iff.mp hstate
        obtain ⟨l, hl, hmem⟩ := hs x hx
        refine ⟨l, ?_, hmem e (hxs ▸ he)⟩
        simpa using hl

theorem commit_confirms {r : Bool} {st : Option WifiChangeState}
    (h : WifiRpc.Handled kdf rpc packet seg a rpc') (hasks : WifiRpc.Asks action packet)
    (hc : .call .commit r ∈ WifiRpc.Event.packet packet :: (seg ++ [WifiRpc.Event.answer a st])) :
    action = .confirm := by
  have hcall : .call .commit r ∈ seg := by simpa using hc
  obtain ⟨c, r', he, hconfirm⟩ := WifiRpc.handled_calls h _ hcall
  cases he
  obtain ⟨x, -, -, hx⟩ := hconfirm rfl
  exact action_of_confirm hasks hx

theorem handled_inv {n : Nat} {job : Job} (h : Inv kdf s) (hn : s.dialog.jobs[n]? = some job)
    (hw : job.phase = .waiting)
    (hpacket : AdminWindow.packetOf s.ticket job.profile job.action = some packet)
    (hrun : Runs WifiRpc.record (s.rpc.handle kdf packet) (helperLog s.log ++ [.packet packet]) (a, rpc)
      (helperLog s.log ++ [.packet packet] ++ seg)) (hret : Returned a answer) :
    Inv kdf { s with
      dialog := s.dialog.settle n (.asked answer)
      rpc := rpc
      log := s.log ++ handling (.asked n) packet a seg rpc } := by
  have ho : job.Open := by
    intro reply
    simp [hw]
  have hne : JobPhase.asked answer ≠ .waiting := by simp
  have hasks := AdminWindow.asks_packetOf hpacket
  obtain ⟨seg', heq, hh⟩ := runs_of_wp (WifiRpc.handled packet _) hrun
  obtain rfl := List.append_cancel_left heq
  have hlog : helperLog (s.log ++ handling (.asked n) packet a seg rpc) =
      helperLog s.log ++ [.packet packet] ++ seg ++ [.answer a rpc.sessionState] := by
    rw [helperLog_append, handling, helperLog_helper]
    simp
  have hwin : windowLog (s.log ++ handling (.asked n) packet a seg rpc) = windowLog s.log := by
    rw [windowLog_append, handling, windowLog_helper, List.append_nil]
  have hsettled := runs_of_wp (WifiRpc.handle_settles h.settled packet) hrun
  -- until now the request has changed nothing
  have hwaits : Untouched s.log := by
    have := h.sayable n job (h.orderly.alone n job hn ho) hn
    simpa [Sayable, hw] using this
  -- a start that is waited for has not been taken up before
  have hcount : (s.log ++ handling (.asked n) packet a seg rpc).countP begins +
      s.queue.countP Queued.isStart ≤ 1 := by
    obtain ⟨hone, hnone⟩ := created_handled hh
    have hle := begins_handling (.asked n) packet a seg rpc
    have honce := h.once
    simp only [System.taken] at honce
    rw [List.countP_append]
    by_cases hstart : job.action = .start
    · have := h.unasked n job hn hw hstart
      simp only [System.taken] at this
      omega
    · have := hnone job.action hasks hstart
      omega
  refine ⟨?_, ?_, ?_, ?_, fun m other hm hother => ?_, fun q hq => hwin ▸ h.queued q hq, hcount, fun hd => ?_,
    fun m other hm hwait => absurd hwait (settle_waiting h.orderly hn ho hne hm), ?_⟩
  · rw [hlog]
    exact h.helper.tail (.packet hrun)
  · rw [hlog]
    exact WifiRpc.settled_answer hsettled a rpc.sessionState
  · rw [hwin]
    exact settle_orderly h.orderly hn ho _
  · exact lawful_helper h.lawful fun r hc => h.orderly.asked n job hn ho (commit_confirms hh hasks hc)
  · rw [settle_pending h.orderly hn ho _ hm hother]
    exact fun ticket hok => handled_vouched hasks hwaits hrun hsettled hret ticket hok
  · have : s.dialog.jobs = [] := by simpa [WifiConnectDialog.settle] using hd
    simp [this] at hn
  · rw [texts_append, handling, texts_helper, List.append_nil]
    exact h.text

theorem packet_away (h : Inv kdf s)
    (hrun : Runs WifiRpc.record (s.rpc.handle kdf packet) (helperLog s.log ++ [.packet packet]) (a, rpc)
      (helperLog s.log ++ [.packet packet] ++ seg)) :
    WifiRpc.Reach kdf (rpc, helperLog s.log ++ .packet packet :: (seg ++ [.answer a rpc.sessionState])) ∧
    WifiRpc.Settled rpc (helperLog s.log ++ .packet packet :: (seg ++ [.answer a rpc.sessionState])) := by
  have hlog : helperLog s.log ++ [.packet packet] ++ seg ++ [.answer a rpc.sessionState] =
      helperLog s.log ++ .packet packet :: (seg ++ [.answer a rpc.sessionState]) := by simp
  have hhandled := runs_of_wp (WifiRpc.handle_settles h.settled packet) hrun
  rw [← hlog]
  exact ⟨h.helper.tail (.packet hrun), WifiRpc.settled_answer hhandled a rpc.sessionState⟩

theorem late_inv {q : Queued} {front back : List Queued} (h : Inv kdf s) (hq : s.queue = front ++ q :: back)
    (hrun : Runs WifiRpc.record (s.rpc.handle kdf q.packet) (helperLog s.log ++ [.packet q.packet]) (a, rpc)
      (helperLog s.log ++ [.packet q.packet] ++ seg)) :
    Inv kdf { s with
      rpc := rpc
      queue := front ++ back
      log := s.log ++ handling (.late q.request) q.packet a seg rpc } := by
  have hmem : q ∈ s.queue := by simp [hq]
  obtain ⟨hasks, hconfirm⟩ := h.queued q hmem
  obtain ⟨hreach, hsettled⟩ := packet_away h hrun
  obtain ⟨seg', heq, hh⟩ := runs_of_wp (WifiRpc.handled q.packet _) hrun
  obtain rfl := List.append_cancel_left heq
  refine away_inv h rfl hreach hsettled (fun r hc => hconfirm (commit_confirms hh hasks hc))
    (fun q' hq' => ?_) ?_
  · rw [hq]
    rcases List.mem_append.mp hq' with hq' | hq' <;> simp [hq']
  · obtain ⟨hone, hnone⟩ := created_handled hh
    have hle := begins_handling (.late q.request) q.packet a seg rpc
    simp only [handling] at hle
    simp only [hq, List.countP_append, List.countP_cons, Queued.isStart]
    by_cases hstart : q.action = .start
    · simp only [hstart, decide_true, if_true]
      omega
    · have := hnone q.action hasks hstart
      simp only [hstart, decide_false, Bool.false_eq_true, if_false]
      omega

theorem step_inv (h : Inv kdf s) (hs : Step kdf s s') : Inv kdf s' := by
  cases hs with
  | start network password thread hs => exact start_inv h hs network password thread
  | confirm thread hc =>
    obtain ⟨hs, hp, hready⟩ := h.orderly.ready hc
    refine sent_inv h hs hp (by simp) (.inl rfl) (fun _ => ?_) thread
    obtain ⟨before, hlog⟩ := hready
    exact ⟨before, by simp [← hlog, confirmed]⟩
  | cancel thread hc =>
    obtain ⟨hs, hp⟩ := h.orderly.cancels hc
    exact sent_inv h hs hp (by simp) (.inl rfl) (by simp) thread
  | refresh thread hf =>
    cases hp : s.dialog.pending with
    | some n => simpa [send_pending hp, sentNote, System.window] using h
    | none =>
      have hs : s.dialog.startEnabled = false := by
        cases hs : s.dialog.startEnabled with
        | false => rfl
        | true => simp [(h.orderly.fresh hs).2] at hf
      have hsent : sentNote s.dialog (s.dialog.send thread .status) .refreshed = [.refreshed] := by
        simp [sentNote, send_free h.orderly.request hp]
      rw [hsent]
      exact sent_inv h hs hp (by simp) (.inr rfl) (by simp) thread
  | poll _ => exact poll_inv h
  | failed hn ho => exact settle_inv h hn ho (by simp) (fun hok => by simp at hok)
  | @refused n job packet error hn hw _ =>
    have ho : job.Open := by
      intro reply
      simp [hw]
    refine settle_inv h hn ho (by simp) fun ticket hok => ?_
    -- the packet has not been sent
    have hu : Untouched s.log := by
      have := h.sayable n job (h.orderly.alone n job hn ho) hn
      simpa [Sayable, hw] using this
    unfold AdminWindow.understand at hok ⊢
    by_cases hr : error = bytes "Wi-Fi change disabled or requires Ethernet admin connection" ∨
        error = bytes "Unauthorized"
    · simp only [hr, if_true]
      exact .untouched hu
    · simp only [hr, if_false] at hok
      cases hok
  | handled hn hw hpacket hrun hret => exact handled_inv h hn hw hpacket hrun hret
  | gaveUp hn hw hpacket hphase => exact gaveUp_inv h hn hw hpacket hphase
  | late hq hrun => exact late_inv h hq hrun
  | @returned n job answer hn hw =>
    have ho : job.Open := by
      intro reply
      simp [hw]
    have hsay := h.sayable n job (h.orderly.alone n job hn ho) hn
    simp only [Sayable, hw] at hsay
    have hset : Inv kdf (s.window
        (s.dialog.settle n (.done (AdminWindow.understand job.action s.ticket answer).1)) []) :=
      settle_inv h hn ho (by simp) (hsay s.ticket)
    simp only [System.window, List.append_nil] at hset
    exact ⟨hset.helper, hset.settled, hset.orderly, hset.lawful, hset.sayable, hset.queued, hset.once,
      hset.first, hset.unasked, hset.text⟩
  | @tick rpc seg hrun =>
    have hlog : helperLog s.log ++ [.tick] ++ seg = helperLog s.log ++ .tick :: seg := by simp
    have hsettled := runs_of_wp (WifiRpc.tick_settles h.settled) hrun
    rw [hlog] at hrun hsettled
    exact away_inv h rfl (h.helper.tail (.tick hrun)) hsettled (fun _ _ => trivial) (fun _ hq => hq)
      (by rw [begins_others, Nat.zero_add])
  | other hrun =>
    obtain ⟨hreach, hsettled⟩ := packet_away h hrun
    exact away_inv h rfl hreach hsettled (fun _ _ => trivial) (fun _ hq => hq)
      (by rw [begins_others, Nat.zero_add])

theorem reach_inv (h : Reach kdf s) : Inv kdf s := by
  induction h with
  | refl => exact inv_opened
  | tail _ hs ih => exact step_inv ih hs

theorem helperLog_call {pre post : List Note} {source : Source} {e : WifiRpc.Event}
    (hlog : log = pre ++ .helper source e :: post) :
    helperLog log = helperLog pre ++ e :: helperLog post := by
  rw [hlog, helperLog_append, helperLog, helperLog, helperLog]
  simp [helperEvent]

/-- **The window's change.** In every run, whatever others send to the helper, whatever is lost on the
way and whenever a packet is read that nobody waits for: one request at most is under way; a window
with a change has a request under way or looks for the state again; the helper takes up one change at
most for the window; and a commit for the window follows the button, under a text that had just shown
the new network ready, and stands in the handling of a confirmation with the current ticket. -/
theorem one_change_confirmed (h : Reach kdf s) :
    (∀ (n n' : Nat) (job job' : Job), s.dialog.jobs[n]? = some job → s.dialog.jobs[n']? = some job' →
      job.Open → job'.Open → n = n') ∧
    (s.dialog.active = true →
      s.dialog.pending.isSome = true ∧ s.dialog.poll = true ∨ s.dialog.refresh = true) ∧
    s.log.countP begins ≤ 1 ∧
    ∀ pre source r post, s.log = pre ++ .helper source (.call .commit r) :: post →
      Pressed (windowLog pre) source ∧ ∃ before ticket calls,
        WifiRpc.Handling (helperLog pre) before (WifiRpc.ticketPacket (bytes "confirm") ticket) calls ∧
        WifiRpc.current before = some ticket := by
  have hinv := reach_inv h
  refine ⟨fun n n' job job' hn hn' ho ho' => ?_, fun ha => ?_, ?_, fun pre source r post hlog => ?_⟩
  · have hp := hinv.orderly.alone n job hn ho
    rw [hinv.orderly.alone n' job' hn' ho'] at hp
    exact (Option.some.inj hp).symm
  · rcases hinv.orderly.followed ha with hp | hr
    · exact .inl ⟨hp, hinv.orderly.polled hp⟩
    · exact .inr hr
  · exact (Nat.le_add_right ..).trans hinv.once
  · exact ⟨lawful_mid hinv.lawful hlog,
      lawful_mid (WifiRpc.reach_inv hinv.helper).lawful (helperLog_call hlog)⟩

/-- **What the window tells.** In every run, a state that was shown was the helper's at its last answer
to a request that the window waited for, with nothing since but what the helper did for others and for
packets nobody waited for, or it is the need for recovery after a start that failed and left the helper
idle or rolled back; a change shown as saved or undone was committed or rolled back since its backend
was created; a refusal followed a request that had changed nothing; and the text that stands in the
window is the last that was shown. -/
theorem shown_vouched (h : Reach kdf s) :
    (∀ pre st post, s.log = pre ++ .shown (.told st) :: post → Vouched pre st) ∧
    (texts s.log).getLastD .entry = s.dialog.status :=
  ⟨fun _ _ _ hlog => lawful_mid (reach_inv h).lawful hlog, (reach_inv h).text⟩

end

/-! ## A change from the first click to the last -/

inductive Move where
  | start (network password : Bytes)
  | confirm
  | refresh
  | poll
  | handle
  | learn
  | giveUp
  | late

def smooth (tr : List WifiRpc.Event) (c : WifiCall) : c.Reply × List WifiRpc.Event :=
  (WifiCall.reply (fun _ => false) c, tr ++ [.call c (WifiCall.reply (fun _ => false) c)])

def serve (kdf : Pbkdf2) (s : System) (n : Nat) (packet : Bytes) : System :=
  let e := exec smooth (s.rpc.handle kdf packet) []
  if WifiIpc.passes e.1.1 then
    { s with
      dialog := s.dialog.settle n (.asked (.ok e.1.1))
      rpc := e.1.2
      log := s.log ++ handling (.asked n) packet e.1.1 e.2 e.1.2 }
  else s

def requestUnderWay (s : System) : Option (Nat × Job) :=
  s.dialog.pending.bind fun n => s.dialog.jobs[n]?.map fun job => (n, job)

def perform (kdf : Pbkdf2) (s : System) : Move → System
  | .start network password =>
    if s.dialog.startEnabled then
      s.window (s.dialog.onStart kdf network password true)
        [.clicked .start, .shown (s.dialog.onStart kdf network password true).status]
    else s
  | .confirm =>
    if s.dialog.confirmEnabled then s.window (s.dialog.send true .confirm) [.clicked .confirm] else s
  | .refresh =>
    if s.dialog.refresh then
      s.window (s.dialog.send true .status) (sentNote s.dialog (s.dialog.send true .status) .refreshed)
    else s
  | .poll => if s.dialog.poll then s.window s.dialog.onPoll (shownNote s.dialog s.dialog.onPoll) else s
  | .handle =>
    match requestUnderWay s with
    | some (n, ⟨action, profile, .waiting⟩) =>
      match AdminWindow.packetOf s.ticket profile action with
      | some packet => serve kdf s n packet
      | none => s
    | _ => s
  | .learn =>
    match requestUnderWay s with
    | some (n, ⟨action, _, .asked answer⟩) => { s with
      dialog := s.dialog.settle n (.done (AdminWindow.understand action s.ticket answer).1)
      ticket := (AdminWindow.understand action s.ticket answer).2 }
    | _ => s
  | .giveUp =>
    match requestUnderWay s with
    | some (n, ⟨action, profile, .waiting⟩) =>
      match AdminWindow.packetOf s.ticket profile action with
      | some packet => { s with
        dialog := s.dialog.settle n (.asked (.error []))
        queue := s.queue ++ [⟨n, action, packet⟩] }
      | none => s
    | _ => s
  | .late =>
    match s.queue with
    | [] => s
    | q :: queue =>
      let e := exec smooth (s.rpc.handle kdf q.packet) []
      { s with
        rpc := e.1.2
        queue := queue
        log := s.log ++ handling (.late q.request) q.packet e.1.1 e.2 e.1.2 }

theorem runs_ahead {α : Type} {p : WifiProgram α} {tr tr' : List WifiRpc.Event} {r : α}
    (h : Runs WifiRpc.record p tr r tr') (before : List WifiRpc.Event) :
    Runs WifiRpc.record p (before ++ tr) r (before ++ tr') := by
  induction h with
  | done r tr => exact .done r _
  | call hc _ ih =>
    refine .call ?_ ih
    cases hc
    exact (List.append_assoc ..).symm

theorem smooth_runs (kdf : Pbkdf2) (rpc : WifiRpc) (packet : Bytes) (tr : List WifiRpc.Event) :
    Runs WifiRpc.record (rpc.handle kdf packet) tr (exec smooth (rpc.handle kdf packet) []).1
      (tr ++ (exec smooth (rpc.handle kdf packet) []).2) := by
  have hanswered : ∀ (tr : List WifiRpc.Event) (c : WifiCall),
      WifiRpc.record tr c (smooth tr c).1 (smooth tr c).2 := fun _ _ => rfl
  simpa using runs_ahead (runs_exec hanswered (rpc.handle kdf packet) []) tr

theorem serve_step {kdf : Pbkdf2} {s : System} {n : Nat} {job : Job} {packet : Bytes}
    (hn : s.dialog.jobs[n]? = some job) (hw : job.phase = .waiting)
    (hpacket : AdminWindow.packetOf s.ticket job.profile job.action = some packet) :
    Relation.ReflTransGen (Step kdf) s (serve kdf s n packet) := by
  unfold serve
  dsimp only
  split
  · rename_i hpasses
    refine .single (.handled hn hw hpacket (smooth_runs kdf s.rpc packet _) ?_)
    rw [← AdminWindow.heard Iteration.stored hpasses]
    exact .whole Iteration.stored
  · exact .refl

theorem perform_step (kdf : Pbkdf2) (s : System) (m : Move) :
    Relation.ReflTransGen (Step kdf) s (perform kdf s m) := by
  have guarded {b : Bool} {s' : System} (h : b = true → Step kdf s s') :
      Relation.ReflTransGen (Step kdf) s (if b then s' else s) := by
    cases b with
    | true => exact .single (h rfl)
    | false => exact .refl
  have asked {n : Nat} {job : Job} (h : requestUnderWay s = some (n, job)) :
      s.dialog.jobs[n]? = some job := by
    obtain ⟨m, hm, hjob⟩ := Option.bind_eq_some_iff.mp h
    obtain ⟨found, hfound, he⟩ := Option.map_eq_some_iff.mp hjob
    cases he
    exact hfound
  cases m with
  | start network password => exact guarded fun h => .start network password true h
  | confirm => exact guarded fun h => .confirm true h
  | refresh => exact guarded fun h => .refresh true h
  | poll => exact guarded fun h => .poll h
  | handle =>
    unfold perform
    cases hunder : requestUnderWay s with
    | none => exact .refl
    | some under =>
      obtain ⟨n, action, profile, phase⟩ := under
      cases phase with
      | waiting =>
        cases hpacket : AdminWindow.packetOf s.ticket profile action with
        | none => simp only [hpacket]; exact .refl
        | some packet =>
          simp only [hpacket]
          exact serve_step (asked hunder) rfl hpacket
      | _ => exact .refl
  | learn =>
    unfold perform
    cases hunder : requestUnderWay s with
    | none => exact .refl
    | some under =>
      obtain ⟨n, action, profile, phase⟩ := under
      cases phase with
      | asked answer => exact .single (.returned (asked hunder) rfl)
      | _ => exact .refl
  | giveUp =>
    unfold perform
    cases hunder : requestUnderWay s with
    | none => exact .refl
    | some under =>
      obtain ⟨n, action, profile, phase⟩ := under
      cases phase with
      | waiting =>
        cases hpacket : AdminWindow.packetOf s.ticket profile action with
        | none => simp only [hpacket]; exact .refl
        | some packet =>
          simp only [hpacket]
          have hunknown : [] ∉ refusals := by decide
          exact .single (.gaveUp (asked hunder) rfl hpacket (.unknown hunknown))
      | _ => exact .refl
  | late =>
    unfold perform
    cases hqueue : s.queue with
    | nil => exact .refl
    | cons q queue => exact .single (@Step.late _ _ _ [] _ _ _ _ hqueue (smooth_runs kdf s.rpc q.packet _))

def readyMoves : List Move :=
  [.start (bytes "a") (List.replicate 64 (byte '0')), .handle, .learn, .poll, .refresh, .handle, .learn,
    .poll]

def windowAfter (moves : List Move) : System := moves.foldl (perform noKdf) { dialog := .opened true }

def confirmedWindow : System := windowAfter (readyMoves ++ [.confirm, .handle, .learn, .poll])

/-- It is confirmed, the window is told that the outcome is unknown, and then the packet is read. -/
def lateWindow : System := windowAfter (readyMoves ++ [.confirm, .giveUp, .learn, .poll, .late])

theorem reach_windowAfter (moves : List Move) : Reach noKdf (windowAfter moves) := by
  have key : ∀ (moves : List Move) (s : System), Reach noKdf s → Reach noKdf (moves.foldl (perform noKdf) s) := by
    intro moves
    induction moves with
    | nil => exact fun s h => h
    | cons m moves ih => exact fun s h => ih _ (h.trans (perform_step noKdf s m))
  exact key _ _ .refl

def commits : Note → Bool
  | .helper (.asked _) (.call .commit _) | .helper (.late _) (.call .commit _) => true
  | _ => false

theorem exists_commit {log : List Note} (h : log.any commits = true) :
    ∃ pre source r post, log = pre ++ .helper source (.call .commit r) :: post ∧ source ≠ .others := by
  obtain ⟨note, hmem, hnote⟩ := List.any_eq_true.mp h
  obtain ⟨pre, post, hlog⟩ := List.append_of_mem hmem
  unfold commits at hnote
  split at hnote
  · exact ⟨pre, _, _, post, hlog, by simp⟩
  · exact ⟨pre, _, _, post, hlog, by simp⟩
  · cases hnote

/-- The change is committed once, also where nobody waits for it any more. -/
theorem one_change_confirmed_once : confirmedWindow.log.countP begins = 1 ∧
    (∃ pre source r post, confirmedWindow.log = pre ++ .helper source (.call .commit r) :: post ∧
      source ≠ .others ∧ Pressed (windowLog pre) source) ∧
    lateWindow.dialog.status = .unanswered ∧
    ∃ pre source r post, lateWindow.log = pre ++ .helper source (.call .commit r) :: post ∧
      source ≠ .others ∧ Pressed (windowLog pre) source := by
  obtain ⟨-, -, -, hcommit⟩ := one_change_confirmed (reach_windowAfter (readyMoves ++ [.confirm, .handle,
    .learn, .poll]))
  obtain ⟨-, -, -, hlate⟩ := one_change_confirmed (reach_windowAfter (readyMoves ++ [.confirm, .giveUp,
    .learn, .poll, .late]))
  obtain ⟨pre, source, r, post, hlog, hne⟩ :=
    exists_commit (show confirmedWindow.log.any commits = true by decide +kernel)
  obtain ⟨pre', source', r', post', hlog', hne'⟩ :=
    exists_commit (show lateWindow.log.any commits = true by decide +kernel)
  exact ⟨by decide +kernel, ⟨pre, source, r, post, hlog, hne, (hcommit _ _ _ _ hlog).1⟩, by decide +kernel,
    pre', source', r', post', hlog', hne', (hlate _ _ _ _ hlog').1⟩

def saved : Note → Bool
  | .shown (.told .committed) => true
  | _ => false

theorem shown_vouched_saved : confirmedWindow.dialog.status = .told .committed ∧
    (texts confirmedWindow.log).getLastD .entry = .told .committed ∧
    ∃ pre post, confirmedWindow.log = pre ++ .shown (.told .committed) :: post ∧ Vouched pre .committed := by
  obtain ⟨hvouched, hlast⟩ := shown_vouched (reach_windowAfter (readyMoves ++ [.confirm, .handle, .learn,
    .poll]))
  have hstatus : confirmedWindow.dialog.status = .told .committed := by decide +kernel
  have hany : confirmedWindow.log.any saved = true := by decide +kernel
  obtain ⟨note, hmem, hnote⟩ := List.any_eq_true.mp hany
  obtain ⟨pre, post, hlog⟩ := List.append_of_mem hmem
  unfold saved at hnote
  split at hnote
  · exact ⟨hstatus, hlast.trans hstatus, pre, post, hlog, hvouched _ _ _ hlog⟩
  · cases hnote

end ConnectWindow

end EncoderNext
