import EncoderNext.Log
import EncoderNext.WifiChange

/-!
# Every run of a Wi-Fi change

Calls of the class in any order with any times and tickets, against a backend
that answers anything, ended by the destructor at any point. A call of the
backend is justified by the log before it; every log of every run holds only
justified calls, and the state says what the log holds.
-/

namespace EncoderNext

open Program

namespace WifiChange

inductive Op where
  | start (profile : WifiProfile) (now : Int)
  | tick (now : Int)
  | confirm (ticket : Bytes) (now : Int)
  | cancel
  deriving DecidableEq

def Op.run : Op → WifiChange → WifiProgram WifiChange
  | start profile now, ch => Prod.snd <$> ch.start profile now
  | tick now, ch => ch.tick now
  | confirm ticket now, ch => Prod.snd <$> ch.confirm ticket now
  | cancel, ch => ch.cancel

inductive Event where
  | op (o : Op)
  | destroy
  | reply (c : WifiCall) (r : c.Reply)

def Event.changes : Event → Bool
  | reply c _ => c.changes
  | _ => false

abbrev record : Env (List Event) WifiCall WifiCall.Reply := Program.recording Event.reply

/-- A change and the log of its run; no change once it is destroyed. -/
abbrev Run := Option WifiChange × List Event

inductive Step : Run → Run → Prop where
  | op {o : Op} {ch ch' : WifiChange} {tr tr' : List Event} :
      Runs record (o.run ch) (tr ++ [.op o]) ch' tr' → Step (some ch, tr) (some ch', tr')
  | destroy {ch ch' : WifiChange} {tr tr' : List Event} :
      Runs record ch.destroy (tr ++ [.destroy]) ch' tr' → Step (some ch, tr) (none, tr')

def Reach : Run → Prop := Relation.ReflTransGen Step (some {}, [])

/-! ## Justified calls -/

def opening (p : WifiProfile) (t₀ : Int) (drawn : Vector UInt8 32) : List Event :=
  [.op (.start p t₀), .reply .ethernetRecoveryAvailable true, .reply .random (some drawn),
    .reply (.prepare p 90) true, .reply .activate true]

def confirmation (drawn : Vector UInt8 32) (now : Int) : List Event :=
  [.op (.confirm (toHex drawn.toList) now), .reply .ethernetRecoveryAvailable true,
    .reply .probe .ready]

def committed : Event := .reply .commit true

def Justified (pre : List Event) : Event → Prop
  | .reply .activate _ => committed ∉ pre ∧ ∃ before p, pre = before ++ [.reply (.prepare p 90) true]
  | .reply .commit _ => committed ∉ pre ∧ ∃ before p t₀ drawn mid now,
      pre = before ++ opening p t₀ drawn ++ mid ++ confirmation drawn now ∧ now < t₀ + seconds 90
  | .reply (.prepare ..) _ => committed ∉ pre
  | .reply .rollback _ => committed ∉ pre
  | _ => True

abbrev Lawful (tr : List Event) : Prop := Program.Lawful Justified tr

/-! ## The invariant -/

theorem not_committed_snoc {tr : List Event} {e : Event} (h : committed ∉ tr) (he : committed ≠ e) :
    committed ∉ tr ++ [e] := by
  intro hm
  rcases List.mem_append.mp hm with hm | hm
  · exact h hm
  · exact he (List.mem_singleton.mp hm)

theorem committed_ne {c : WifiCall} {r : c.Reply} (h : c ≠ .commit) : committed ≠ .reply c r := by
  intro he
  injection he with hc _
  exact h hc.symm

def Opened (ch : WifiChange) (tr : List Event) : Prop :=
  committed ∉ tr ∧ ∃ before p t₀ drawn mid, tr = before ++ opening p t₀ drawn ++ mid ∧
    ch.ticket = toHex drawn.toList ∧ ch.deadline = t₀ + seconds 90

def Phase (ch : WifiChange) (tr : List Event) : Prop :=
  match ch.state with
  | .idle => ∀ e ∈ tr, e.changes = false
  | .connecting | .awaitingConfirmation => Opened ch tr
  | .committed => committed ∈ tr
  | .rolledBack | .recoveryRequired => ∃ r, Event.reply .rollback r ∈ tr

structure Inv (ch : WifiChange) (tr : List Event) : Prop where
  lawful : Lawful tr
  ticket : ch.ticket ≠ [] ↔ ch.pending = true
  phase : Phase ch tr

theorem inv_new : Inv {} [] := ⟨lawful_nil, by decide, by simp [Phase]⟩

theorem not_committed_of_idle {tr : List Event} (h : ∀ e ∈ tr, e.changes = false) :
    committed ∉ tr := by
  intro hm
  have := h _ hm
  cases this

theorem pending_iff {ch : WifiChange} :
    ch.pending = true ↔ ch.state = .connecting ∨ ch.state = .awaitingConfirmation := by
  simp [pending]

theorem opened_of_pending {ch : WifiChange} {tr : List Event} (h : Inv ch tr)
    (hp : ch.pending = true) : Opened ch tr := by
  have := h.phase
  rcases pending_iff.mp hp with hs | hs <;> simpa [Phase, hs] using this

theorem opened_snoc {ch : WifiChange} {tr : List Event} {e : Event} (h : Opened ch tr)
    (he : committed ≠ e) : Opened ch (tr ++ [e]) := by
  obtain ⟨hn, before, p, t₀, drawn, mid, htr, ht, hd⟩ := h
  refine ⟨not_committed_snoc hn he, before, p, t₀, drawn, mid ++ [e], ?_, ht, hd⟩
  rw [htr, List.append_assoc]

/-- The invariant only reads the log's calls of the network, so other entries
may follow. -/
theorem inv_snoc {ch : WifiChange} {tr : List Event} {e : Event} (h : Inv ch tr)
    (he : e.changes = false) (hj : Justified tr e) : Inv ch (tr ++ [e]) := by
  have hne : committed ≠ e := by
    rintro rfl
    cases he
  refine ⟨lawful_snoc h.lawful hj, h.ticket, ?_⟩
  have hp := h.phase
  unfold Phase at hp ⊢
  split at hp
  · intro e' he'
    rcases List.mem_append.mp he' with hm | hm
    · exact hp e' hm
    · rw [List.mem_singleton.mp hm]
      exact he
  · exact opened_snoc hp hne
  · exact opened_snoc hp hne
  · exact List.mem_append_left _ hp
  · obtain ⟨r, hr⟩ := hp
    exact ⟨r, List.mem_append_left _ hr⟩
  · obtain ⟨r, hr⟩ := hp
    exact ⟨r, List.mem_append_left _ hr⟩

/-! ## What each method does to the log -/

theorem revert_spec (ch : WifiChange) (reason : String) {tr : List Event} (hl : Lawful tr)
    (hn : committed ∉ tr) : wp record Inv Lawful (ch.revert reason) tr := by
  unfold revert
  rw [wp_ask_bind]
  refine ⟨hl, fun restored tr' htr => ?_⟩
  subst htr
  have hj : Justified tr (.reply .rollback restored) := hn
  have hl' := lawful_snoc hl hj
  have hr : ∃ r, Event.reply .rollback r ∈ tr ++ [.reply .rollback restored] := ⟨restored, by simp⟩
  cases restored
  · exact ⟨hl', hl', by simp [pending], hr⟩
  · exact ⟨hl', hl', by simp [pending], hr⟩

theorem revert_false_spec (ch : WifiChange) (reason : String) {tr : List Event} (hl : Lawful tr)
    (hn : committed ∉ tr) :
    wp record (fun r tr' => Inv r.2 tr') Lawful (do return (false, ← ch.revert reason)) tr := by
  rw [wp_bind]
  exact wp_post (revert_spec ch reason hl hn) fun ch' tr' hl' hr => ⟨hl', hr⟩

theorem toHex_drawn_ne (drawn : Vector UInt8 32) : toHex drawn.toList ≠ [] := by
  intro h
  have := congrArg List.length h
  simp at this

theorem prepareAndActivate_spec (ch : WifiChange) (p : WifiProfile) {tr before : List Event}
    {t₀ : Int} {drawn : Vector UInt8 32} (hl : Lawful tr) (hn : committed ∉ tr)
    (htr : tr = before ++ [.op (.start p t₀), .reply .ethernetRecoveryAvailable true,
      .reply .random (some drawn)])
    (ht : ch.ticket = toHex drawn.toList) (hd : ch.deadline = t₀ + seconds 90)
    (hs : ch.state = .connecting) :
    wp record (fun r tr' => Inv r.2 tr') Lawful (ch.prepareAndActivate p) tr := by
  unfold prepareAndActivate
  rw [wp_ask_bind]
  refine ⟨hl, fun prepared tr₁ h₁ => ?_⟩
  subst h₁
  have hj₁ : Justified tr (.reply (.prepare p 90) prepared) := hn
  have hl₁ := lawful_snoc hl hj₁
  have hn₁ := not_committed_snoc hn (committed_ne (c := .prepare p 90) (r := prepared) nofun)
  cases prepared with
  | false => exact revert_false_spec ch _ hl₁ hn₁
  | true =>
    rw [Bool.not_true, if_neg Bool.false_ne_true, wp_ask_bind]
    refine ⟨hl₁, fun activated tr₂ h₂ => ?_⟩
    subst h₂
    have hj₂ : Justified _ (.reply .activate activated) := ⟨hn₁, tr, p, rfl⟩
    have hl₂ := lawful_snoc hl₁ hj₂
    have hn₂ := not_committed_snoc hn₁ (committed_ne (c := .activate) (r := activated) nofun)
    cases activated with
    | false => exact revert_false_spec ch _ hl₂ hn₂
    | true =>
      rw [Bool.not_true, if_neg Bool.false_ne_true]
      refine ⟨hl₂, hl₂, ?_, ?_⟩
      · simp [ht, toHex_drawn_ne, pending, hs]
      · have ho : Opened ch (tr ++ [.reply (.prepare p 90) true] ++ [.reply .activate true]) :=
          ⟨hn₂, before, p, t₀, drawn, [], by simp [htr, opening], ht, hd⟩
        unfold Phase
        simp only [hs]
        exact ho

theorem start_spec {ch : WifiChange} {tr : List Event} (h : Inv ch tr) (p : WifiProfile) (t₀ : Int) :
    wp record (fun r tr' => Inv r.2 tr') Lawful (ch.start p t₀) (tr ++ [.op (.start p t₀)]) := by
  have h₀ := inv_snoc (e := .op (.start p t₀)) h rfl trivial
  unfold start
  split
  · exact ⟨h₀.lawful, h₀⟩
  rename_i hs
  rw [ne_eq, Decidable.not_not] at hs
  have hidle : ∀ e ∈ tr ++ [.op (.start p t₀)], e.changes = false := by
    have := h₀.phase
    rwa [Phase, hs] at this
  have hempty : ch.ticket = [] := by
    refine Decidable.byContradiction fun hne => ?_
    have := h.ticket.mp hne
    simp [pending, hs] at this
  split
  · exact ⟨h₀.lawful, h₀.lawful, h₀.ticket, h₀.phase⟩
  rw [wp_ask_bind]
  refine ⟨h₀.lawful, fun ethernet tr₁ ht₁ => ?_⟩
  subst ht₁
  have h₁ := inv_snoc (e := .reply .ethernetRecoveryAvailable ethernet) h₀ rfl trivial
  cases ethernet with
  | false => exact ⟨h₁.lawful, h₁.lawful, h₁.ticket, h₁.phase⟩
  | true =>
    rw [Bool.not_true, if_neg Bool.false_ne_true, wp_ask_bind]
    refine ⟨h₁.lawful, fun drawn tr₂ ht₂ => ?_⟩
    subst ht₂
    have h₂ := inv_snoc (e := .reply .random drawn) h₁ rfl trivial
    cases drawn with
    | none => exact ⟨h₂.lawful, h₂.lawful, h₂.ticket, h₂.phase⟩
    | some drawn =>
      have hidle₂ := h₂.phase
      rw [Phase, hs] at hidle₂
      have hlog : tr ++ [.op (.start p t₀)] ++ [.reply .ethernetRecoveryAvailable true] ++
          [.reply .random (some drawn)] = tr ++ [.op (.start p t₀),
            .reply .ethernetRecoveryAvailable true, .reply .random (some drawn)] := by simp
      have hticket : ch.ticket ++ toHex drawn.toList = toHex drawn.toList := by
        rw [hempty, List.nil_append]
      exact prepareAndActivate_spec _ p h₂.lawful (not_committed_of_idle hidle₂) hlog hticket rfl rfl

/-- A tick that ends in the hands of the holder has just seen the Ethernet and
the link, before the deadline. -/
theorem tick_spec {ch : WifiChange} {tr : List Event} (h : Inv ch tr) (now : Int) :
    wp record (fun ch' tr' => Inv ch' tr' ∧ (ch'.state = .awaitingConfirmation →
        ch.pending = true ∧ ch'.ticket = ch.ticket ∧ now < ch.deadline ∧
        tr' = tr ++ [.reply .ethernetRecoveryAvailable true] ++ [.reply .probe .ready]))
      Lawful (ch.tick now) tr := by
  -- wherever the tick gives up, the change is taken back
  have ended : ∀ (reason : String) (tr' : List Event), Lawful tr' → committed ∉ tr' →
      wp record (fun ch' tr' => Inv ch' tr' ∧ (ch'.state = .awaitingConfirmation →
        ch.pending = true ∧ ch'.ticket = ch.ticket ∧ now < ch.deadline ∧
        tr' = tr ++ [.reply .ethernetRecoveryAvailable true] ++ [.reply .probe .ready]))
        Lawful (ch.revert reason) tr' := by
    intro reason tr' hl hn
    unfold revert
    rw [wp_ask_bind]
    have := revert_spec ch reason hl hn
    unfold revert at this
    rw [wp_ask_bind] at this
    refine ⟨hl, fun restored tr'' htr => ?_⟩
    obtain ⟨hl', hi⟩ := this.2 restored tr'' htr
    refine ⟨hl', hi, fun hs => ?_⟩
    cases restored <;> simp at hs
  unfold tick
  split
  · rename_i hp
    refine ⟨h.lawful, h, fun hs => ?_⟩
    simp [pending, hs] at hp
  rename_i hp
  rw [Bool.not_eq_true', Bool.not_eq_false] at hp
  have ho := opened_of_pending h hp
  split
  · exact ended _ _ h.lawful ho.1
  rename_i hnow
  rw [wp_ask_bind]
  refine ⟨h.lawful, fun ethernet tr₁ ht₁ => ?_⟩
  subst ht₁
  have h₁ := inv_snoc (e := .reply .ethernetRecoveryAvailable ethernet) h rfl trivial
  have ho₁ := opened_of_pending h₁ hp
  cases ethernet with
  | false => exact ended _ _ h₁.lawful ho₁.1
  | true =>
    rw [Bool.not_true, if_neg Bool.false_ne_true, wp_ask_bind]
    refine ⟨h₁.lawful, fun link tr₂ ht₂ => ?_⟩
    subst ht₂
    have h₂ := inv_snoc (e := .reply .probe link) h₁ rfl trivial
    have ho₂ := opened_of_pending h₂ hp
    have ht : ch.ticket ≠ [] := h.ticket.mpr hp
    cases link with
    | failed => exact ended _ _ h₂.lawful ho₂.1
    | pending =>
      refine ⟨h₂.lawful, ⟨h₂.lawful, ?_, ho₂⟩, nofun⟩
      exact iff_of_true ht rfl
    | ready =>
      refine ⟨h₂.lawful, ⟨h₂.lawful, ?_, ho₂⟩, fun _ => ⟨hp, rfl, by omega, rfl⟩⟩
      exact iff_of_true ht rfl

theorem confirm_spec {ch : WifiChange} {tr : List Event} (h : Inv ch tr) (ticket : Bytes) (now : Int) :
    wp record (fun r tr' => Inv r.2 tr') Lawful (ch.confirm ticket now)
      (tr ++ [.op (.confirm ticket now)]) := by
  have h₀ := inv_snoc (e := .op (.confirm ticket now)) h rfl trivial
  unfold confirm
  rw [wp_bind]
  refine wp_post (tick_spec h₀ now) fun ch' tr' hl' ⟨hi, hready⟩ => ?_
  split
  · exact ⟨hl', hi⟩
  rename_i hc
  simp only [not_or, ne_eq, Decidable.not_not] at hc
  obtain ⟨hs, rfl⟩ := hc
  obtain ⟨hp, ht, hnow, rfl⟩ := hready hs
  obtain ⟨-, before, p, t₀, drawn, mid, rfl, hticket, hdeadline⟩ := opened_of_pending h hp
  have hn := (opened_of_pending hi (by simp [pending, hs])).1
  rw [wp_ask_bind]
  refine ⟨hl', fun stored tr₁ ht₁ => ?_⟩
  subst ht₁
  have hj : Justified _ (.reply .commit stored) := ⟨hn, before, p, t₀, drawn, mid, now, by
    simp [confirmation, ht, hticket], by rw [hdeadline] at hnow; exact hnow⟩
  have hl₁ := lawful_snoc hl' hj
  cases stored with
  | false =>
    refine revert_false_spec ch' _ hl₁ (not_committed_snoc hn ?_)
    intro he
    injection he with _ hr
    cases hr
  | true =>
    refine ⟨hl₁, hl₁, by simp [pending], ?_⟩
    show committed ∈ _
    simp [committed]

theorem stop_spec {ch : WifiChange} {tr : List Event} (h : Inv ch tr) (reason : String) :
    wp record Inv Lawful (if ch.pending then ch.revert reason else return ch) tr := by
  split
  · rename_i hp
    exact revert_spec ch reason h.lawful (opened_of_pending h hp).1
  · exact ⟨h.lawful, h⟩

theorem run_spec {ch : WifiChange} {tr : List Event} (h : Inv ch tr) (o : Op) :
    wp record Inv Lawful (o.run ch) (tr ++ [.op o]) := by
  cases o with
  | start p t₀ => exact (wp_map ..).mpr (start_spec h p t₀)
  | tick now =>
    refine wp_post (tick_spec (inv_snoc (e := .op (.tick now)) h rfl trivial) now) ?_
    exact fun _ _ _ hq => hq.1
  | confirm ticket now => exact (wp_map ..).mpr (confirm_spec h ticket now)
  | cancel => exact stop_spec (inv_snoc (e := .op .cancel) h rfl trivial) _

/-! ## Runs -/

/-- The invariant of a run: that of the change while it lives, and once it is
destroyed the log that a finished change leaves. -/
def RunInv : Run → Prop
  | (some ch, tr) => Inv ch tr
  | (none, tr) => Lawful tr ∧ ((∀ e ∈ tr, e.changes = false) ∨ committed ∈ tr ∨
      ∃ r, Event.reply .rollback r ∈ tr)

theorem finished_of_not_pending {ch : WifiChange} {tr : List Event} (h : Inv ch tr)
    (hp : ch.pending = false) : RunInv (none, tr) := by
  refine ⟨h.lawful, ?_⟩
  have := h.phase
  unfold Phase at this
  split at this
  · exact .inl this
  · simp [pending, *] at hp
  · simp [pending, *] at hp
  · exact .inr (.inl this)
  · exact .inr (.inr this)
  · exact .inr (.inr this)

theorem destroy_not_pending (ch : WifiChange) (tr : List Event) :
    wp record (fun ch' _ => ch'.pending = false) (fun _ => True) ch.destroy tr := by
  unfold destroy
  split
  · unfold revert
    rw [wp_ask_bind]
    refine ⟨trivial, fun restored tr' _ => ⟨trivial, ?_⟩⟩
    cases restored <;> rfl
  · rename_i hp
    exact ⟨trivial, by simpa using hp⟩

theorem step_inv {s s' : Run} (h : RunInv s) (hs : Step s s') : RunInv s' := by
  cases hs with
  | @op o ch ch' tr tr' hr =>
    have hw := run_spec (show Inv ch tr from h) o
    exact runs_of_wp hw hr
  | @destroy ch ch' tr tr' hr =>
    have hw := stop_spec (inv_snoc (e := .destroy) (show Inv ch tr from h) rfl trivial)
      "Connection owner closed"
    have hd := runs_of_wp (destroy_not_pending ch (tr ++ [.destroy])) hr
    exact finished_of_not_pending (runs_of_wp hw hr) hd

theorem reach_inv {s : Run} (h : Reach s) : RunInv s := by
  induction h with
  | refl => exact inv_new
  | tail _ hs ih => exact step_inv ih hs

def Terminal (ch : WifiChange) : Prop :=
  ch.state = .committed ∨ ch.state = .rolledBack ∨ ch.state = .recoveryRequired

theorem run_terminal {ch : WifiChange} (h : Terminal ch) (o : Op) (tr : List Event) :
    wp record (fun ch' _ => ch' = ch) (fun _ => True) (o.run ch) tr := by
  have hp : ch.pending = false := by
    rcases h with h | h | h <;> simp [pending, h]
  have hi : ch.state ≠ .idle := by
    rcases h with h | h | h <;> simp [h]
  have ha : ch.state ≠ .awaitingConfirmation := by
    rcases h with h | h | h <;> simp [h]
  have htick : ∀ now, ch.tick now = pure ch := fun now => by
    unfold tick
    rw [if_pos (by simp [hp])]
  cases o with
  | start p t₀ =>
    simp only [Op.run, start, if_pos hi, map_pure]
    exact ⟨trivial, rfl⟩
  | tick now =>
    rw [Op.run, htick]
    exact ⟨trivial, rfl⟩
  | confirm ticket now =>
    simp only [Op.run, confirm, htick, pure_bind, if_pos (Or.inl ha), map_pure]
    exact ⟨trivial, rfl⟩
  | cancel =>
    rw [Op.run, cancel, if_neg (by simp [hp])]
    exact ⟨trivial, rfl⟩

theorem terminal_absorbing {s s' : Run} {ch ch' : WifiChange} (hs : s.1 = some ch)
    (h : Terminal ch) (hr : Relation.ReflTransGen Step s s') (hs' : s'.1 = some ch') : ch' = ch := by
  induction hr generalizing ch' with
  | refl => exact Option.some.inj (hs'.symm.trans hs)
  | tail _ hstep ih =>
    cases hstep with
    | @op o c c' tr tr' hrun =>
      obtain rfl := ih rfl
      obtain rfl := Option.some.inj hs'
      have hw := runs_of_wp (run_terminal h o (tr ++ [.op o])) hrun
      exact hw
    | destroy => cases hs'

theorem justified_of_reach {s : Run} (h : Reach s) {pre post : List Event} {e : Event}
    (htr : s.2 = pre ++ e :: post) : Justified pre e := by
  have hl : Lawful s.2 := by
    have := reach_inv h
    match s, this with
    | (some _, _), hi => exact hi.lawful
    | (none, _), hi => exact hi.1
  exact lawful_mid hl htr

/-- **The transaction contract.** On every run against every backend: activation
follows a prepare that succeeded; a commit follows an activation that
succeeded, carries the ticket that was drawn, and stands right after a true
Ethernet check and a ready probe before the deadline; nothing changes the
network after a commit; a prepared change ends committed or rolled back; the
three final states absorb; and the ticket lives exactly while the change does. -/
theorem change_contract {s : Run} (h : Reach s) :
    (∀ pre post r, s.2 = pre ++ .reply .activate r :: post →
      ∃ before p, pre = before ++ [.reply (.prepare p 90) true]) ∧
    (∀ pre post r, s.2 = pre ++ .reply .commit r :: post →
      ∃ before p t₀ drawn mid now,
        pre = before ++ opening p t₀ drawn ++ mid ++ confirmation drawn now ∧
        now < t₀ + seconds 90) ∧
    (∀ pre post c r, s.2 = pre ++ .reply c r :: post → c.changes = true →
      Event.reply .commit true ∉ pre) ∧
    (s.1 = none → (∃ p lifetime r, Event.reply (.prepare p lifetime) r ∈ s.2) →
      Event.reply .commit true ∈ s.2 ∨ ∃ r, Event.reply .rollback r ∈ s.2) ∧
    (∀ s' ch ch', s.1 = some ch → Terminal ch → Relation.ReflTransGen Step s s' →
      s'.1 = some ch' → ch'.state = ch.state) ∧
    (∀ ch, s.1 = some ch →
      (ch.ticket ≠ [] ↔ ch.state = .connecting ∨ ch.state = .awaitingConfirmation)) := by
  refine ⟨?_, ?_, ?_, ?_, ?_, ?_⟩
  · intro pre post r htr
    exact (justified_of_reach h htr).2
  · intro pre post r htr
    exact (justified_of_reach h htr).2
  · intro pre post c r htr hc
    have hj := justified_of_reach h htr
    cases c with
    | prepare p l => exact hj
    | activate => exact hj.1
    | commit => exact hj.1
    | rollback => exact hj
    | _ => cases hc
  · intro hdead hprep
    obtain ⟨p, l, r, hm⟩ := hprep
    have hi := reach_inv h
    match s, hdead, hi with
    | (none, tr), _, ⟨_, hfin⟩ =>
      rcases hfin with hq | hfin
      · cases hq _ hm
      · exact hfin
  · intro s' ch ch' hs ht hr hs'
    rw [terminal_absorbing hs ht hr hs']
  · intro ch hs
    have hi := reach_inv h
    match s, hs, hi with
    | (some _, tr), rfl, hi => exact hi.ticket.trans pending_iff

def runWell (ch : WifiChange) (tr : List Event) (o : Op) : WifiChange × List Event :=
  exec (fun tr c => (WifiCall.reply (fun _ => false) c,
    tr ++ [.reply c (WifiCall.reply (fun _ => false) c)])) (o.run ch) (tr ++ [.op o])

theorem step_runWell (ch : WifiChange) (tr : List Event) (o : Op) :
    Step (some ch, tr) (some (runWell ch tr o).1, (runWell ch tr o).2) :=
  .op (runs_exec (fun _ _ => rfl) _ _)

def confirmedRun : WifiChange × List Event :=
  let s := runWell {} [] (.start ⟨bytes "61", List.replicate 32 0, none⟩ 0)
  runWell s.1 s.2 (.confirm s.1.ticket (seconds 1))

theorem change_contract_confirmed : confirmedRun.1.state = .committed ∧
    (∀ pre post r, confirmedRun.2 = pre ++ .reply .commit r :: post →
      ∃ before p t₀ drawn mid now,
        pre = before ++ opening p t₀ drawn ++ mid ++ confirmation drawn now ∧
        now < t₀ + seconds 90) ∧
    (confirmedRun.1.ticket ≠ [] ↔
      confirmedRun.1.state = .connecting ∨ confirmedRun.1.state = .awaitingConfirmation) := by
  have h : Reach (some confirmedRun.1, confirmedRun.2) :=
    (Relation.ReflTransGen.single (step_runWell _ _ _)).tail (step_runWell _ _ _)
  obtain ⟨-, hcommit, -, -, -, hticket⟩ := change_contract h
  exact ⟨by decide, hcommit, hticket _ rfl⟩

end WifiChange

end EncoderNext
