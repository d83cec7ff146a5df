import EncoderNext.WindowSound

/-!
# Putting off a new password

The window counts in the settings how often a closing went without a new password. The settings of one
account are read and written by one session after another, each of which may be killed anywhere.
-/

namespace EncoderNext

open Program Program.Stateful

namespace MainWindow

/-- What the settings may hold after a log. A write that failed may have been made. -/
inductive MayHold (initial : Option Int) : List WindowEvent → Option Int → Prop where
  | initial : MayHold initial [] initial
  | saved (log : List WindowEvent) (count : Nat) (ok : Bool) :
      MayHold initial (log ++ [⟨.saveReminder count, ok⟩]) (some count)
  | kept {log : List WindowEvent} {v : Option Int} (e : WindowEvent) :
      MayHold initial log v → (∀ count, e ≠ ⟨.saveReminder count, true⟩) → MayHold initial (log ++ [e]) v

def settings (initial : Option Int) : Env (List WindowEvent) WindowCall WindowCall.Reply :=
  fun log c r log' => log' = log ++ [⟨c, r⟩] ∧
    ∀ v, (⟨c, r⟩ : WindowEvent) = ⟨.readReminder, (v, true)⟩ → MayHold initial log v

def tally (n : Nat) : WindowEvent → Nat
  | ⟨.changePassword .., .ok _⟩ => 0
  | ⟨.saveReminder (_ + 1), true⟩ => n + 1
  | _ => n

/-- How often the change was put off since the last one. -/
def putOff (log : List WindowEvent) : Nat := log.foldl tally 0

def Counted (initial : Option Int) (log : List WindowEvent) : Prop :=
  ∀ v, MayHold initial log v → putOff log ≤ skippedOf v

inductive Sessions (initial : Option Int) : List WindowEvent → Prop where
  | none : Sessions initial []
  | next {log log' : List WindowEvent} (w : MainWindow) (actions : List WindowAction) :
      Sessions initial log → Visits (settings initial) ((handleAll actions).go w) log log' →
      Sessions initial log'

section
variable {initial : Option Int} {log : List WindowEvent} {e : WindowEvent}

theorem mayHold_snoc {v : Option Int} (h : MayHold initial (log ++ [e]) v) :
    (∃ (count : Nat) (ok : Bool), e = ⟨.saveReminder count, ok⟩ ∧ v = some (count : Int)) ∨
    MayHold initial log v ∧ ∀ count, e ≠ ⟨.saveReminder count, true⟩ := by
  generalize hl : log ++ [e] = l at h
  cases h with
  | initial => simp at hl
  | saved log' count ok =>
    obtain ⟨-, he⟩ := List.append_inj' hl rfl
    cases he
    exact .inl ⟨count, ok, rfl, rfl⟩
  | kept e' hm hn =>
    obtain ⟨rfl, he⟩ := List.append_inj' hl rfl
    cases he
    exact .inr ⟨hm, hn⟩

theorem mayHold_some (initial : Option Int) (log : List WindowEvent) : ∃ v, MayHold initial log v := by
  induction log using List.reverseRecOn with
  | nil => exact ⟨initial, .initial⟩
  | append_singleton log e ih =>
    obtain ⟨v, hv⟩ := ih
    by_cases he : ∃ count, e = ⟨.saveReminder count, true⟩
    · obtain ⟨count, rfl⟩ := he
      exact ⟨some count, .saved log count true⟩
    · exact ⟨v, .kept e hv fun count hc => he ⟨count, hc⟩⟩

theorem skippedOf_le (v : Option Int) : skippedOf v ≤ 5 := by
  cases v with
  | none => exact le_rfl
  | some n =>
    unfold skippedOf
    dsimp only
    split_ifs <;> omega

theorem skippedOf_count (n : Nat) : skippedOf (some (n : Int)) = min n 5 := by
  simp [skippedOf]

theorem putOff_snoc (log : List WindowEvent) (e : WindowEvent) :
    putOff (log ++ [e]) = tally (putOff log) e := by
  simp [putOff]

theorem counted_zero (h : putOff log = 0) : Counted initial log := by
  intro v _
  rw [h]
  exact Nat.zero_le _

theorem counted_nil (initial : Option Int) : Counted initial [] := counted_zero rfl

theorem counted_le (h : Counted initial log) : putOff log ≤ 5 := by
  obtain ⟨v, hv⟩ := mayHold_some initial log
  exact (h v hv).trans (skippedOf_le v)

def Uncounted : WindowCall → Prop
  | .saveReminder _ | .changePassword .. => False
  | _ => True

theorem tally_uncounted {c : WindowCall} (hc : Uncounted c) (r : c.Reply) (n : Nat) :
    tally n ⟨c, r⟩ = n := by
  cases c <;> first | rfl | exact hc.elim

theorem counted_uncounted {c : WindowCall} (h : Counted initial log) (hc : Uncounted c) (r : c.Reply) :
    Counted initial (log ++ [⟨c, r⟩]) := by
  intro v hv
  rw [putOff_snoc, tally_uncounted hc]
  rcases mayHold_snoc hv with ⟨count, ok, he, -⟩ | ⟨hv, -⟩
  · cases he
    exact hc.elim
  · exact h v hv

theorem putOff_change (log : List WindowEvent) (username password new : Bytes) (u : Unit) :
    putOff (log ++ [⟨.changePassword username password new, .ok u⟩]) = 0 := by
  rw [putOff_snoc]
  rfl

theorem counted_refused (h : Counted initial log) (username password new message : Bytes) :
    Counted initial (log ++ [⟨.changePassword username password new, .error message⟩]) := by
  intro v hv
  rw [putOff_snoc]
  rcases mayHold_snoc hv with ⟨count, ok, he, -⟩ | ⟨hv, -⟩
  · cases he
  · exact h v hv

theorem counted_save {n : Nat} (h : Counted initial log) (hn : putOff log ≤ n) (h5 : n < 5) (ok : Bool) :
    Counted initial (log ++ [⟨.saveReminder (n + 1), ok⟩]) := by
  intro v hv
  rw [putOff_snoc]
  rcases mayHold_snoc hv with ⟨count, ok', he, rfl⟩ | ⟨hold, hne⟩
  · cases he
    have hle : tally (putOff log) ⟨.saveReminder (n + 1), ok⟩ ≤ putOff log + 1 := by
      cases ok with
      | true => exact le_rfl
      | false => exact Nat.le_succ _
    rw [skippedOf_count]
    omega
  · cases ok with
    | true => exact absurd rfl (hne (n + 1))
    | false => exact h v hold

theorem counted_reset (h : putOff log = 0) (ok : Bool) :
    Counted initial (log ++ [⟨.saveReminder 0, ok⟩]) := by
  intro v _
  rw [putOff_snoc]
  have hz : tally (putOff log) ⟨.saveReminder 0, ok⟩ = putOff log := rfl
  omega

end

/-! ## What bears on the count -/

section
variable (initial : Option Int) (n : Nat)

def CountedBy (log : List WindowEvent) : Prop := Counted initial log ∧ putOff log ≤ n

variable {initial n} {w : MainWindow} {log : List WindowEvent}

theorem countedBy_uncounted {c : WindowCall} {r : c.Reply} {log' : List WindowEvent} (hc : Uncounted c)
    (h : CountedBy initial n log) (he : settings initial log c r log') : CountedBy initial n log' := by
  rw [he.1]
  refine ⟨counted_uncounted h.1 hc r, ?_⟩
  rw [putOff_snoc, tally_uncounted hc]
  exact h.2

/-! Locking up what is decrypted, and telling of it. -/

def Sealing : WindowCall → Prop
  | .encryptData .. | .removeTemp _ | .warn _ => True
  | _ => False

theorem uncounted_of_sealing (c : WindowCall) (h : Sealing c) : Uncounted c := by
  cases c <;> trivial

section
variable {P : WindowCall → Prop} {α : Type}

theorem usesS_modify (f : MainWindow → MainWindow) : UsesS P (modify f) := usesS_step fun _ => trivial

theorem usesS_ask {c : WindowCall} {f : c.Reply → WindowHandler α} (hc : P c) (hf : ∀ r, UsesS P (f r)) :
    UsesS P (perform c >>= f) :=
  usesS_bind (usesS_perform hc) hf

theorem usesS_ite {b : Prop} [Decidable b] {x y : WindowHandler α} (hx : UsesS P x) (hy : UsesS P y) :
    UsesS P (if b then x else y) := by
  by_cases h : b
  · rw [if_pos h]
    exact hx
  · rw [if_neg h]
    exact hy

end

theorem usesS_dropTemp (item : DecryptedItem) : UsesS Sealing (dropTemp item) :=
  usesS_ite (usesS_pure ()) (usesS_ask trivial fun _ => usesS_pure ())

theorem usesS_resealItems (items : List DecryptedItem) : UsesS Sealing (resealItems items) := by
  induction items with
  | nil => exact usesS_pure true
  | cons item rest ih =>
    refine usesS_bind usesS_state fun w => usesS_ask trivial fun r => ?_
    cases r with
    | error message => exact usesS_pure false
    | ok u => exact usesS_bind (usesS_dropTemp item) fun _ => ih

theorem usesS_reencryptAll : UsesS Sealing reencryptAll := by
  refine usesS_bind usesS_state fun w => usesS_ite ?_ ?_
  · exact usesS_bind (usesS_modify _) fun _ => usesS_pure true
  · refine usesS_bind (usesS_resealItems _) fun done => usesS_ite ?_ (usesS_pure false)
    exact usesS_bind (usesS_modify _) fun _ => usesS_pure true

theorem usesS_violated (n : Nat) : UsesS Sealing (violated n) := by
  induction n with
  | zero => exact usesS_pure ()
  | succ n ih =>
    refine usesS_bind usesS_state fun w => usesS_ite ?_ (usesS_pure ())
    exact usesS_bind usesS_reencryptAll fun _ => usesS_ask trivial fun _ => ih

theorem usesS_warn (warning : WindowWarning) : UsesS Sealing (warn warning) :=
  usesS_ask trivial usesS_violated

theorem usesS_refuse (warning : WindowWarning) : UsesS Sealing (refuse warning) :=
  usesS_bind (usesS_warn warning) fun _ => usesS_pure false

theorem uncounted_uses {α : Type} {x : WindowHandler α} (h : UsesS Sealing x) : UsesS Uncounted x :=
  usesS_mono uncounted_of_sealing h

theorem usesS_encryptTargets (cipher : Cipher) (hash : HashAlg) (keyStorage : Bytes)
    (paths : List Bytes) : UsesS Uncounted (encryptTargets cipher hash keyStorage paths) := by
  induction paths with
  | nil => exact usesS_pure ()
  | cons path rest ih =>
    refine usesS_bind usesS_state fun w => usesS_ask trivial fun r => ?_
    cases r with
    | error message => exact usesS_bind (uncounted_uses (usesS_warn _)) fun _ => ih
    | ok u => exact ih

theorem usesS_tempFor (toTemp : Bool) (path data : Bytes) : UsesS Uncounted (tempFor toTemp path data) := by
  refine usesS_ite ?_ (usesS_pure [])
  exact usesS_ask trivial fun temp => usesS_ask trivial fun written => usesS_pure _

theorem usesS_decryptTargets (paths : List Bytes) : UsesS Uncounted (decryptTargets paths) := by
  induction paths with
  | nil => exact usesS_pure ()
  | cons path rest ih =>
    refine usesS_bind usesS_state fun w => usesS_ask trivial fun r => ?_
    cases r with
    | error message => exact usesS_bind (uncounted_uses (usesS_warn _)) fun _ => ih
    | ok file =>
      have hkeep : UsesS Uncounted (keepDecrypted path file) :=
        usesS_bind usesS_state fun w => usesS_bind (usesS_tempFor _ _ _) fun _ => usesS_modify _
      exact usesS_bind hkeep fun _ => ih

theorem usesS_pressed {x : WindowHandler Unit} (enabled : MainWindow → Bool) (hx : UsesS Uncounted x) :
    UsesS Uncounted (pressed enabled x) := by
  refine usesS_bind usesS_state fun w => usesS_ite ?_ (usesS_pure false)
  exact usesS_bind hx fun _ => usesS_pure false

theorem usesS_handle {action : WindowAction} (h : action ≠ .close) : UsesS Uncounted (handle action) := by
  cases action with
  | selectFiles files => exact usesS_bind (usesS_modify _) fun _ => usesS_pure false
  | markRows rows => exact usesS_bind (usesS_modify _) fun _ => usesS_pure false
  | choose cipher hash keyOnServer decryptToTemp =>
    exact usesS_bind (usesS_modify _) fun _ => usesS_pure false
  | encrypt =>
    refine usesS_pressed _ (usesS_bind usesS_state fun w => usesS_ite (usesS_pure ()) ?_)
    exact usesS_encryptTargets _ _ _ _
  | decrypt =>
    refine usesS_pressed _ (usesS_bind usesS_state fun w => usesS_ite (usesS_pure ()) ?_)
    exact usesS_bind (usesS_decryptTargets _) fun _ => usesS_modify _
  | terminate =>
    refine usesS_pressed _ (usesS_bind (uncounted_uses usesS_reencryptAll) fun done => ?_)
    exact usesS_ite (usesS_pure ()) (uncounted_uses (usesS_warn _))
  | alarm more => exact usesS_bind (uncounted_uses (usesS_violated _)) fun _ => usesS_pure false
  | close => exact absurd rfl h

/-! ## Closing -/

abbrev Counting (initial : Option Int) {α : Type} (x : WindowHandler α) (w : MainWindow)
    (log : List WindowEvent) : Prop :=
  wpS (settings initial) (fun _ _ log' => Counted initial log') (fun _ _ _ => True)
    (fun log' => Counted initial log') x w log

theorem uncounted_spec {α : Type} {x : WindowHandler α} (hx : UsesS Uncounted x)
    (h : CountedBy initial n log) : wpS (settings initial) (fun _ _ => CountedBy initial n)
      (fun _ _ => CountedBy initial n) (CountedBy initial n) x w log :=
  wpS_of_uses (fun _ _ _ _ hc hk he => countedBy_uncounted hc hk he) hx h

theorem counting_uses {α : Type} {x : WindowHandler α} (hx : UsesS Uncounted x)
    (h : Counted initial log) : Counting initial x w log := by
  have hk : CountedBy initial (putOff log) log := ⟨h, le_rfl⟩
  exact wpS_mono (uncounted_spec hx hk) (fun _ _ _ _ h' => h'.1) (fun _ _ _ _ _ => trivial) fun _ h' => h'.1

theorem saveCount_counting {count : Nat} (h : Counted initial log)
    (hs : ∀ ok, Counted initial (log ++ [⟨.saveReminder count, ok⟩])) :
    Counting initial (saveCount count) w log := by
  rw [Counting, saveCount, wpS_perform_bind]
  refine ⟨h, fun ok log' he => ?_⟩
  rw [he.1]
  exact counting_uses (usesS_ite (usesS_pure true) (uncounted_uses (usesS_refuse _))) (hs ok)

theorem changeAndSave_counting (h : Counted initial log) (newPassword confirm : Bytes) :
    Counting initial (changeAndSave newPassword confirm) w log := by
  rw [Counting, changeAndSave, wpS_state_bind]
  split_ifs
  · exact counting_uses (uncounted_uses (usesS_refuse _)) h
  · exact counting_uses (uncounted_uses (usesS_refuse _)) h
  · exact counting_uses (uncounted_uses (usesS_refuse _)) h
  · rw [wpS_perform_bind]
    refine ⟨h, fun r log' he => ?_⟩
    rw [he.1]
    cases r with
    | error message => exact counting_uses (uncounted_uses (usesS_refuse _)) (counted_refused h _ _ _ message)
    | ok u =>
      have hz := putOff_change log w.username w.password newPassword u
      rw [wpS_bind, wpS_modify]
      exact ⟨counted_zero hz, saveCount_counting (counted_zero hz) (counted_reset hz)⟩

theorem endPrompt_counting (h : CountedBy initial n log) (ending : PasswordEnding) :
    Counting initial (endPrompt n ending) w log := by
  cases ending with
  | skipped =>
    rw [endPrompt]
    split_ifs with h5
    · exact saveCount_counting h.1 (counted_save h.1 h.2 h5)
    · exact counting_uses (usesS_pure false) h.1
  | returned => exact counting_uses (usesS_pure false) h.1
  | accepted newPassword confirm => exact changeAndSave_counting h.1 newPassword confirm

theorem promptPasswordChange_counting (h : Counted initial log) :
    Counting initial promptPasswordChange w log := by
  rw [Counting, promptPasswordChange, wpS_perform_bind]
  refine ⟨h, fun reminder log' he => ?_⟩
  have hc : Counted initial log' := by
    rw [he.1]
    exact counted_uncounted (c := .readReminder) h trivial reminder
  by_cases hr : reminder.2 = true
  · have hread : MayHold initial log reminder.1 := he.2 reminder.1 (by rw [← hr])
    have hn : CountedBy initial (skippedOf reminder.1) log' := by
      refine ⟨hc, ?_⟩
      rw [he.1, putOff_snoc, tally_uncounted (c := .readReminder) trivial]
      exact h _ hread
    dsimp only
    rw [if_pos hr, wpS_perform_bind]
    refine ⟨hc, fun answer log₁ he₁ => ?_⟩
    have hn₁ := countedBy_uncounted (c := .askPassword _) trivial hn he₁
    have hrung := uncounted_spec (w := w) (uncounted_uses (usesS_violated answer.2)) hn₁
    rw [wpS_bind]
    refine wpS_mono hrung (fun _ s' log₂ _ h₂ => ?_) (fun _ _ _ _ _ => trivial) fun _ h' => h'.1
    exact endPrompt_counting h₂ answer.1
  · dsimp only
    rw [if_neg hr]
    exact counting_uses (uncounted_uses (usesS_refuse _)) hc

theorem closeEvent_counting (h : Counted initial log) : Counting initial closeEvent w log := by
  rw [Counting, closeEvent, wpS_state_bind]
  split_ifs
  · exact counting_uses (usesS_pure true) h
  · rw [wpS_bind, wpS_modify]
    refine ⟨h, ?_⟩
    rw [wpS_bind, readyToClose, wpS_bind]
    have hseal : UsesS Uncounted sealBeforeClose :=
      usesS_bind usesS_state fun w => usesS_ite (usesS_pure true) (uncounted_uses usesS_reencryptAll)
    refine wpS_post (counting_uses hseal h) fun done w₁ log₁ _ h₁ => ?_
    have hrest : ∀ ready, UsesS Uncounted
        (if ready = true then pure true else do
          modify fun w => { w with closing := false }
          return false : WindowHandler Bool) := fun ready =>
      usesS_ite (usesS_pure true) (usesS_bind (usesS_modify _) fun _ => usesS_pure false)
    cases done with
    | true =>
      exact wpS_post (promptPasswordChange_counting h₁) fun ready _ _ _ h₂ =>
        counting_uses (hrest ready) h₂
    | false => exact wpS_post (counting_uses (usesS_pure false) h₁) fun ready _ _ _ h₂ =>
        counting_uses (hrest ready) h₂

theorem handle_counting (h : Counted initial log) (action : WindowAction) :
    Counting initial (handle action) w log := by
  by_cases hc : action = .close
  · rw [hc]
    exact closeEvent_counting h
  · exact counting_uses (usesS_handle hc) h

theorem handleAll_counting (actions : List WindowAction) : ∀ {w : MainWindow} {log : List WindowEvent},
    Counted initial log → Counting initial (handleAll actions) w log := by
  induction actions with
  | nil =>
    intro w log h
    exact counting_uses (usesS_pure false) h
  | cons action rest ih =>
    intro w log h
    rw [Counting, handleAll, wpS_bind]
    refine wpS_post (handle_counting h action) fun closed w₁ log₁ _ h₁ => ?_
    cases closed with
    | true => exact counting_uses (usesS_pure true) h₁
    | false => exact ih h₁

theorem sessions_counted (h : Sessions initial log) : Counted initial log := by
  induction h with
  | none => exact counted_nil initial
  | next w actions _ hv ih => exact visits_of_wp (handleAll_counting actions ih) hv

end

/-! ## How a window closes -/

def LastRead (v : Option Int) (log : List WindowEvent) : Prop :=
  ∃ before mid, log = before ++ ⟨.readReminder, (v, true)⟩ :: mid ∧ ∀ e ∈ mid, e.call ≠ .readReminder

/-- A new password was set and the count begun anew, or one more closing was counted. -/
inductive Leaves : List WindowEvent → Prop where
  | changed (log : List WindowEvent) (username password new : Bytes) (hn : new ≠ []) (hd : new ≠ password) :
      Leaves (log ++ [⟨.changePassword username password new, .ok ()⟩] ++ [⟨.saveReminder 0, true⟩])
  | skipped (log : List WindowEvent) (v : Option Int) (h5 : skippedOf v < 5)
      (hr : LastRead v log) : Leaves (log ++ [⟨.saveReminder (skippedOf v + 1), true⟩])

section
variable {w : MainWindow} {log : List WindowEvent}

abbrev Leaving (x : WindowHandler Bool) (w : MainWindow) (log : List WindowEvent) : Prop :=
  Leads (fun yes _ log' => yes = true → Leaves log') x w log

theorem leads_any {α : Type} (x : WindowHandler α) : Leads (fun _ _ log' => log <+: log') x w log := by
  have hs : ∀ l c r l', True → log <+: l → Program.recording WindowEvent.mk l c r l' → log <+: l' := by
    intro l c r l' _ hp he
    rw [he]
    exact hp.trans (List.prefix_append l _)
  have huse : UsesS (fun _ => True) x := fun s => uses_true _
  have hall := wpS_of_uses (s := w) hs huse (List.prefix_refl log)
  exact wpS_mono hall (fun _ _ _ _ h => h) (fun _ _ _ _ _ => trivial) fun _ _ => trivial

theorem lastRead_sealing {α : Type} {v : Option Int} {x : WindowHandler α} (hx : UsesS Sealing x)
    (h : LastRead v log) : Leads (fun _ _ log' => LastRead v log') x w log := by
  have hs : ∀ l c r l', Sealing c → LastRead v l → Program.recording WindowEvent.mk l c r l' →
      LastRead v l' := by
    intro l c r l' hc hl he
    obtain ⟨before, mid, rfl, hmid⟩ := hl
    refine ⟨before, mid ++ [⟨c, r⟩], he.trans (List.append_assoc ..), fun e hm => ?_⟩
    rcases List.mem_append.mp hm with hm | hm
    · exact hmid e hm
    · rw [List.mem_singleton.mp hm]
      rintro rfl
      exact hc
  exact wpS_mono (wpS_of_uses hs hx h) (fun _ _ _ _ h => h) (fun _ _ _ _ _ => trivial) fun _ _ => trivial

theorem leaving_false : Leaving (pure false) w log := by
  rw [Leaving, leads_pure]
  simp

theorem leaving_no {α : Type} (x : WindowHandler α) : Leaving (x >>= fun _ => pure false) w log := by
  rw [Leaving, leads_bind]
  exact wpS_post (leads_any x) fun _ _ _ _ _ => leaving_false

theorem leaving_refuse (warning : WindowWarning) : Leaving (refuse warning) w log :=
  leaving_no (warn warning)

theorem leaving_saveCount (count : Nat) (h : Leaves (log ++ [⟨.saveReminder count, true⟩])) :
    Leaving (saveCount count) w log := by
  rw [Leaving, saveCount, leads_perform]
  intro ok
  cases ok with
  | true =>
    show Leads _ (pure true) _ _
    rw [leads_pure]
    exact fun _ => h
  | false => exact leaving_refuse .reminderUnsaved

theorem leaving_changeAndSave (newPassword confirm : Bytes) :
    Leaving (changeAndSave newPassword confirm) w log := by
  rw [Leaving, changeAndSave, leads_state]
  split_ifs with hempty hsame hdiffer
  · exact leaving_refuse _
  · exact leaving_refuse _
  · exact leaving_refuse _
  · rw [leads_perform]
    intro r
    cases r with
    | error message => exact leaving_refuse _
    | ok u =>
      rw [leads_modify]
      exact leaving_saveCount 0 (.changed log _ _ newPassword hempty hsame)

theorem leaving_endPrompt {v : Option Int} (hr : LastRead v log)
    (ending : PasswordEnding) : Leaving (endPrompt (skippedOf v) ending) w log := by
  cases ending with
  | skipped =>
    rw [endPrompt]
    split_ifs with h5
    · exact leaving_saveCount _ (.skipped log v h5 hr)
    · exact leaving_false
  | returned => exact leaving_false
  | accepted newPassword confirm => exact leaving_changeAndSave newPassword confirm

theorem leaving_promptPasswordChange : Leaving promptPasswordChange w log := by
  rw [Leaving, promptPasswordChange, leads_perform]
  intro reminder
  obtain ⟨v, readable⟩ := reminder
  cases readable with
  | false => exact leaving_refuse _
  | true =>
    show Leads _ (perform _ >>= _) _ _
    rw [leads_perform]
    intro answer
    rw [leads_bind]
    have hread : LastRead v (log ++ [⟨.readReminder, (v, true)⟩] ++ [⟨.askPassword _, answer⟩]) :=
      ⟨log, [⟨.askPassword _, answer⟩], by simp, by simp⟩
    exact wpS_post (lastRead_sealing (usesS_violated answer.2) hread) fun _ w' log' _ hr =>
      leaving_endPrompt hr answer.1

theorem leaving_closeEvent (h : w.closing = false) : Leaving closeEvent w log := by
  have hopen : ¬ w.closing = true := by simp [h]
  rw [Leaving, closeEvent, leads_state, if_neg hopen, leads_modify, leads_bind, readyToClose, leads_bind]
  refine wpS_post (leads_any sealBeforeClose) fun done w₁ log₁ _ _ => ?_
  have hready : Leaving (if done = true then promptPasswordChange else pure false) w₁ log₁ := by
    split_ifs
    · exact leaving_promptPasswordChange
    · exact leaving_false
  refine wpS_post hready fun ready w₂ log₂ _ h₂ => ?_
  cases ready with
  | true =>
    show Leads _ (pure true) _ _
    rw [leads_pure]
    exact h₂
  | false => exact leaving_no (modify _)

theorem leaving_pressed (enabled : MainWindow → Bool) (x : WindowHandler Unit) :
    Leaving (pressed enabled x) w log := by
  rw [Leaving, pressed, leads_state]
  split_ifs
  · exact leaving_no x
  · exact leaving_false

theorem leaving_handle (h : w.closing = false) (action : WindowAction) :
    Leaving (handle action) w log := by
  cases action with
  | selectFiles files => exact leaving_no _
  | markRows rows => exact leaving_no _
  | choose cipher hash keyOnServer decryptToTemp => exact leaving_no _
  | encrypt => exact leaving_pressed _ _
  | decrypt => exact leaving_pressed _ _
  | terminate => exact leaving_pressed _ _
  | alarm more => exact leaving_no _
  | close => exact leaving_closeEvent h

theorem leaving_handleAll (actions : List WindowAction) : ∀ {w : MainWindow} {log : List WindowEvent},
    Resting w log → Leaving (handleAll actions) w log := by
  induction actions with
  | nil =>
    intro w log _
    exact leaving_false
  | cons action rest ih =>
    intro w log h
    rw [Leaving, handleAll, leads_bind]
    refine wpS_mono (wpS_and (handle_spec h action) (leaving_handle h.opened action))
      (fun closed w₁ log₁ _ h₁ => ?_) (fun _ _ _ _ _ => trivial) fun _ _ => trivial
    cases closed with
    | true => exact (leads_pure true).mpr fun _ => h₁.2 rfl
    | false => exact ih ⟨h₁.1.good, h₁.1.secured, h₁.1.opened rfl⟩
end

/-- **A new password is put off five times at most.** Over any number of sessions of an account, one
after another and each killed anywhere, whatever the counter held at first, at most five closings since
the last change of the password went without a new one; and a window that closes has just set a new
password, other than the old one, and begun the count anew, or has counted one more closing than the
count that it read, which was below five. -/
theorem put_off_five (initial : Option Int) :
    (∀ log, Sessions initial log → putOff log ≤ 5) ∧
    ∀ (username password : Bytes) (permissions : Nat) (keyOnServer decryptToTemp : Bool)
      (actions : List WindowAction) (w : MainWindow) (log : List WindowEvent),
      Runs (Program.recording WindowEvent.mk)
        ((handleAll actions).go (start username password permissions keyOnServer decryptToTemp)) []
        (.ok true, w) log → Leaves log := by
  refine ⟨fun log h => counted_le (sessions_counted h), ?_⟩
  intro username password permissions keyOnServer decryptToTemp actions w log h
  have hall := leaving_handleAll actions
    (resting_start username password permissions keyOnServer decryptToTemp)
  have hrun := runs_of_wp hall h
  exact hrun rfl

/-! A session in which the window is closed at once, without a new password. -/

def closeRun : (Except Empty Bool × MainWindow) × List WindowEvent :=
  exec willing ((handleAll [.close]).go (start [1] [2] 3 true true)) []

def readFirst (log : List WindowEvent) (c : WindowCall) : Bool :=
  match c with
  | .readReminder => log.isEmpty
  | _ => true

theorem willing_settings (log : List WindowEvent) (c : WindowCall) (h : readFirst log c = true) :
    settings (some 2) log c (willing log c).1 (willing log c).2 := by
  refine ⟨rfl, fun v he => ?_⟩
  cases c with
  | readReminder =>
    cases List.isEmpty_iff.mp h
    cases he
    exact .initial
  | _ => cases he

theorem put_off_five_skipped : putOff closeRun.2 ≤ 5 ∧ Leaves closeRun.2 := by
  have hvisit : Visits (settings (some 2)) ((handleAll [.close]).go (start [1] [2] 3 true true)) []
      closeRun.2 := visits_of_runs (runs_execMeets willing_settings _ _ rfl)
  have hrun : Runs (Program.recording WindowEvent.mk) ((handleAll [.close]).go (start [1] [2] 3 true true)) []
      closeRun.1 closeRun.2 := runs_exec (fun _ _ => rfl) _ _
  have hclosed : closeRun.1 = (.ok true, closeRun.1.2) := rfl
  rw [hclosed] at hrun
  obtain ⟨hcount, hleave⟩ := put_off_five (some 2)
  exact ⟨hcount _ (.next _ _ .none hvisit), hleave _ _ _ _ _ _ _ _ hrun⟩

end MainWindow
end EncoderNext
