import EncoderNext.MainWindow
import EncoderNext.Log

/-!
# Nothing decrypted is dropped

What the window has decrypted it holds until it has been encrypted again, and a temporary file until it
has been removed.
-/

namespace EncoderNext

open Program Program.Stateful
open ClientCore (DecryptResult)

structure WindowEvent where
  call : WindowCall
  reply : call.Reply

def DecryptedItem.bare (item : DecryptedItem) : DecryptedItem := { item with tempPath := [] }

namespace MainWindow

/-! ## What the window owes -/

inductive Opens : WindowEvent → DecryptedItem → Prop where
  | mk (username password path : Bytes) (result : DecryptResult) :
      Opens ⟨.decryptFile username password path, .ok result⟩ (.of path result [])

structure Reseals (p : SealParams) (data : Bytes) (item : DecryptedItem) : Prop where
  path : p.filePath = item.filePath
  data : data = item.data
  cipher : p.cipher = item.cipher
  hash : p.hash = item.hash
  key : item.keyStorage = [] ∨ p.keyStorage = item.keyStorage

inductive Seals : WindowEvent → DecryptedItem → Prop where
  | mk {p : SealParams} {data : Bytes} {item : DecryptedItem} :
      Reseals p data item → Seals ⟨.encryptData p data, .ok ()⟩ item

inductive Writes : WindowEvent → Bytes → Prop where
  | mk (temp data : Bytes) (h : temp ≠ []) : Writes ⟨.writeTemp temp data, true⟩ temp

/-- The removal is asked for, and the file may stay all the same. -/
inductive Removes : WindowEvent → Bytes → Prop where
  | mk (temp : Bytes) (removed : Bool) : Removes ⟨.removeTemp temp, removed⟩ temp

/-- What is owed is held, the files by `items` and the temporary files by `temps`. -/
structure Holding (items temps : List DecryptedItem) (log : List WindowEvent) : Prop where
  items (o : DecryptedItem) : Owing Opens Seals log o → ∃ item ∈ items, item.bare = o
  temps (t : Bytes) : Owing Writes Removes log t → ∃ item ∈ temps, item.tempPath = t

def Justified (log : List WindowEvent) (e : WindowEvent) : Prop :=
  ∀ p data, e.call = .encryptData p data → ∃ o, (∃ e' ∈ log, Opens e' o) ∧ Reseals p data o

structure Good (w : MainWindow) (log : List WindowEvent) : Prop where
  holding : Holding w.decrypted w.decrypted log
  shown : w.decrypted.map (fun item => item.filePath) = w.shown
  opened (item : DecryptedItem) : item ∈ w.decrypted → ∃ e ∈ log, Opens e item.bare
  lawful : Lawful Justified log

structure Secured (w : MainWindow) : Prop where
  mode : w.secureMode = !w.decrypted.isEmpty
  terminate : w.terminateEnabled = !w.decrypted.isEmpty

section
variable {w : MainWindow} {log : List WindowEvent} {items temps : List DecryptedItem}

theorem holding_snoc {e : WindowEvent} (h : Holding items temps log) (ho : ∀ o, ¬ Opens e o)
    (ht : ∀ t, ¬ Writes e t) : Holding items temps (log ++ [e]) where
  items o hw := by
    rcases owing_snoc hw with hr | ⟨hw, -⟩
    · exact absurd hr (ho o)
    · exact h.items o hw
  temps t hw := by
    rcases owing_snoc hw with hr | ⟨hw, -⟩
    · exact absurd hr (ht t)
    · exact h.temps t hw

theorem good_snoc {e : WindowEvent} (h : Good w log) (ho : ∀ o, ¬ Opens e o) (ht : ∀ t, ¬ Writes e t)
    (hj : Justified log e) : Good w (log ++ [e]) where
  holding := holding_snoc h.holding ho ht
  shown := h.shown
  opened item hm := by
    obtain ⟨e', he', hopen⟩ := h.opened item hm
    exact ⟨e', by simp [he'], hopen⟩
  lawful := lawful_snoc h.lawful hj

/-- Calls that neither decrypt, nor encrypt what was decrypted, nor write a temporary file. -/
def Quiet : WindowCall → Prop
  | .decryptFile .. | .encryptData .. | .writeTemp .. => False
  | _ => True

theorem good_quiet {c : WindowCall} (h : Good w log) (hc : Quiet c) (r : c.Reply) :
    Good w (log ++ [⟨c, r⟩]) := by
  refine good_snoc h (fun o ho => ?_) (fun t ht => ?_) fun p data he => ?_
  · cases ho
    exact hc
  · cases ht
    exact hc
  · subst he
    exact hc.elim

theorem reseals_bare {p : SealParams} {data : Bytes} {item : DecryptedItem} :
    Reseals p data item.bare ↔ Reseals p data item :=
  ⟨fun h => ⟨h.path, h.data, h.cipher, h.hash, h.key⟩, fun h => ⟨h.path, h.data, h.cipher, h.hash, h.key⟩⟩

theorem reseals_params (w : MainWindow) (item : DecryptedItem) :
    Reseals (w.resealParams item) item.data item where
  path := rfl
  data := rfl
  cipher := rfl
  hash := rfl
  key := by
    by_cases h : item.keyStorage = []
    · exact .inl h
    · exact .inr (by simp [resealParams, h])

theorem not_opens_encrypt (p : SealParams) (data : Bytes) (r : Except Bytes Unit) (o : DecryptedItem) :
    ¬ Opens ⟨.encryptData p data, r⟩ o := by
  intro h
  cases h

theorem not_writes_encrypt (p : SealParams) (data : Bytes) (r : Except Bytes Unit) (t : Bytes) :
    ¬ Writes ⟨.encryptData p data, r⟩ t := by
  intro h
  cases h

theorem good_encrypt (h : Good w log) {item : DecryptedItem} (hm : item ∈ w.decrypted)
    (r : Except Bytes Unit) : Good w (log ++ [⟨.encryptData (w.resealParams item) item.data, r⟩]) := by
  refine good_snoc h (not_opens_encrypt _ _ r) (not_writes_encrypt _ _ r) fun p data he => ?_
  cases he
  exact ⟨item.bare, h.opened item hm, reseals_bare.mpr (reseals_params w item)⟩

theorem holding_sealed {item : DecryptedItem} (h : Holding (item :: items) temps log) (w : MainWindow) :
    Holding items temps (log ++ [⟨.encryptData (w.resealParams item) item.data, .ok ()⟩]) where
  items o hw := by
    rcases owing_snoc hw with hr | ⟨hw, hs⟩
    · exact absurd hr (not_opens_encrypt _ _ _ o)
    · obtain ⟨held, hm, rfl⟩ := h.items o hw
      rcases List.mem_cons.mp hm with rfl | hm
      · exact absurd (.mk (reseals_bare.mpr (reseals_params w held))) hs
      · exact ⟨held, hm, rfl⟩
  temps t hw := by
    rcases owing_snoc hw with hr | ⟨hw, -⟩
    · exact absurd hr (not_writes_encrypt _ _ _ t)
    · exact h.temps t hw

theorem owing_writes {t : Bytes} (h : Owing Writes Removes log t) : t ≠ [] := by
  obtain ⟨pre, e, post, -, hr, -⟩ := h
  cases hr
  assumption

theorem holding_unwritten {item : DecryptedItem} (h : Holding items (item :: temps) log)
    (ht : item.tempPath = []) : Holding items temps log where
  items := h.items
  temps t hw := by
    obtain ⟨held, hm, rfl⟩ := h.temps t hw
    rcases List.mem_cons.mp hm with rfl | hm
    · exact absurd ht (owing_writes hw)
    · exact ⟨held, hm, rfl⟩

theorem holding_removed {item : DecryptedItem} (h : Holding items (item :: temps) log) (removed : Bool) :
    Holding items temps (log ++ [⟨.removeTemp item.tempPath, removed⟩]) where
  items o hw := by
    rcases owing_snoc hw with hr | ⟨hw, -⟩
    · cases hr
    · exact h.items o hw
  temps t hw := by
    rcases owing_snoc hw with hr | ⟨hw, hs⟩
    · cases hr
    · obtain ⟨held, hm, rfl⟩ := h.temps t hw
      rcases List.mem_cons.mp hm with rfl | hm
      · exact absurd (.mk _ removed) hs
      · exact ⟨held, hm, rfl⟩

end

/-! ## The handlers -/

theorem wpS_modify {W : Type} {env : Env W WindowCall WindowCall.Reply} {Q : Unit → MainWindow → W → Prop}
    {E : Empty → MainWindow → W → Prop} {K : W → Prop} {w : MainWindow} {v : W} (f : MainWindow → MainWindow) :
    wpS env Q E K (modify f) w v ↔ K v ∧ Q () (f w) v := by
  rw [modify, wpS_step, wp_pure]

abbrev Leads {α : Type} (Q : α → MainWindow → List WindowEvent → Prop) (x : WindowHandler α)
    (w : MainWindow) (log : List WindowEvent) : Prop :=
  wpS (Program.recording WindowEvent.mk) Q (fun _ _ _ => True) (fun _ => True) x w log

section
variable {α β : Type} {w : MainWindow} {log : List WindowEvent}
  {Q : α → MainWindow → List WindowEvent → Prop}

theorem leads_pure (a : α) : Leads Q (pure a) w log ↔ Q a w log := by
  rw [Leads, wpS_pure]
  exact ⟨fun h => h.2, fun h => ⟨trivial, h⟩⟩

theorem leads_state (f : MainWindow → WindowHandler α) :
    Leads Q (state >>= f) w log ↔ Leads Q (f w) w log := wpS_state_bind f

theorem leads_perform (c : WindowCall) (f : c.Reply → WindowHandler α) :
    Leads Q (perform c >>= f) w log ↔ ∀ r, Leads Q (f r) w (log ++ [⟨c, r⟩]) := by
  rw [Leads, wpS_perform_bind]
  constructor
  · intro h r
    exact h.2 r _ rfl
  · intro h
    refine ⟨trivial, fun r log' he => ?_⟩
    rw [he]
    exact h r

theorem leads_set {Q : Unit → MainWindow → List WindowEvent → Prop} (f : MainWindow → MainWindow) :
    Leads Q (modify f) w log ↔ Q () (f w) log := by
  rw [Leads, wpS_modify]
  exact ⟨fun h => h.2, fun h => ⟨trivial, h⟩⟩

theorem leads_modify (f : MainWindow → MainWindow) (g : Unit → WindowHandler α) :
    Leads Q (modify f >>= g) w log ↔ Leads Q (g ()) (f w) log := by
  rw [Leads, wpS_bind]
  exact leads_set f

theorem leads_bind (x : WindowHandler β) (f : β → WindowHandler α) :
    Leads Q (x >>= f) w log ↔ Leads (fun a w' log' => Leads Q (f a) w' log') x w log := wpS_bind x f

end

theorem dropTemp_spec {w : MainWindow} {log : List WindowEvent} {item : DecryptedItem}
    {items temps : List DecryptedItem} (hg : Good w log) (hh : Holding items (item :: temps) log) :
    Leads (fun _ s' log' => s' = w ∧ Good w log' ∧ Holding items temps log') (dropTemp item) w log := by
  unfold dropTemp
  by_cases ht : item.tempPath = []
  · rw [if_pos ht, leads_pure]
    exact ⟨rfl, hg, holding_unwritten hh ht⟩
  · rw [if_neg ht]
    refine (leads_perform (.removeTemp item.tempPath) _).mpr fun r => (leads_pure ()).mpr ?_
    exact ⟨rfl, good_quiet (c := .removeTemp item.tempPath) hg trivial r, holding_removed hh r⟩

theorem resealItems_spec {w : MainWindow} (items : List DecryptedItem) :
    ∀ {log : List WindowEvent}, (∀ item ∈ items, item ∈ w.decrypted) → Good w log →
      Holding items items log →
      Leads (fun done s' log' => s' = w ∧ Good w log' ∧ (done = true → Holding [] [] log'))
        (resealItems items) w log := by
  induction items with
  | nil =>
    intro log _ hg hh
    rw [resealItems, leads_pure]
    exact ⟨rfl, hg, fun _ => hh⟩
  | cons item rest ih =>
    intro log hsub hg hh
    have hm : item ∈ w.decrypted := hsub item (by simp)
    rw [resealItems, leads_state, leads_perform]
    intro r
    have hg' := good_encrypt hg hm r
    cases r with
    | error message =>
      rw [leads_pure]
      exact ⟨rfl, hg', by simp⟩
    | ok u =>
      rw [leads_bind]
      refine wpS_post (dropTemp_spec hg' (holding_sealed hh w)) fun _ s' log' _ h => ?_
      obtain ⟨rfl, hg'', hh'⟩ := h
      exact ih (fun other ho => hsub other (by simp [ho])) hg'' hh'

/-! What a handler keeps, when it moves the window along `T`. -/

def Keeps {α : Type} (T : MainWindow → MainWindow → Prop) (x : WindowHandler α) : Prop :=
  ∀ w log, Good w log → Leads (fun _ s' log' => Good s' log' ∧ T w s') x w log

structure Steady (w w' : MainWindow) : Prop where
  closing : w'.closing = w.closing
  empty : w.decrypted = [] → w'.decrypted = []
  secured : Secured w → Secured w'

theorem steady_refl (w : MainWindow) : Steady w w := ⟨rfl, id, id⟩

theorem steady_trans {w₁ w₂ w₃ : MainWindow} (h : Steady w₁ w₂) (h' : Steady w₂ w₃) : Steady w₁ w₃ :=
  ⟨h'.closing.trans h.closing, h'.empty ∘ h.empty, h'.secured ∘ h.secured⟩

theorem secured_update (w : MainWindow) : Secured w.updateSecureState := ⟨rfl, rfl⟩

theorem steady_update (w : MainWindow) : Steady w w.updateSecureState :=
  ⟨rfl, id, fun _ => secured_update w⟩

theorem good_update {w : MainWindow} {log : List WindowEvent} (h : Good w log) :
    Good w.updateSecureState log := ⟨h.holding, h.shown, h.opened, h.lawful⟩

section
variable {α β : Type} {T : MainWindow → MainWindow → Prop}

theorem keeps_pure (a : α) : Keeps Steady (pure a) := by
  intro w log h
  rw [leads_pure]
  exact ⟨h, steady_refl w⟩

theorem keeps_bind {x : WindowHandler α} {f : α → WindowHandler β} (hx : Keeps Steady x)
    (hf : ∀ a, Keeps Steady (f a)) : Keeps Steady (x >>= f) := by
  intro w log h
  rw [leads_bind]
  refine wpS_post (hx w log h) fun a w₁ log₁ _ h₁ => ?_
  refine wpS_post (hf a w₁ log₁ h₁.1) fun _ w₂ log₂ _ h₂ => ?_
  exact ⟨h₂.1, steady_trans h₁.2 h₂.2⟩

theorem keeps_state {f : MainWindow → WindowHandler α} (hf : ∀ w, Keeps T (f w)) :
    Keeps T (state >>= f) := by
  intro w log h
  rw [leads_state]
  exact hf w w log h

theorem keeps_perform {c : WindowCall} {f : c.Reply → WindowHandler α} (hc : Quiet c)
    (hf : ∀ r, Keeps T (f r)) : Keeps T (perform c >>= f) := by
  intro w log h
  rw [leads_perform]
  intro r
  exact hf r w _ (good_quiet h hc r)

theorem keeps_ite {b : Prop} [Decidable b] {x y : WindowHandler α} (hx : Keeps T x) (hy : Keeps T y) :
    Keeps T (if b then x else y) := by
  by_cases h : b
  · rw [if_pos h]
    exact hx
  · rw [if_neg h]
    exact hy

theorem keeps_mono {T' : MainWindow → MainWindow → Prop} {x : WindowHandler α} (hx : Keeps T x)
    (hT : ∀ w w', T w w' → T' w w') : Keeps T' x := by
  intro w log h
  exact wpS_post (hx w log h) fun _ w' _ _ h' => ⟨h'.1, hT w w' h'.2⟩

end

/-- All is encrypted again, or nothing in the window has changed. -/
theorem reencryptAll_spec {w : MainWindow} {log : List WindowEvent} (h : Good w log) :
    Leads (fun done s' log' => Good s' log' ∧ Steady w s' ∧
      (done = true → s'.decrypted = [] ∧ Secured s')) reencryptAll w log := by
  rw [reencryptAll, leads_state]
  by_cases he : w.decrypted.isEmpty = true
  · rw [if_pos he, leads_modify, leads_pure]
    exact ⟨good_update h, steady_update w, fun _ => ⟨List.isEmpty_iff.mp he, secured_update w⟩⟩
  · rw [if_neg he, leads_bind]
    refine wpS_post (resealItems_spec w.decrypted (fun _ => id) h h.holding) fun done s' log' _ hs => ?_
    obtain ⟨rfl, hg, hh⟩ := hs
    cases done with
    | false =>
      show Leads _ (pure false) _ _
      rw [leads_pure]
      exact ⟨hg, steady_refl s', by simp⟩
    | true =>
      show Leads _ (modify _ >>= fun _ => pure true) _ _
      rw [leads_modify, leads_pure]
      refine ⟨⟨hh rfl, rfl, fun item hm => ?_, hg.lawful⟩, ⟨rfl, fun _ => rfl, fun _ => secured_update _⟩,
        fun _ => ⟨rfl, secured_update _⟩⟩
      cases hm

theorem keeps_reencryptAll : Keeps Steady reencryptAll := by
  intro w log h
  exact wpS_post (reencryptAll_spec h) fun _ _ _ _ h' => ⟨h'.1, h'.2.1⟩

theorem keeps_violated (n : Nat) : Keeps Steady (violated n) := by
  induction n with
  | zero => exact keeps_pure ()
  | succ n ih =>
    refine keeps_state fun _ => keeps_ite ?_ (keeps_pure ())
    exact keeps_bind keeps_reencryptAll fun _ => keeps_perform trivial fun _ => ih

theorem keeps_warn (warning : WindowWarning) : Keeps Steady (warn warning) :=
  keeps_perform trivial fun alarms => keeps_violated alarms

theorem keeps_encryptTargets (cipher : Cipher) (hash : HashAlg) (keyStorage : Bytes)
    (paths : List Bytes) : Keeps Steady (encryptTargets cipher hash keyStorage paths) := by
  induction paths with
  | nil => exact keeps_pure ()
  | cons path rest ih =>
    refine keeps_state fun w => keeps_perform trivial fun r => ?_
    cases r with
    | error message => exact keeps_bind (keeps_warn _) fun _ => ih
    | ok u => exact ih

theorem keeps_onEncrypt : Keeps Steady onEncrypt :=
  keeps_state fun _ => keeps_ite (keeps_pure ()) (keeps_encryptTargets _ _ _ _)

theorem keeps_onTerminate : Keeps Steady onTerminate := by
  refine keeps_bind keeps_reencryptAll fun done => ?_
  exact keeps_ite (keeps_pure ()) (keeps_warn _)

/-! ## Decrypting -/

theorem good_opened {w : MainWindow} {log : List WindowEvent} (h : Good w log)
    (username password path : Bytes) (result : DecryptResult) :
    Good (w.addDecrypted path result [])
      (log ++ [⟨.decryptFile username password path, .ok result⟩]) where
  holding :=
    { items := by
        intro o hw
        rcases owing_snoc hw with hr | ⟨hw, -⟩
        · cases hr
          exact ⟨.of path result [], by simp [addDecrypted], rfl⟩
        · obtain ⟨item, hm, rfl⟩ := h.holding.items o hw
          exact ⟨item, by simp [addDecrypted, hm], rfl⟩
      temps := by
        intro t hw
        rcases owing_snoc hw with hr | ⟨hw, -⟩
        · cases hr
        · obtain ⟨item, hm, rfl⟩ := h.holding.temps t hw
          exact ⟨item, by simp [addDecrypted, hm], rfl⟩ }
  shown := by simp [addDecrypted, h.shown, DecryptedItem.of]
  opened item hm := by
    rcases List.mem_append.mp hm with hm | hm
    · obtain ⟨e, he, hopen⟩ := h.opened item hm
      exact ⟨e, by simp [he], hopen⟩
    · cases List.mem_singleton.mp hm
      exact ⟨_, List.mem_concat_self, .mk username password path result⟩
  lawful := by
    refine lawful_snoc h.lawful fun p data he => ?_
    cases he

theorem good_written {w : MainWindow} {log : List WindowEvent} {path temp : Bytes} {result : DecryptResult}
    (h : Good (w.addDecrypted path result []) log) (data : Bytes) :
    Good (w.addDecrypted path result temp) (log ++ [⟨.writeTemp temp data, true⟩]) where
  holding :=
    { items := by
        intro o hw
        rcases owing_snoc hw with hr | ⟨hw, -⟩
        · cases hr
        · obtain ⟨item, hm, rfl⟩ := h.holding.items o hw
          rcases List.mem_append.mp hm with hm | hm
          · exact ⟨item, List.mem_append_left _ hm, rfl⟩
          · cases List.mem_singleton.mp hm
            exact ⟨.of path result temp, by simp [addDecrypted], rfl⟩
      temps := by
        intro t hw
        rcases owing_snoc hw with hr | ⟨hw, -⟩
        · cases hr
          exact ⟨.of path result temp, by simp [addDecrypted], rfl⟩
        · obtain ⟨item, hm, rfl⟩ := h.holding.temps t hw
          rcases List.mem_append.mp hm with hm | hm
          · exact ⟨item, List.mem_append_left _ hm, rfl⟩
          · cases List.mem_singleton.mp hm
            exact absurd rfl (owing_writes hw) }
  shown := by
    have := h.shown
    simpa [addDecrypted, DecryptedItem.of] using this
  opened item hm := by
    rcases List.mem_append.mp hm with hm | hm
    · obtain ⟨e, he, hopen⟩ := h.opened item (List.mem_append_left _ hm)
      exact ⟨e, by simp [he], hopen⟩
    · cases List.mem_singleton.mp hm
      obtain ⟨e, he, hopen⟩ := h.opened (.of path result []) (by simp [addDecrypted])
      exact ⟨e, by simp [he], hopen⟩
  lawful := by
    refine lawful_snoc h.lawful fun p data he => ?_
    cases he

theorem tempFor_spec {w : MainWindow} {log : List WindowEvent} {path : Bytes} {result : DecryptResult}
    (h : Good (w.addDecrypted path result []) log) (toTemp : Bool) (data : Bytes) :
    Leads (fun temp s' log' => s' = w ∧ Good (w.addDecrypted path result temp) log')
      (tempFor toTemp path data) w log := by
  unfold tempFor
  cases toTemp with
  | false =>
    show Leads _ (pure []) _ _
    rw [leads_pure]
    exact ⟨rfl, h⟩
  | true =>
    show Leads _ (perform _ >>= _) _ _
    rw [leads_perform]
    intro temp
    rw [leads_perform]
    intro written
    have h' : Good (w.addDecrypted path result []) (log ++ [⟨.makeTempPath path, temp⟩]) :=
      good_quiet (c := .makeTempPath path) h trivial temp
    rw [leads_pure]
    cases written with
    | true => exact ⟨rfl, good_written h' data⟩
    | false =>
      refine ⟨rfl, good_snoc h' (fun o ho => ?_) (fun t ht => ?_) fun p data he => ?_⟩
      · cases ho
      · cases ht
      · cases he

def SameClosing (w w' : MainWindow) : Prop := w'.closing = w.closing

theorem keeps_decryptTargets (paths : List Bytes) : Keeps SameClosing (decryptTargets paths) := by
  induction paths with
  | nil => exact keeps_mono (keeps_pure ()) fun _ _ h => h.closing
  | cons path rest ih =>
    intro w log h
    rw [decryptTargets, leads_state, leads_perform]
    intro r
    cases r with
    | error message =>
      have h' : Good w (log ++ [⟨.decryptFile w.username w.password path, .error message⟩]) := by
        refine good_snoc h (fun o ho => ?_) (fun t ht => ?_) fun p data he => ?_
        · cases ho
        · cases ht
        · cases he
      rw [leads_bind]
      refine wpS_post (keeps_warn _ w _ h') fun _ w₁ log₁ _ h₁ => ?_
      refine wpS_post (ih w₁ log₁ h₁.1) fun _ w₂ log₂ _ h₂ => ?_
      exact ⟨h₂.1, h₂.2.trans h₁.2.closing⟩
    | ok file =>
      have hg := good_opened h w.username w.password path file
      rw [leads_bind, keepDecrypted, leads_state, leads_bind]
      refine wpS_post (tempFor_spec hg w.decryptToTemp file.data) fun temp w₁ log₁ _ h₁ => ?_
      obtain ⟨rfl, h₁⟩ := h₁
      rw [leads_set]
      refine wpS_post (ih _ log₁ h₁) fun _ w₂ log₂ _ h₂ => ?_
      exact ⟨h₂.1, h₂.2⟩

theorem onDecrypt_spec {w : MainWindow} {log : List WindowEvent} (h : Good w log) (hs : Secured w) :
    Leads (fun _ s' log' => Good s' log' ∧ s'.closing = w.closing ∧ Secured s') onDecrypt w log := by
  rw [onDecrypt, leads_state]
  by_cases he : w.files.isEmpty = true
  · rw [if_pos he, leads_pure]
    exact ⟨h, rfl, hs⟩
  · rw [if_neg he, leads_bind]
    refine wpS_post (keeps_decryptTargets _ w log h) fun _ w₁ log₁ _ h₁ => ?_
    rw [leads_set]
    exact ⟨good_update h₁.1, h₁.2, secured_update w₁⟩

/-! ## Closing -/

theorem keeps_refuse (warning : WindowWarning) : Keeps Steady (refuse warning) :=
  keeps_bind (keeps_warn warning) fun _ => keeps_pure false

theorem keeps_saveCount (count : Nat) : Keeps Steady (saveCount count) := by
  refine keeps_perform trivial fun saved => ?_
  exact keeps_ite (keeps_pure true) (keeps_refuse .reminderUnsaved)

theorem keeps_changeAndSave (newPassword confirm : Bytes) :
    Keeps Steady (changeAndSave newPassword confirm) := by
  refine keeps_state fun w => keeps_ite (keeps_refuse _) (keeps_ite (keeps_refuse _)
    (keeps_ite (keeps_refuse _) (keeps_perform trivial fun changed => ?_)))
  cases changed with
  | error message => exact keeps_refuse _
  | ok u =>
    intro w log h
    rw [leads_modify]
    refine wpS_post (keeps_saveCount 0 _ log ⟨h.holding, h.shown, h.opened, h.lawful⟩) fun _ w' _ _ h' => ?_
    exact ⟨h'.1, h'.2.closing, h'.2.empty, fun hs => h'.2.secured ⟨hs.mode, hs.terminate⟩⟩

theorem keeps_endPrompt (skipped : Nat) (ending : PasswordEnding) :
    Keeps Steady (endPrompt skipped ending) := by
  cases ending with
  | skipped => exact keeps_ite (keeps_saveCount _) (keeps_pure false)
  | returned => exact keeps_pure false
  | accepted newPassword confirm => exact keeps_changeAndSave newPassword confirm

theorem keeps_promptPasswordChange : Keeps Steady promptPasswordChange := by
  refine keeps_perform trivial fun reminder => keeps_ite ?_ (keeps_refuse _)
  refine keeps_perform trivial fun answer => ?_
  exact keeps_bind (keeps_violated answer.2) fun _ => keeps_endPrompt _ answer.1

theorem sealBeforeClose_spec {w : MainWindow} {log : List WindowEvent} (h : Good w log) :
    Leads (fun done s' log' => Good s' log' ∧ Steady w s' ∧ (done = true → s'.decrypted = []))
      sealBeforeClose w log := by
  rw [sealBeforeClose, leads_state]
  by_cases he : w.decrypted.isEmpty = true
  · rw [if_pos he, leads_pure]
    exact ⟨h, steady_refl w, fun _ => List.isEmpty_iff.mp he⟩
  · rw [if_neg he]
    exact wpS_post (reencryptAll_spec h) fun _ _ _ _ h' => ⟨h'.1, h'.2.1, fun hd => (h'.2.2 hd).1⟩

theorem readyToClose_spec {w : MainWindow} {log : List WindowEvent} (h : Good w log) :
    Leads (fun ready s' log' => Good s' log' ∧ Steady w s' ∧ (ready = true → s'.decrypted = []))
      readyToClose w log := by
  rw [readyToClose, leads_bind]
  refine wpS_post (sealBeforeClose_spec h) fun done w₁ log₁ _ h₁ => ?_
  cases done with
  | false =>
    show Leads _ (pure false) _ _
    rw [leads_pure]
    exact ⟨h₁.1, h₁.2.1, by simp⟩
  | true =>
    refine wpS_post (keeps_promptPasswordChange w₁ log₁ h₁.1) fun ready w₂ log₂ _ h₂ => ?_
    exact ⟨h₂.1, steady_trans h₁.2.1 h₂.2, fun _ => h₂.2.empty (h₁.2.2 rfl)⟩

/-! ## Runs of the window -/

structure Resting (w : MainWindow) (log : List WindowEvent) : Prop where
  good : Good w log
  secured : Secured w
  opened : w.closing = false

structure Ended (closed : Bool) (w : MainWindow) (log : List WindowEvent) : Prop where
  good : Good w log
  secured : Secured w
  opened : closed = false → w.closing = false
  empty : closed = true → w.decrypted = []

theorem closeEvent_spec {w : MainWindow} {log : List WindowEvent} (h : Resting w log) :
    Leads Ended closeEvent w log := by
  obtain ⟨hg, hs, ho⟩ := h
  rw [closeEvent, leads_state]
  have hopen : ¬ w.closing = true := by simp [ho]
  rw [if_neg hopen, leads_modify, leads_bind]
  refine wpS_post (readyToClose_spec (w := { w with closing := true }) ⟨hg.holding, hg.shown, hg.opened,
    hg.lawful⟩) fun ready w₁ log₁ _ h₁ => ?_
  have hs₁ : Secured w₁ := h₁.2.1.secured ⟨hs.mode, hs.terminate⟩
  cases ready with
  | true =>
    show Leads _ (pure true) _ _
    rw [leads_pure]
    exact ⟨h₁.1, hs₁, by simp, fun _ => h₁.2.2 rfl⟩
  | false =>
    show Leads _ (modify _ >>= fun _ => pure false) _ _
    rw [leads_modify, leads_pure]
    exact ⟨⟨h₁.1.holding, h₁.1.shown, h₁.1.opened, h₁.1.lawful⟩, ⟨hs₁.mode, hs₁.terminate⟩, fun _ => rfl,
      by simp⟩

theorem ended_steady {w w' : MainWindow} {log log' : List WindowEvent} (h : Resting w log)
    (hg : Good w' log') (hs : Steady w w') : Ended false w' log' :=
  ⟨hg, hs.secured h.secured, fun _ => hs.closing.trans h.opened, by simp⟩

theorem pressed_spec {w : MainWindow} {log : List WindowEvent} {x : WindowHandler Unit}
    (enabled : MainWindow → Bool) (h : Resting w log)
    (hx : Leads (fun _ s' log' => Ended false s' log') x w log) : Leads Ended (pressed enabled x) w log := by
  rw [pressed, leads_state]
  by_cases he : enabled w = true
  · rw [if_pos he, leads_bind]
    refine wpS_post hx fun _ w' log' _ h' => ?_
    rw [leads_pure]
    exact h'
  · rw [if_neg he, leads_pure]
    exact ended_steady h h.good (steady_refl w)

theorem pressed_steady {w : MainWindow} {log : List WindowEvent} {x : WindowHandler Unit}
    (enabled : MainWindow → Bool) (h : Resting w log) (hx : Keeps Steady x) :
    Leads Ended (pressed enabled x) w log :=
  pressed_spec enabled h (wpS_post (hx w log h.good) fun _ _ _ _ h' => ended_steady h h'.1 h'.2)

theorem set_spec {w : MainWindow} {log : List WindowEvent} (f : MainWindow → MainWindow) (h : Resting w log)
    (hg : Good (f w) log) (hs : Steady w (f w)) :
    Leads Ended (modify f >>= fun _ => pure false) w log := by
  rw [leads_modify, leads_pure]
  exact ended_steady h hg hs

theorem handle_spec {w : MainWindow} {log : List WindowEvent} (h : Resting w log) (action : WindowAction) :
    Leads Ended (handle action) w log := by
  have hg := h.good
  cases action with
  | selectFiles files =>
    apply set_spec _ h
    · unfold onSelectFiles
      split_ifs
      · exact hg
      · exact ⟨hg.holding, hg.shown, hg.opened, hg.lawful⟩
    · unfold onSelectFiles
      split_ifs
      · exact steady_refl w
      · exact ⟨rfl, id, fun hs => ⟨hs.mode, hs.terminate⟩⟩
  | markRows rows =>
    exact set_spec _ h ⟨hg.holding, hg.shown, hg.opened, hg.lawful⟩
      ⟨rfl, id, fun hs => ⟨hs.mode, hs.terminate⟩⟩
  | choose cipher hash keyOnServer decryptToTemp =>
    exact set_spec _ h ⟨hg.holding, hg.shown, hg.opened, hg.lawful⟩
      ⟨rfl, id, fun hs => ⟨hs.mode, hs.terminate⟩⟩
  | encrypt => exact pressed_steady _ h keeps_onEncrypt
  | decrypt =>
    refine pressed_spec _ h (wpS_post (onDecrypt_spec hg h.secured) fun _ w' log' _ h' => ?_)
    exact ⟨h'.1, h'.2.2, fun _ => h'.2.1.trans h.opened, by simp⟩
  | terminate => exact pressed_steady _ h keeps_onTerminate
  | alarm more =>
    rw [handle, leads_bind]
    refine wpS_post (keeps_violated (more + 1) w log hg) fun _ w' log' _ h' => ?_
    rw [leads_pure]
    exact ended_steady h h'.1 h'.2
  | close => exact closeEvent_spec h

theorem handleAll_spec (actions : List WindowAction) :
    ∀ {w : MainWindow} {log : List WindowEvent}, Resting w log → Leads Ended (handleAll actions) w log := by
  induction actions with
  | nil =>
    intro w log h
    rw [handleAll, leads_pure]
    exact ended_steady h h.good (steady_refl w)
  | cons action rest ih =>
    intro w log h
    rw [handleAll, leads_bind]
    refine wpS_post (handle_spec h action) fun closed w₁ log₁ _ h₁ => ?_
    cases closed with
    | true =>
      show Leads _ (pure true) _ _
      rw [leads_pure]
      exact h₁
    | false => exact ih ⟨h₁.good, h₁.secured, h₁.opened rfl⟩

def start (username password : Bytes) (permissions : Nat) (keyOnServer decryptToTemp : Bool) :
    MainWindow where
  username := username
  password := password
  permissions := permissions
  keyOnServer := keyOnServer
  decryptToTemp := decryptToTemp

theorem resting_start (username password : Bytes) (permissions : Nat) (keyOnServer decryptToTemp : Bool) :
    Resting (start username password permissions keyOnServer decryptToTemp) [] where
  good :=
    { holding := ⟨fun o h => absurd h (owing_nil o), fun t h => absurd h (owing_nil t)⟩
      shown := rfl
      opened := fun item hm => by cases hm
      lawful := lawful_nil }
  secured := ⟨rfl, rfl⟩
  opened := rfl

/-- **Nothing decrypted is dropped.** However the window is used and whatever each call answers, between
two actions every file that it has decrypted either has since been encrypted again, from the same bytes
to the same place with the cipher, the hash and the key storage that it had, or is still held and shown;
for every temporary file that it has written the removal has since been asked for, or it belongs to a
file still held. The clipboard is guarded, and the files can be cleared, exactly while one is held; what is encrypted again
was decrypted before; and a window that closes holds none. -/
theorem decrypted_kept (username password : Bytes) (permissions : Nat) (keyOnServer decryptToTemp : Bool)
    (actions : List WindowAction) (closed : Bool) (w : MainWindow) (log : List WindowEvent)
    (h : Runs (Program.recording WindowEvent.mk)
      ((handleAll actions).go (start username password permissions keyOnServer decryptToTemp)) []
      (.ok closed, w) log) :
    (∀ o, Owing Opens Seals log o → ∃ item ∈ w.decrypted, item.bare = o) ∧
    (∀ t, Owing Writes Removes log t → ∃ item ∈ w.decrypted, item.tempPath = t) ∧
    w.decrypted.map (fun item => item.filePath) = w.shown ∧
    (w.secureMode = true ↔ w.decrypted ≠ []) ∧ (w.terminateEnabled = true ↔ w.decrypted ≠ []) ∧
    Lawful Justified log ∧ (closed = true → w.decrypted = []) := by
  have hall := handleAll_spec actions
    (resting_start username password permissions keyOnServer decryptToTemp)
  have hrun := runs_of_wp hall h
  have hend : Ended closed w log := hrun
  refine ⟨hend.good.holding.items, hend.good.holding.temps, hend.good.shown, ?_, ?_, hend.good.lawful,
    hend.empty⟩
  · simp [hend.secured.mode]
  · simp [hend.secured.terminate]

/-! A file is decrypted and left behind when the window is closed. -/

def openedNote : DecryptResult where
  data := [1, 2, 3]
  originalName := []
  cipher := .magma
  hash := .sha256
  keyStorage := []
  fileId := []

/-- Everything works; the change of the password is put off. -/
def willingReply : (c : WindowCall) → c.Reply
  | .encryptFile _ | .encryptData .. | .changePassword .. => .ok ()
  | .decryptFile .. => .ok openedNote
  | .makeTempPath path => path ++ [1]
  | .writeTemp .. | .saveReminder _ | .removeTemp _ => true
  | .warn _ => 0
  | .readReminder => (some 2, true)
  | .askPassword _ => (.skipped, 0)

def willing (log : List WindowEvent) (c : WindowCall) : c.Reply × List WindowEvent :=
  (willingReply c, log ++ [⟨c, willingReply c⟩])

def oneFile : List WindowAction := [.selectFiles [[7]], .decrypt, .close]

def oneFileRun : (Except Empty Bool × MainWindow) × List WindowEvent :=
  exec willing ((handleAll oneFile).go (start [1] [2] 3 true true)) []

theorem decrypted_kept_closed : oneFileRun.1.2.decrypted = [] ∧
    ∀ o, ¬ Owing Opens Seals oneFileRun.2 o := by
  have hrun : Runs (Program.recording WindowEvent.mk) ((handleAll oneFile).go (start [1] [2] 3 true true)) []
      oneFileRun.1 oneFileRun.2 := runs_exec (fun _ _ => rfl) _ _
  have hclosed : oneFileRun.1 = (.ok true, oneFileRun.1.2) := rfl
  rw [hclosed] at hrun
  obtain ⟨hheld, -, -, -, -, -, hempty⟩ :=
    decrypted_kept [1] [2] 3 true true oneFile true oneFileRun.1.2 oneFileRun.2 hrun
  refine ⟨hempty rfl, fun o ho => ?_⟩
  obtain ⟨item, hm, -⟩ := hheld o ho
  simp [hempty rfl] at hm

end MainWindow
end EncoderNext
