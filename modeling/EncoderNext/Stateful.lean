import EncoderNext.Program

/-!
# Programs with a state of their own and an early end

A handler that keeps a state, calls its surroundings and may end early is a
program under two transformers. `wpS` has a postcondition for each way to end.
-/

namespace Program

section
variable {C : Type} {R : C → Type} {S ε W α β : Type}

abbrev Stateful (C : Type) (R : C → Type) (S ε : Type) := ExceptT ε (StateT S (Program C R))

namespace Stateful

def go (x : Stateful C R S ε α) (s : S) : Program C R (Except ε α × S) := x.run.run s

def lift (p : Program C R α) : Stateful C R S ε α :=
  ExceptT.mk fun s => p >>= fun a => pure (.ok a, s)

def perform (c : C) : Stateful C R S ε (R c) := lift (ask c)

def step (f : S → Program C R (α × S)) : Stateful C R S ε α :=
  ExceptT.mk fun s => f s >>= fun r => pure (.ok r.1, r.2)

def state : Stateful C R S ε S := step fun s => pure (s, s)

def guardOr (b : Bool) (e : ε) (otherwise : Stateful C R S ε Unit) : Stateful C R S ε Unit :=
  if b then pure () else do otherwise; throw e

end Stateful

open Stateful

variable {env : Env W C R} {Q : α → S → W → Prop} {E : ε → S → W → Prop} {K : W → Prop} {s : S} {w : W}

/-- `Q` at a normal end, `E` at an early one and `K` after every call. -/
def wpS (env : Env W C R) (Q : α → S → W → Prop) (E : ε → S → W → Prop) (K : W → Prop)
    (x : Stateful C R S ε α) (s : S) (w : W) : Prop :=
  wp env (fun r w' => match r.1 with
    | .ok a => Q a r.2 w'
    | .error e => E e r.2 w') K (x.go s) w

theorem go_bind (x : Stateful C R S ε α) (f : α → Stateful C R S ε β) (s : S) :
    (x >>= f).go s = x.go s >>= fun r =>
      match r.1 with
      | .ok a => (f a).go r.2
      | .error e => pure (.error e, r.2) := by
  show (x.run.run s >>= fun r => ExceptT.bindCont f r.1 r.2) = _
  congr 1
  funext r
  obtain ⟨r, s'⟩ := r
  cases r <;> rfl

theorem wpS_pure (a : α) :
    wpS env Q E K (pure a : Stateful C R S ε α) s w ↔ K w ∧ Q a s w := Iff.rfl

theorem wpS_bind {Q : β → S → W → Prop} (x : Stateful C R S ε α) (f : α → Stateful C R S ε β) :
    wpS env Q E K (x >>= f) s w ↔ wpS env (fun a s' w' => wpS env Q E K (f a) s' w') E K x s w := by
  unfold wpS
  rw [go_bind, wp_bind]
  constructor
  · intro h
    refine wp_post h fun r w' _ hr => ?_
    obtain ⟨r, s'⟩ := r
    cases r with
    | ok a => exact hr
    | error e => exact hr.2
  · intro h
    refine wp_post h fun r w' hk hr => ?_
    obtain ⟨r, s'⟩ := r
    cases r with
    | ok a => exact hr
    | error e => exact ⟨hk, hr⟩

theorem wpS_lift (p : Program C R α) :
    wpS env Q E K (lift p : Stateful C R S ε α) s w ↔ wp env (fun a w' => Q a s w') K p w := by
  show wp env _ K (p >>= fun a => pure (Except.ok a, s)) w ↔ _
  rw [wp_bind]
  exact ⟨fun h => wp_post h fun _ _ _ hq => hq.2, fun h => wp_post h fun _ _ hk hq => ⟨hk, hq⟩⟩

theorem wpS_perform {c : C} {Q : R c → S → W → Prop} :
    wpS env Q E K (perform c : Stateful C R S ε (R c)) s w ↔
      K w ∧ ∀ r w', env w c r w' → K w' ∧ Q r s w' :=
  (wpS_lift (ask c)).trans (wp_ask w)

theorem wpS_perform_bind {Q : β → S → W → Prop} (c : C) (f : R c → Stateful C R S ε β) :
    wpS env Q E K (perform c >>= f) s w ↔
      K w ∧ ∀ r w', env w c r w' → wpS env Q E K (f r) s w' := by
  rw [wpS_bind, wpS_perform]
  refine and_congr_right fun _ => forall_congr' fun r => forall_congr' fun w' => ?_
  exact ⟨fun h he => (h he).2, fun h he => ⟨wp_here (h he), h he⟩⟩

theorem wpS_step (f : S → Program C R (α × S)) :
    wpS env Q E K (step f : Stateful C R S ε α) s w ↔
      wp env (fun r w' => Q r.1 r.2 w') K (f s) w := by
  show wp env _ K (f s >>= fun r => pure (Except.ok r.1, r.2)) w ↔ _
  rw [wp_bind]
  exact ⟨fun h => wp_post h fun _ _ _ hq => hq.2, fun h => wp_post h fun _ _ hk hq => ⟨hk, hq⟩⟩

theorem wpS_state_bind {Q : β → S → W → Prop} (f : S → Stateful C R S ε β) :
    wpS env Q E K (state >>= f) s w ↔ wpS env Q E K (f s) s w := by
  rw [wpS_bind]
  exact ⟨fun h => h.2, fun h => ⟨wp_here h, h⟩⟩

theorem wpS_mono {Q' : α → S → W → Prop} {E' : ε → S → W → Prop} {K' : W → Prop}
    {x : Stateful C R S ε α} (h : wpS env Q E K x s w) (hQ : ∀ a s w, K w → Q a s w → Q' a s w)
    (hE : ∀ e s w, K w → E e s w → E' e s w) (hK : ∀ w, K w → K' w) : wpS env Q' E' K' x s w := by
  refine wp_mono (fun r w' hk hr => ?_) hK h
  obtain ⟨r, s'⟩ := r
  cases r with
  | ok a => exact hQ a s' w' hk hr
  | error e => exact hE e s' w' hk hr

theorem wpS_post {Q' : α → S → W → Prop} {x : Stateful C R S ε α} (h : wpS env Q E K x s w)
    (hQ : ∀ a s w, K w → Q a s w → Q' a s w) : wpS env Q' E K x s w :=
  wpS_mono h hQ (fun _ _ _ _ => id) fun _ => id

theorem wpS_and {Q' : α → S → W → Prop} {E' : ε → S → W → Prop} {K' : W → Prop}
    {x : Stateful C R S ε α} (h : wpS env Q E K x s w) (h' : wpS env Q' E' K' x s w) :
    wpS env (fun a s w => Q a s w ∧ Q' a s w) (fun e s w => E e s w ∧ E' e s w) (fun w => K w ∧ K' w)
      x s w := by
  refine wp_post (wp_and h h') fun r w' _ hr => ?_
  obtain ⟨r, s'⟩ := r
  cases r <;> exact hr

/-- The handler starts in the state where the program ended early. -/
theorem wpS_tryCatch {E' : ε → S → W → Prop} {x : Stateful C R S ε α} {f : ε → Stateful C R S ε α}
    (h : wpS env Q E' K x s w) (hf : ∀ e s' w', K w' → E' e s' w' → wpS env Q E K (f e) s' w') :
    wpS env Q E K (tryCatch x f) s w := by
  show wp env _ K (x.run.run s >>= fun r => _) w
  rw [wp_bind]
  refine wp_post h fun r w' hk hr => ?_
  obtain ⟨r, s'⟩ := r
  cases r with
  | ok a => exact ⟨hk, hr⟩
  | error e => exact hf e s' w' hk hr

theorem wpS_guardOr_last {Q : Unit → S → W → Prop} (b : Bool) (e : ε)
    (otherwise : Stateful C R S ε Unit)
    (hfail : b = false → wpS env (fun _ s w => E e s w) E K otherwise s w)
    (hgo : b = true → K w ∧ Q () s w) : wpS env Q E K (guardOr b e otherwise) s w := by
  cases b with
  | true => exact hgo rfl
  | false =>
    show wpS env Q E K (otherwise >>= fun _ => throw e) s w
    rw [wpS_bind]
    exact wpS_post (hfail rfl) fun _ s' w' hk he => ⟨hk, he⟩

theorem wpS_guardOr {Q : β → S → W → Prop} (b : Bool) (e : ε) (otherwise : Stateful C R S ε Unit)
    (f : Unit → Stateful C R S ε β) (hfail : b = false → wpS env (fun _ s w => E e s w) E K otherwise s w)
    (hgo : b = true → wpS env Q E K (f ()) s w) : wpS env Q E K (guardOr b e otherwise >>= f) s w := by
  rw [wpS_bind]
  exact wpS_guardOr_last b e otherwise hfail fun hb => ⟨wp_here (hgo hb), hgo hb⟩

/-! ## The calls of a stateful program -/

def UsesS (P : C → Prop) (x : Stateful C R S ε α) : Prop := ∀ s, Uses P (x.go s)

variable {P : C → Prop}

theorem usesS_bind {x : Stateful C R S ε α} {f : α → Stateful C R S ε β} (hx : UsesS P x)
    (hf : ∀ a, UsesS P (f a)) : UsesS P (x >>= f) := by
  intro s
  show Uses P (x.run.run s >>= fun r => ExceptT.bindCont f r.1 r.2)
  refine uses_bind (hx s) fun r => ?_
  obtain ⟨r, s'⟩ := r
  cases r with
  | ok a => exact hf a s'
  | error e => exact trivial

theorem usesS_mono {P' : C → Prop} (hP : ∀ c, P c → P' c) {x : Stateful C R S ε α} (h : UsesS P x) :
    UsesS P' x := fun s => uses_mono hP (h s)

theorem usesS_pure (a : α) : UsesS P (pure a : Stateful C R S ε α) := fun _ => trivial

theorem usesS_throw (e : ε) : UsesS P (throw e : Stateful C R S ε α) := fun _ => trivial

theorem usesS_lift {p : Program C R α} (hp : Uses P p) : UsesS P (lift p : Stateful C R S ε α) :=
  fun _ => uses_bind hp fun _ => trivial

theorem usesS_perform {c : C} (hc : P c) : UsesS P (perform c : Stateful C R S ε (R c)) :=
  usesS_lift ⟨hc, fun _ => trivial⟩

theorem usesS_perform_bind [Nonempty S] {c : C} {f : R c → Stateful C R S ε α} :
    UsesS P (perform c >>= f) ↔ P c ∧ ∀ r, UsesS P (f r) := by
  constructor
  · intro h
    obtain ⟨s⟩ := ‹Nonempty S›
    exact ⟨(h s).1, fun r s => (h s).2 r⟩
  · exact fun h s => ⟨h.1, fun r => h.2 r s⟩

theorem usesS_step {f : S → Program C R (α × S)} (hf : ∀ s, Uses P (f s)) :
    UsesS P (step f : Stateful C R S ε α) := fun s => uses_bind (hf s) fun _ => trivial

theorem usesS_state : UsesS P (state : Stateful C R S ε S) := fun _ => trivial

theorem usesS_guardOr {b : Bool} {e : ε} {otherwise : Stateful C R S ε Unit}
    (h : UsesS P otherwise) : UsesS P (guardOr b e otherwise) := by
  cases b with
  | true => exact usesS_pure ()
  | false => exact usesS_bind h fun _ => usesS_throw e

theorem usesS_catch {x : Stateful C R S ε α} {f : ε → Stateful C R S ε α} (hx : UsesS P x)
    (hf : ∀ e, UsesS P (f e)) : UsesS P (tryCatch x f) := by
  intro s
  show Uses P (x.run.run s >>= fun r => _)
  refine uses_bind (hx s) fun r => ?_
  obtain ⟨r, s'⟩ := r
  cases r with
  | ok a => exact trivial
  | error e => exact hf e s'

theorem wpS_of_uses {x : Stateful C R S ε α} (hs : ∀ w c r w', P c → K w → env w c r w' → K w')
    (hx : UsesS P x) (h : K w) : wpS env (fun _ _ => K) (fun _ _ => K) K x s w := by
  refine wp_post (wp_of_uses hs (hx s) h) fun r w' hk _ => ?_
  obtain ⟨r, s'⟩ := r
  cases r <;> exact hk

/-! ## What a stateful program may come to -/

/-- Some answers bring it to this value and this state. -/
def Reaches (x : Stateful C R S ε α) (s : S) (a : α) (s' : S) : Prop :=
  Runs anything (x.go s) () (.ok a, s') ()

section
variable {a : α} {b : β} {s' : S}

theorem reaches_spec {E : ε → S → Unit → Prop} {Q : α → S → Unit → Prop} {K : Unit → Prop}
    {x : Stateful C R S ε α} (h : wpS anything Q E K x s ()) (hr : Reaches x s a s') : Q a s' () := by
  have hq := runs_of_wp (show wp anything _ K (x.go s) () from h) hr
  exact hq

theorem reaches_pure : Reaches (pure b : Stateful C R S ε β) s b s := .done _ _

theorem reaches_bind {x : Stateful C R S ε α} {f : α → Stateful C R S ε β} :
    Reaches (x >>= f) s b s' ↔ ∃ a s₁, Reaches x s a s₁ ∧ Reaches (f a) s₁ b s' := by
  unfold Reaches
  rw [go_bind, runs_bind_iff]
  constructor
  · rintro ⟨⟨r, s₁⟩, ⟨⟩, hx, hf⟩
    cases r with
    | ok a => exact ⟨a, s₁, hx, hf⟩
    | error e => cases hf
  · exact fun ⟨a, s₁, hx, hf⟩ => ⟨(.ok a, s₁), (), hx, hf⟩

theorem reaches_lift {p : Program C R α} (h : Runs anything p () a ()) :
    Reaches (lift p : Stateful C R S ε α) s a s := runs_bind h (.done _ _)

theorem reaches_perform (c : C) (r : R c) : Reaches (perform c : Stateful C R S ε (R c)) s r s :=
  reaches_lift (anything_call r (.done r ()))

theorem reaches_step {f : S → Program C R (α × S)} (h : Runs anything (f s) () (a, s') ()) :
    Reaches (step f : Stateful C R S ε α) s a s' := runs_bind h (.done _ _)

theorem reaches_state : Reaches (state : Stateful C R S ε S) s s s := .done _ _

theorem reaches_guardOr {b : Bool} {e : ε} {otherwise : Stateful C R S ε Unit} :
    Reaches (guardOr b e otherwise) s () s' ↔ b = true ∧ s = s' := by
  cases b with
  | true =>
    constructor
    · rintro ⟨⟩
      exact ⟨rfl, rfl⟩
    · rintro ⟨-, rfl⟩
      exact reaches_pure
  | false =>
    refine ⟨fun h => ?_, nofun⟩
    obtain ⟨_, _, _, hthrow⟩ := reaches_bind.mp h
    cases hthrow

theorem usesAt_bind {x : Stateful C R S ε α} {f : α → Stateful C R S ε β} :
    Uses P ((x >>= f).go s) ↔ Uses P (x.go s) ∧ ∀ a s', Reaches x s a s' → Uses P ((f a).go s') := by
  rw [go_bind, uses_bind_iff]
  refine and_congr_right fun _ => ⟨fun h a s' hr => h _ hr, fun h r hr => ?_⟩
  obtain ⟨r, s'⟩ := r
  cases r with
  | ok a => exact h a s' hr
  | error e => exact trivial

end

/-! ## How the state moves -/

section
variable {T : S → S → Prop}

/-- Wherever it ends, the state has moved along `T`. -/
def Moves (T : S → S → Prop) (x : Stateful C R S ε α) : Prop :=
  ∀ {W : Type} (env : Env W C R) s w,
    wpS env (fun _ s' _ => T s s') (fun _ s' _ => T s s') (fun _ => True) x s w

variable (hrefl : ∀ s, T s s)
include hrefl

theorem moves_pure (a : α) : Moves T (pure a : Stateful C R S ε α) := fun _ s _ => ⟨trivial, hrefl s⟩

theorem moves_throw (e : ε) : Moves T (throw e : Stateful C R S ε α) := fun _ s _ => ⟨trivial, hrefl s⟩

theorem moves_lift (p : Program C R α) : Moves T (lift p : Stateful C R S ε α) := by
  intro W env s w
  rw [wpS_lift]
  exact wp_post (wp_true p w) fun _ _ _ _ => hrefl s

theorem moves_perform (c : C) : Moves T (perform c : Stateful C R S ε (R c)) := moves_lift hrefl (ask c)

theorem moves_state : Moves T (state : Stateful C R S ε S) := fun _ s _ => ⟨trivial, hrefl s⟩

omit hrefl in
theorem moves_bind (htrans : ∀ s₁ s₂ s₃, T s₁ s₂ → T s₂ s₃ → T s₁ s₃) {x : Stateful C R S ε α}
    {f : α → Stateful C R S ε β} (hx : Moves T x) (hf : ∀ a, Moves T (f a)) : Moves T (x >>= f) := by
  intro W env s w
  rw [wpS_bind]
  refine wpS_post (hx env s w) fun a s₁ w₁ _ h₁ => ?_
  exact wpS_mono (hf a env s₁ w₁) (fun _ s₂ _ _ h₂ => htrans s s₁ s₂ h₁ h₂)
    (fun _ s₂ _ _ h₂ => htrans s s₁ s₂ h₁ h₂) fun _ => id

theorem moves_guardOr (htrans : ∀ s₁ s₂ s₃, T s₁ s₂ → T s₂ s₃ → T s₁ s₃) {b : Bool} {e : ε}
    {otherwise : Stateful C R S ε Unit} (h : Moves T otherwise) : Moves T (guardOr b e otherwise) := by
  cases b with
  | true => exact moves_pure hrefl ()
  | false => exact moves_bind htrans h fun _ => moves_throw hrefl e

end

end

end Program
