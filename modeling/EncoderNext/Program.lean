import Mathlib.Logic.Relation

/-!
# Programs that call their surroundings

A program over an interface `C` of calls, each with its type of replies, is a
finite tree: it is done with a value, or makes a call and goes on with the
reply. An environment says what a call may do to the world and which replies it
may give. A run follows the tree to the end; a cut of a run stops after any
call, which is what the death of a process leaves behind.

`wp` is the weakest precondition of a program for a postcondition `Q` on its
result and a crash condition `K` that every cut must meet.
-/

inductive Program (C : Type) (R : C → Type) (α : Type) : Type where
  | done : α → Program C R α
  | call : (c : C) → (R c → Program C R α) → Program C R α

namespace Program

section
variable {C : Type} {R : C → Type} {α β γ : Type}

def bind : Program C R α → (α → Program C R β) → Program C R β
  | done a, f => f a
  | call c k, f => call c fun r => bind (k r) f

def ask (c : C) : Program C R (R c) := call c done

instance : Monad (Program C R) where
  pure := done
  bind := bind

protected theorem bind_done : ∀ p : Program C R α, p.bind done = p
  | done _ => rfl
  | call c k => by
    rw [bind]
    exact congrArg (call c) (funext fun r => Program.bind_done (k r))

protected theorem bind_assoc (f : α → Program C R β) (g : β → Program C R γ) :
    ∀ p : Program C R α, (p.bind f).bind g = p.bind fun a => (f a).bind g
  | done _ => rfl
  | call c k => by
    simp only [bind]
    exact congrArg (call c) (funext fun r => Program.bind_assoc f g (k r))

instance : LawfulMonad (Program C R) :=
  LawfulMonad.mk' _ Program.bind_done (fun _ _ => rfl) fun p f g => Program.bind_assoc f g p

end

section
variable {W C : Type} {R : C → Type} {α β : Type}

/-- Which replies a call may give in a world, and the world it leaves. -/
abbrev Env (W C : Type) (R : C → Type) : Type := W → (c : C) → R c → W → Prop

inductive Runs (env : Env W C R) : Program C R α → W → α → W → Prop where
  | done (a : α) (w : W) : Runs env (.done a) w a w
  | call {c : C} {k : R c → Program C R α} {w w₁ w₂ : W} {r : R c} {a : α} :
      env w c r w₁ → Runs env (k r) w₁ a w₂ → Runs env (.call c k) w a w₂

/-- A run cut short: the world after any number of its calls. -/
inductive Visits (env : Env W C R) : Program C R α → W → W → Prop where
  | here (p : Program C R α) (w : W) : Visits env p w w
  | call {c : C} {k : R c → Program C R α} {w w₁ w₂ : W} {r : R c} :
      env w c r w₁ → Visits env (k r) w₁ w₂ → Visits env (.call c k) w w₂

def wp (env : Env W C R) (Q : α → W → Prop) (K : W → Prop) : Program C R α → W → Prop
  | done a, w => K w ∧ Q a w
  | call c k, w => K w ∧ ∀ r w', env w c r w' → wp env Q K (k r) w'

variable {env : Env W C R} {Q : α → W → Prop} {K : W → Prop}

theorem wp_pure (a : α) (w : W) : wp env Q K (pure a) w ↔ K w ∧ Q a w := Iff.rfl

theorem wp_ask {c : C} {Q : R c → W → Prop} (w : W) :
    wp env Q K (ask c) w ↔ K w ∧ ∀ r w', env w c r w' → K w' ∧ Q r w' := Iff.rfl

theorem wp_ask_bind {Q : β → W → Prop} (c : C) (f : R c → Program C R β) (w : W) :
    wp env Q K (ask c >>= f) w ↔ K w ∧ ∀ r w', env w c r w' → wp env Q K (f r) w' := Iff.rfl

theorem wp_here {p : Program C R α} {w : W} (h : wp env Q K p w) : K w := by
  cases p with
  | done a => exact h.1
  | call c k => exact h.1

theorem wp_bind {Q : β → W → Prop} (f : α → Program C R β) :
    ∀ (p : Program C R α) (w : W),
      wp env Q K (p >>= f) w ↔ wp env (fun a w' => wp env Q K (f a) w') K p w
  | done a, w => ⟨fun h => ⟨wp_here h, h⟩, fun h => h.2⟩
  | call _ k, w => by
    refine and_congr_right fun _ => ?_
    exact forall_congr' fun r => forall_congr' fun w' => imp_congr_right fun _ => wp_bind f (k r) w'

theorem wp_mono {Q' : α → W → Prop} {K' : W → Prop} (hQ : ∀ a w, K w → Q a w → Q' a w)
    (hK : ∀ w, K w → K' w) : ∀ {p : Program C R α} {w : W}, wp env Q K p w → wp env Q' K' p w
  | done a, w, h => ⟨hK w h.1, hQ a w h.1 h.2⟩
  | call _ _, w, h => ⟨hK w h.1, fun r w' hr => wp_mono hQ hK (h.2 r w' hr)⟩

theorem wp_post {Q' : α → W → Prop} {p : Program C R α} {w : W} (h : wp env Q K p w)
    (hQ : ∀ a w, K w → Q a w → Q' a w) : wp env Q' K p w :=
  wp_mono hQ (fun _ => id) h

theorem wp_true : ∀ (p : Program C R α) (w : W), wp env (fun _ _ => True) (fun _ => True) p w
  | done _, _ => ⟨trivial, trivial⟩
  | call _ k, _ => ⟨trivial, fun r w' _ => wp_true (k r) w'⟩

theorem wp_env {env' : Env W C R} (he : ∀ w c r w', env' w c r w' → env w c r w') :
    ∀ {p : Program C R α} {w : W}, wp env Q K p w → wp env' Q K p w
  | done _, _, h => h
  | call _ _, _, h => ⟨h.1, fun r w' hr => wp_env he (h.2 r w' (he _ _ _ _ hr))⟩

theorem wp_map {Q : β → W → Prop} (f : α → β) (p : Program C R α) (w : W) :
    wp env Q K (f <$> p) w ↔ wp env (fun a w' => Q (f a) w') K p w := by
  rw [map_eq_pure_bind, wp_bind]
  exact ⟨fun h => wp_post h fun _ _ _ hq => hq.2, fun h => wp_post h fun _ _ hk hq => ⟨hk, hq⟩⟩

theorem runs_of_wp {p : Program C R α} {w w' : W} {a : α} (h : wp env Q K p w)
    (hr : Runs env p w a w') : Q a w' := by
  induction hr with
  | done a w => exact h.2
  | call he _ ih => exact ih (h.2 _ _ he)

theorem visits_of_wp {p : Program C R α} {w w' : W} (h : wp env Q K p w)
    (hv : Visits env p w w') : K w' := by
  induction hv with
  | here p w => exact wp_here h
  | call he _ ih => exact ih (h.2 _ _ he)

theorem wp_crash_of_runs {p : Program C R α} {w w' : W} {a : α} (h : wp env Q K p w)
    (hr : Runs env p w a w') : K w' := by
  induction hr with
  | done a w => exact h.1
  | call he _ ih => exact ih (h.2 _ _ he)

theorem visits_of_runs {p : Program C R α} {w w' : W} {a : α} (h : Runs env p w a w') :
    Visits env p w w' := by
  induction h with
  | done a w => exact .here _ w
  | call he _ ih => exact .call he ih

theorem runs_env {env' : Env W C R} (he : ∀ w c r w', env w c r w' → env' w c r w')
    {p : Program C R α} {w w' : W} {a : α} (hr : Runs env p w a w') : Runs env' p w a w' := by
  induction hr with
  | done a w => exact .done a w
  | call h _ ih => exact .call (he _ _ _ _ h) ih

theorem runs_bind {f : α → Program C R β} {p : Program C R α} {w w₁ w₂ : W} {a : α} {b : β}
    (hp : Runs env p w a w₁) (hf : Runs env (f a) w₁ b w₂) : Runs env (p >>= f) w b w₂ := by
  induction hp with
  | done a w => exact hf
  | call he _ ih => exact .call he (ih hf)

theorem runs_bind_iff {f : α → Program C R β} {p : Program C R α} {w w₂ : W} {b : β} :
    Runs env (p >>= f) w b w₂ ↔ ∃ a w₁, Runs env p w a w₁ ∧ Runs env (f a) w₁ b w₂ := by
  refine ⟨fun h => ?_, fun ⟨a, w₁, hp, hf⟩ => runs_bind hp hf⟩
  induction p generalizing w with
  | done a => exact ⟨a, w, .done a w, h⟩
  | call c k ih =>
    cases h with
    | call he hr =>
      obtain ⟨a, w₁, hp, hf⟩ := ih _ hr
      exact ⟨a, w₁, .call he hp, hf⟩

theorem wp_runs : ∀ (p : Program C R α) (w : W),
    wp env (fun a w' => Runs env p w a w') (fun _ => True) p w
  | done a, w => ⟨trivial, .done a w⟩
  | call _ k, _ => by
    refine ⟨trivial, fun r w' he => ?_⟩
    exact wp_post (wp_runs (k r) w') fun _ _ _ hr => .call he hr

/-- `wp` says exactly what complete runs and cut runs show. -/
theorem wp_iff : ∀ (p : Program C R α) (w : W),
    wp env Q K p w ↔ (∀ a w', Runs env p w a w' → Q a w') ∧ ∀ w', Visits env p w w' → K w'
  | p, w => by
    refine ⟨fun h => ⟨fun _ _ => runs_of_wp h, fun _ => visits_of_wp h⟩, ?_⟩
    rintro ⟨hq, hk⟩
    induction p generalizing w with
    | done a => exact ⟨hk w (.here _ _), hq a w (.done a w)⟩
    | call c k ih =>
      refine ⟨hk w (.here _ _), fun r w' he => ih r w' ?_ ?_⟩
      · exact fun a w₂ hr => hq a w₂ (.call he hr)
      · exact fun w₂ hv => hk w₂ (.call he hv)

theorem wp_and {Q' : α → W → Prop} {K' : W → Prop} : ∀ {p : Program C R α} {w : W},
    wp env Q K p w → wp env Q' K' p w →
      wp env (fun a w => Q a w ∧ Q' a w) (fun w => K w ∧ K' w) p w
  | done _, _, h, h' => ⟨⟨h.1, h'.1⟩, h.2, h'.2⟩
  | call _ _, _, h, h' => ⟨⟨h.1, h'.1⟩, fun r w' he => wp_and (h.2 r w' he) (h'.2 r w' he)⟩

/-! ## Programs that may fail -/

section
variable {ε : Type}

theorem wp_run_bind {Q : Except ε β → W → Prop} (x : ExceptT ε (Program C R) α)
    (f : α → ExceptT ε (Program C R) β) (w : W) :
    wp env Q K (x >>= f).run w ↔
      wp env (fun r w' => match r with
        | .ok a => wp env Q K (f a).run w'
        | .error e => Q (.error e) w') K x.run w := by
  rw [ExceptT.run_bind, wp_bind]
  constructor
  · intro h
    refine wp_post h fun r w' hk hr => ?_
    cases r with
    | ok a => exact hr
    | error e => exact hr.2
  · intro h
    refine wp_post h fun r w' hk hr => ?_
    cases r with
    | ok a => exact hr
    | error e => exact ⟨hk, hr⟩

theorem runs_run_bind {x : ExceptT ε (Program C R) α} {f : α → ExceptT ε (Program C R) β}
    {w w₁ w₂ : W} {a : α} {r : Except ε β} (hx : Runs env x.run w (.ok a) w₁)
    (hf : Runs env (f a).run w₁ r w₂) : Runs env (x >>= f).run w r w₂ := runs_bind hx hf

theorem wp_run_ask {Q : Except ε β → W → Prop} (c : C) (f : R c → ExceptT ε (Program C R) β) (w : W) :
    wp env Q K ((liftM (ask c : Program C R (R c)) : ExceptT ε (Program C R) (R c)) >>= f).run w ↔
      K w ∧ ∀ r w', env w c r w' → wp env Q K (f r).run w' := Iff.rfl

theorem wp_run_map {Q : Except ε β → W → Prop} (f : α → β) (x : ExceptT ε (Program C R) α) (w : W) :
    wp env Q K (f <$> x).run w ↔ wp env (fun r w' => Q (f <$> r) w') K x.run w := by
  rw [ExceptT.run_map, wp_map]
  exact Iff.rfl

def ensure (b : Bool) (e : ε) : ExceptT ε (Program C R) Unit := if b then pure () else throw e

theorem wp_run_ensure {Q : Except ε β → W → Prop} (b : Bool) (e : ε)
    (f : Unit → ExceptT ε (Program C R) β) (w : W) :
    wp env Q K (ensure b e >>= f).run w ↔
      if b then wp env Q K (f ()).run w else K w ∧ Q (.error e) w := by
  cases b <;> exact Iff.rfl

/-- The postcondition of a success; a failure only owes the crash condition. -/
def wpOk (env : Env W C R) (Q : α → W → Prop) (K : W → Prop) (x : ExceptT ε (Program C R) α) (w : W) :
    Prop := wp env (fun r w' => ∀ a, r = .ok a → Q a w') K x.run w

theorem wpOk_pure (a : α) (w : W) :
    wpOk env Q K (pure a : ExceptT ε (Program C R) α) w ↔ K w ∧ Q a w := by
  refine and_congr_right fun _ => ?_
  exact ⟨fun h => h a rfl, fun h _ he => by cases he; exact h⟩

theorem wpOk_throw (e : ε) (w : W) :
    wpOk env Q K (throw e : ExceptT ε (Program C R) α) w ↔ K w :=
  ⟨And.left, fun h => ⟨h, fun _ he => by cases he⟩⟩

theorem wpOk_bind {Q : β → W → Prop} (x : ExceptT ε (Program C R) α)
    (f : α → ExceptT ε (Program C R) β) (w : W) :
    wpOk env Q K (x >>= f) w ↔ wpOk env (fun a w' => wpOk env Q K (f a) w') K x w := by
  unfold wpOk
  rw [wp_run_bind]
  constructor
  · intro h
    refine wp_post h fun r w' _ hr a ha => ?_
    subst ha
    exact hr
  · intro h
    refine wp_post h fun r w' _ hr => ?_
    cases r with
    | ok a => exact hr a rfl
    | error e => exact fun _ he => by cases he

theorem wpOk_ask {Q : β → W → Prop} (c : C) (f : R c → ExceptT ε (Program C R) β) (w : W) :
    wpOk env Q K ((liftM (ask c : Program C R (R c)) : ExceptT ε (Program C R) (R c)) >>= f) w ↔
      K w ∧ ∀ r w', env w c r w' → wpOk env Q K (f r) w' := Iff.rfl

theorem wpOk_lift (p : Program C R α) (w : W) :
    wpOk env Q K (liftM p : ExceptT ε (Program C R) α) w ↔ wp env Q K p w := by
  show wp env _ K (Except.ok <$> p) w ↔ _
  rw [wp_map]
  constructor
  · exact fun h => wp_post h fun a _ _ hq => hq a rfl
  · exact fun h => wp_post h fun a _ _ hq _ he => by cases he; exact hq

theorem wpOk_ensure {Q : β → W → Prop} (b : Bool) (e : ε)
    (f : Unit → ExceptT ε (Program C R) β) (w : W) :
    wpOk env Q K (ensure b e >>= f) w ↔ K w ∧ (b = true → wpOk env Q K (f ()) w) := by
  unfold wpOk
  rw [wp_run_ensure]
  cases b with
  | false => exact ⟨fun h => ⟨h.1, nofun⟩, fun h => ⟨h.1, fun _ he => by cases he⟩⟩
  | true => exact ⟨fun h => ⟨wp_here h, fun _ => h⟩, fun h => h.2 rfl⟩

theorem wpOk_ensure_last {Q : Unit → W → Prop} (b : Bool) (e : ε) (w : W) :
    wpOk env Q K (ensure b e : ExceptT ε (Program C R) Unit) w ↔ K w ∧ (b = true → Q () w) := by
  cases b with
  | false => exact (wpOk_throw e w).trans (by simp)
  | true => exact (wpOk_pure () w).trans (by simp)

theorem wpOk_post {Q Q' : α → W → Prop} {x : ExceptT ε (Program C R) α} {w : W}
    (h : wpOk env Q K x w) (hQ : ∀ a w, K w → Q a w → Q' a w) : wpOk env Q' K x w :=
  wp_post h fun _ w hk hq a ha => hQ a w hk (hq a ha)

theorem wpOk_tryCatch {x : ExceptT ε (Program C R) α} {handler : ε → ExceptT ε (Program C R) α}
    {w : W} (h : wpOk env Q K x w) (he : ∀ e w', K w' → wpOk env Q K (handler e) w') :
    wpOk env Q K (tryCatch x handler) w := by
  unfold wpOk
  rw [ExceptT.run_tryCatch, wp_bind]
  refine wp_post h fun r w' hk hr => ?_
  cases r with
  | ok a => exact ⟨hk, fun b hb => hr b hb⟩
  | error e => exact he e w' hk

def withError (e : ε) (x : ExceptT ε (Program C R) α) : ExceptT ε (Program C R) α :=
  ExceptT.mk ((fun r => r.mapError fun _ => e) <$> x.run)

theorem wpOk_withError (e : ε) {x : ExceptT ε (Program C R) α} {w : W} (h : wpOk env Q K x w) :
    wpOk env Q K (withError e x) w := by
  show wp env _ K ((fun r => r.mapError fun _ => e) <$> x.run) w
  rw [wp_map]
  refine wp_post h fun r _ _ hr a ha => ?_
  cases r with
  | ok b => exact hr a ha
  | error e => cases ha

end

/-! ## The calls of a program -/

/-- Every call the program may make satisfies `P`. -/
def Uses (P : C → Prop) : Program C R α → Prop
  | done _ => True
  | call c k => P c ∧ ∀ r, Uses P (k r)

theorem uses_bind {P : C → Prop} {f : α → Program C R β} :
    ∀ {p : Program C R α}, Uses P p → (∀ a, Uses P (f a)) → Uses P (p >>= f)
  | done a, _, hf => hf a
  | call _ _, h, hf => ⟨h.1, fun r => uses_bind (h.2 r) hf⟩

theorem uses_of_bind {P : C → Prop} {f : α → Program C R β} :
    ∀ {p : Program C R α}, Uses P (p >>= f) → Uses P p
  | done _, _ => trivial
  | call _ _, h => ⟨h.1, fun r => uses_of_bind (h.2 r)⟩

theorem uses_ask_bind {P : C → Prop} (c : C) (f : R c → Program C R α) :
    Uses P (ask c >>= f) ↔ P c ∧ ∀ r, Uses P (f r) := Iff.rfl

theorem uses_mono {P P' : C → Prop} (hP : ∀ c, P c → P' c) :
    ∀ {p : Program C R α}, Uses P p → Uses P' p
  | done _, _ => trivial
  | call _ _, h => ⟨hP _ h.1, fun r => uses_mono hP (h.2 r)⟩

theorem uses_true : ∀ p : Program C R α, Uses (fun _ => True) p
  | done _ => trivial
  | call _ k => ⟨trivial, fun r => uses_true (k r)⟩

/-- A condition that the calls a program uses all keep holds through every cut. -/
theorem wp_of_uses {P : C → Prop} (hs : ∀ w c r w', P c → K w → env w c r w' → K w') :
    ∀ {p : Program C R α} {w : W}, Uses P p → K w → wp env (fun _ => K) K p w
  | done _, _, _, h => ⟨h, h⟩
  | call _ _, _, hu, h => ⟨h, fun r _ he => wp_of_uses hs (hu.2 r) (hs _ _ _ _ hu.1 h he)⟩

theorem exists_runs {P : C → Prop} (h : ∀ w c, P c → ∃ r w', env w c r w') :
    ∀ {p : Program C R α} (w : W), Uses P p → ∃ a w', Runs env p w a w'
  | done a, w, _ => ⟨a, w, .done a w⟩
  | call _ _, w, hp => by
    obtain ⟨r, w₁, he⟩ := h w _ hp.1
    obtain ⟨a, w₂, hr⟩ := exists_runs h w₁ (hp.2 r)
    exact ⟨a, w₂, .call he hr⟩

def anything : Env Unit C R := fun _ _ _ _ => True

theorem anything_call {c : C} {k : R c → Program C R α} {a : α} (r : R c)
    (h : Runs anything (k r) () a ()) : Runs anything (.call c k) () a () :=
  .call (show anything () c r () from trivial) h

theorem uses_bind_iff {P : C → Prop} {f : α → Program C R β} : ∀ {p : Program C R α},
    Uses P (p >>= f) ↔ Uses P p ∧ ∀ a, Runs anything p () a () → Uses P (f a)
  | done a => by
    refine ⟨fun h => ⟨trivial, fun b hb => ?_⟩, fun h => h.2 a (.done a ())⟩
    cases hb
    exact h
  | call c k => by
    constructor
    · refine fun h => ⟨uses_of_bind h, fun a ha => ?_⟩
      cases ha with
      | @call _ _ _ _ _ r _ _ hr => exact (uses_bind_iff.mp (h.2 r)).2 a hr
    · refine fun h => ⟨h.1.1, fun r => uses_bind_iff.mpr ⟨h.1.2 r, fun a ha => ?_⟩⟩
      exact h.2 a (.call trivial ha)

/-! ## Interpreting calls by programs -/

section
variable {S C' : Type} {R' : C' → Type} (handle : S → (c : C) → Program C' R' (R c × S))

/-- The program over another interface, with the state of what answers it. -/
def interp : Program C R α → S → Program C' R' (α × S)
  | done a, s => done (a, s)
  | call c k, s => handle s c >>= fun r => interp (k r.1) r.2

theorem interp_ask_bind (c : C) (f : R c → Program C R α) (s : S) :
    interp handle (ask c >>= f) s = handle s c >>= fun r => interp handle (f r.1) r.2 := rfl

theorem interp_bind (f : α → Program C R β) : ∀ (p : Program C R α) (s : S),
    interp handle (p >>= f) s = interp handle p s >>= fun r => interp handle (f r.1) r.2
  | done a, s => rfl
  | call c k, s => by
    show handle s c >>= (fun r => interp handle (k r.1 >>= f) r.2) = _
    rw [interp, bind_assoc]
    congr 1
    funext r
    exact interp_bind f (k r.1) r.2

theorem wp_interp_ask {W : Type} {env : Env W C' R'} {Q : α × S → W → Prop} {K : W → Prop} (c : C)
    (f : R c → Program C R α) (s : S) (w : W) :
    wp env Q K (interp handle (ask c >>= f) s) w ↔
      wp env (fun r w' => wp env Q K (interp handle (f r.1) r.2) w') K (handle s c) w := by
  rw [interp_ask_bind, wp_bind]

theorem interp_map (f : α → β) (p : Program C R α) (s : S) :
    interp handle (f <$> p) s = interp handle p s >>= fun r => pure (f r.1, r.2) := by
  rw [map_eq_pure_bind, interp_bind]
  rfl

end

/-! ## Running against one answer -/

/-- The run against surroundings that answer each call in one way. -/
def exec (answer : W → (c : C) → R c × W) : Program C R α → W → α × W
  | done a, w => (a, w)
  | call c k, w => exec answer (k (answer w c).1) (answer w c).2

theorem runs_exec {answer : W → (c : C) → R c × W}
    (h : ∀ w c, env w c (answer w c).1 (answer w c).2) :
    ∀ (p : Program C R α) (w : W), Runs env p w (exec answer p w).1 (exec answer p w).2
  | done a, w => .done a w
  | call c k, w => .call (h w c) (runs_exec h (k (answer w c).1) (answer w c).2)

def cut (answer : W → (c : C) → R c × W) : Nat → Program C R α → W → W
  | n + 1, call c k, w => cut answer n (k (answer w c).1) (answer w c).2
  | _, _, w => w

theorem visits_cut {answer : W → (c : C) → R c × W}
    (h : ∀ w c, env w c (answer w c).1 (answer w c).2) :
    ∀ (n : Nat) (p : Program C R α) (w : W), Visits env p w (cut answer n p w)
  | n + 1, call c k, w => .call (h w c) (visits_cut h n (k (answer w c).1) (answer w c).2)
  | 0, p, w => by
    rw [cut]
    · exact .here p w
    · nofun
  | n + 1, done a, w => .here _ w

def execMeets (answer : W → (c : C) → R c × W) (fit : W → C → Bool) : Program C R α → W → Bool
  | done _, _ => true
  | call c k, w => fit w c && execMeets answer fit (k (answer w c).1) (answer w c).2

theorem runs_execMeets {answer : W → (c : C) → R c × W} {fit : W → C → Bool}
    (h : ∀ w c, fit w c = true → env w c (answer w c).1 (answer w c).2) :
    ∀ (p : Program C R α) (w : W), execMeets answer fit p w = true →
      Runs env p w (exec answer p w).1 (exec answer p w).2
  | done a, w, _ => .done a w
  | call c k, w, hp => by
    obtain ⟨hfit, hrest⟩ := Bool.and_eq_true_iff.mp hp
    exact .call (h w c hfit) (runs_execMeets h (k (answer w c).1) (answer w c).2 hrest)

end

end Program
