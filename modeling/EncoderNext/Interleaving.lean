import EncoderNext.Program

/-!
# Programs among others

Others may change the world between the calls of a program; where they are a second program,
each call of it is one of their steps. `must` is the weakest condition under which no run gets
stuck and every run ends well.
-/

namespace Program

section
variable {W C : Type} {R : C → Type} {α β : Type}

def between (others : W → W → Prop) (env : Env W C R) : Env W C R := fun w c r w'' =>
  ∃ w', Relation.ReflTransGen others w w' ∧ env w' c r w''

theorem steps_keep {others : W → W → Prop} {I : W → Prop} (hI : ∀ w w', I w → others w w' → I w')
    {w w' : W} (hs : Relation.ReflTransGen others w w') (h : I w) : I w' := by
  induction hs with
  | refl => exact h
  | tail _ hstep ih => exact hI _ _ ih hstep

theorem of_between {others : W → W → Prop} {env : Env W C R} {I : W → Prop}
    (hI : ∀ w w', I w → others w w' → I w') {w w'' : W} {c : C} {r : R c} (h : I w)
    (he : between others env w c r w'') : ∃ w', I w' ∧ env w' c r w'' := by
  obtain ⟨w', hsteps, hcall⟩ := he
  exact ⟨w', steps_keep hI hsteps h, hcall⟩

/-! ## A second program -/

/-- A step of a program is its next call. -/
inductive Acts {C' : Type} {R' : C' → Type} (env : Env W C' R') :
    W × Program C' R' β → W × Program C' R' β → Prop where
  | call {w w' : W} {c : C'} {r : R' c} {k : R' c → Program C' R' β} :
      env w c r w' → Acts env (w, .call c k) (w', k r)

theorem acts_ask {C' : Type} {R' : C' → Type} {env : Env W C' R'} {c : C'}
    {f : R' c → Program C' R' β} {w w' : W} {r : R' c} (h : env w c r w') :
    Acts env (w, ask c >>= f) (w', f r) := .call h

theorem acts_ask_bind {C' : Type} {R' : C' → Type} {env : Env W C' R'} {c : C'}
    {f : R' c → Program C' R' β} {w : W} {s' : W × Program C' R' β}
    (h : Acts env (w, ask c >>= f) s') : ∃ r w', env w c r w' ∧ s' = (w', f r) := by
  cases h with
  | call he => exact ⟨_, _, he, rfl⟩

def beside {C' : Type} {R' : C' → Type} (env : Env W C R) (env' : Env W C' R') :
    Env (W × Program C' R' β) C R :=
  between (Acts env') fun w c r w' => env w.1 c r w'.1 ∧ w'.2 = w.2

/-! ## Runs that come to an end -/

/-- Each call is answered, whichever answer is given the program goes on, and it ends in `Q`. -/
def must (env : Env W C R) (Q : α → W → Prop) : Program C R α → W → Prop
  | done a, w => Q a w
  | call c k, w => (∃ r w', env w c r w') ∧ ∀ r w', env w c r w' → must env Q (k r) w'

variable {env : Env W C R}

theorem must_pure {Q : α → W → Prop} {a : α} {w : W} : must env Q (pure a) w ↔ Q a w := Iff.rfl

theorem must_ask_bind {Q : β → W → Prop} (c : C) (f : R c → Program C R β) (w : W) :
    must env Q (ask c >>= f) w ↔
      (∃ r w', env w c r w') ∧ ∀ r w', env w c r w' → must env Q (f r) w' := Iff.rfl

theorem must_bind {Q : β → W → Prop} (f : α → Program C R β) : ∀ (p : Program C R α) (w : W),
    must env Q (p >>= f) w ↔ must env (fun a w' => must env Q (f a) w') p w
  | done _, _ => Iff.rfl
  | call _ k, _ => and_congr_right fun _ =>
    forall_congr' fun r => forall_congr' fun w' => imp_congr_right fun _ => must_bind f (k r) w'

theorem must_mono {Q Q' : α → W → Prop} (hQ : ∀ a w, Q a w → Q' a w) :
    ∀ {p : Program C R α} {w : W}, must env Q p w → must env Q' p w
  | done a, w, h => hQ a w h
  | call _ _, _, h => ⟨h.1, fun r w' he => must_mono hQ (h.2 r w' he)⟩

theorem runs_of_must {Q : α → W → Prop} {p : Program C R α} {w w' : W} {a : α}
    (h : must env Q p w) (hr : Runs env p w a w') : Q a w' := by
  induction hr with
  | done a w => exact h
  | call he _ ih => exact ih (h.2 _ _ he)

theorem exists_of_must {Q : α → W → Prop} : ∀ {p : Program C R α} {w : W}, must env Q p w →
    ∃ a w', Runs env p w a w'
  | done a, w, _ => ⟨a, w, .done a w⟩
  | call _ _, _, h => by
    obtain ⟨r, w₁, he⟩ := h.1
    obtain ⟨a, w₂, hr⟩ := exists_of_must (h.2 r w₁ he)
    exact ⟨a, w₂, .call he hr⟩

end

end Program
