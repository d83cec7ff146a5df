import EncoderNext.Program
import Mathlib.Data.List.Infix

/-!
# Logs

The world of a program can be the log of its calls. A log is lawful when every
entry is justified by the entries before it, so a claim about when a call may
be made is a claim about what justifies it, and a step of a proof looks at one
call.
-/

namespace Program

section
variable {E : Type} {J : List E → E → Prop}

def Lawful (J : List E → E → Prop) (tr : List E) : Prop :=
  ∀ pre e, pre ++ [e] <+: tr → J pre e

theorem lawful_nil : Lawful J [] := fun pre e h => by
  have := List.eq_nil_of_prefix_nil h
  simp at this

theorem lawful_snoc {tr : List E} {e : E} (h : Lawful J tr) (he : J tr e) :
    Lawful J (tr ++ [e]) := fun pre e' hp => by
  rcases List.prefix_concat_iff.mp hp with heq | hp
  · obtain ⟨rfl, h'⟩ := List.append_inj' heq rfl
    rw [List.singleton_inj] at h'
    subst h'
    exact he
  · exact h pre e' hp

theorem lawful_mid {tr pre post : List E} {e : E} (h : Lawful J tr) (htr : tr = pre ++ e :: post) :
    J pre e := h pre e (htr ▸ ⟨post, by simp⟩)

end

section
variable {E C : Type} {R : C → Type} {entry : (c : C) → R c → E} {P : C → Prop}

def recording (entry : (c : C) → R c → E) : Env (List E) C R :=
  fun tr c r tr' => tr' = tr ++ [entry c r]

inductive Grows (entry : (c : C) → R c → E) (P : C → Prop) (tr : List E) : List E → Prop where
  | refl : Grows entry P tr tr
  | call {tr' : List E} {c : C} (r : R c) :
      Grows entry P tr tr' → P c → Grows entry P tr (tr' ++ [entry c r])

theorem wp_grows {α : Type} {p : Program C R α} (h : Uses P p) (tr : List E) :
    wp (recording entry) (fun _ => Grows entry P tr) (Grows entry P tr) p tr :=
  wp_of_uses (fun _ _ r _ hc hg he => he ▸ .call r hg hc) h .refl

theorem grows_append {tr tr' : List E} (h : Grows entry P tr tr') :
    ∃ more, tr' = tr ++ more ∧ ∀ e ∈ more, ∃ c r, e = entry c r ∧ P c := by
  induction h with
  | refl => exact ⟨[], by simp⟩
  | @call tr' c r _ hc ih =>
    obtain ⟨more, rfl, he⟩ := ih
    refine ⟨more ++ [entry c r], List.append_assoc .., fun e hm => ?_⟩
    rcases List.mem_append.mp hm with hm | hm
    · exact he e hm
    · exact ⟨c, r, List.mem_singleton.mp hm, hc⟩

theorem lawful_grows {J : List E → E → Prop} (hJ : ∀ tr c r, P c → J tr (entry c r))
    {tr tr' : List E} (h : Grows entry P tr tr') (hl : Lawful J tr) : Lawful J tr' := by
  induction h with
  | refl => exact hl
  | call r _ hc ih => exact lawful_snoc ih (hJ _ _ r hc)

end

/-! ## What is owed -/

section
variable {E O : Type} {raises settles : E → O → Prop}

def Owing (raises settles : E → O → Prop) (tr : List E) (o : O) : Prop :=
  ∃ pre e post, tr = pre ++ e :: post ∧ raises e o ∧ ∀ x ∈ post, ¬ settles x o

theorem owing_nil (o : O) : ¬ Owing raises settles [] o := by
  intro h
  obtain ⟨pre, e, post, htr, -⟩ := h
  simp at htr

theorem owing_snoc {tr : List E} {e : E} {o : O} (h : Owing raises settles (tr ++ [e]) o) :
    raises e o ∨ Owing raises settles tr o ∧ ¬ settles e o := by
  obtain ⟨pre, e', post, htr, hr, hs⟩ := h
  by_cases hp : post = []
  · subst hp
    obtain ⟨-, he⟩ := List.append_inj' htr rfl
    cases he
    exact .inl hr
  · obtain ⟨post, last, rfl⟩ := List.eq_nil_or_concat post |>.resolve_left hp
    rw [List.concat_eq_append] at htr hs
    have hsplit : tr ++ [e] = (pre ++ e' :: post) ++ [last] := by simp [htr]
    obtain ⟨rfl, he⟩ := List.append_inj' hsplit rfl
    cases he
    exact .inr ⟨⟨pre, e', post, rfl, hr, fun x hx => hs x (by simp [hx])⟩, hs e (by simp)⟩

end

end Program
