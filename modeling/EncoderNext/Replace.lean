import Mathlib.Data.List.Infix

/-!
# Replacing a pattern

Every occurrence is replaced, from the left and none overlapping an earlier one. A character that
is not in the pattern cuts a text into parts that are replaced by themselves.
-/

namespace Replace

section
variable {α : Type} {c : α} {p x y : List α}

theorem prefix_cut (hc : c ∉ p) (h : p <+: x ++ c :: y) : p <+: x := by
  obtain hx | ⟨t, rfl⟩ := List.prefix_or_prefix_of_prefix h (List.prefix_append x (c :: y))
  · exact hx
  · rw [List.prefix_append_right_inj] at h
    cases t with
    | nil => simp
    | cons d t =>
      obtain rfl : d = c := (List.cons_prefix_cons.mp h).1
      exact absurd (by simp) hc

/-- An occurrence lies on one side of a character that is not in the pattern. -/
theorem infix_cut (hc : c ∉ p) : p <:+: x ++ c :: y ↔ p <:+: x ∨ p <:+: y := by
  constructor
  · intro h
    induction x with
    | nil =>
      obtain h | h := List.infix_cons_iff.mp h
      · exact .inl (prefix_cut (x := []) hc h).isInfix
      · exact .inr h
    | cons d x ih =>
      obtain h | h := List.infix_cons_iff.mp h
      · exact .inl (prefix_cut (x := d :: x) hc h).isInfix
      · exact (ih h).imp_left List.infix_cons
  · rintro (h | h)
    · exact h.trans (List.prefix_append ..).isInfix
    · exact h.trans ((List.suffix_cons c y).isInfix.trans (List.suffix_append ..).isInfix)

end

section
variable {α : Type} [DecidableEq α] (old new : List α)

/-- The first argument counts what is left of an occurrence. -/
def replaceFrom : Nat → List α → List α
  | _, [] => []
  | k + 1, _ :: s => replaceFrom k s
  | 0, c :: s =>
    if old <+: c :: s then new ++ replaceFrom (old.length - 1) s else c :: replaceFrom 0 s

def replace (s : List α) : List α := replaceFrom old new 0 s

@[simp] theorem replace_nil : replace old new [] = [] := rfl

theorem replaceFrom_eq : ∀ (k : Nat) (s : List α),
    replaceFrom old new k s = replace old new (s.drop k)
  | 0, s => rfl
  | k + 1, [] => rfl
  | k + 1, _ :: s => by
    rw [List.drop_succ_cons, replaceFrom]
    exact replaceFrom_eq k s

variable {old}

theorem replace_match (h : old ≠ []) (s : List α) : replace old new (old ++ s) = new ++ replace old new s := by
  cases old with
  | nil => exact absurd rfl h
  | cons c p =>
    have hprefix : c :: p <+: c :: (p ++ s) := List.prefix_append (c :: p) s
    rw [List.cons_append, replace, replaceFrom, if_pos hprefix, replaceFrom_eq]
    simp

theorem replace_skip {c : α} {s : List α} (h : ¬old <+: c :: s) :
    replace old new (c :: s) = c :: replace old new s := by
  rw [replace, replaceFrom, if_neg h]
  rfl

theorem replace_of_not_infix : ∀ {s : List α}, ¬old <:+: s → replace old new s = s
  | [], _ => rfl
  | c :: s, h => by
    rw [List.infix_cons_iff, not_or] at h
    rw [replace_skip new h.1, replace_of_not_infix h.2]

theorem replace_cut (h : old ≠ []) {c : α} (hc : c ∉ old) (y : List α) : ∀ x : List α,
    replace old new (x ++ c :: y) = replace old new x ++ c :: replace old new y := by
  intro x
  induction hn : x.length using Nat.strong_induction_on generalizing x with
  | h n ih =>
    by_cases hmatch : old <+: x
    · obtain ⟨rest, rfl⟩ := hmatch
      have hpos := List.length_pos_iff.mpr h
      have hlt : rest.length < n := by
        rw [← hn, List.length_append]
        omega
      rw [List.append_assoc, replace_match new h, replace_match new h, ih _ hlt rest rfl,
        List.append_assoc]
    · have hno : ¬old <+: x ++ c :: y := fun hp => hmatch (prefix_cut hc hp)
      cases x with
      | nil => exact replace_skip new hno
      | cons d x =>
        have hlt : x.length < n := by
          rw [← hn]
          simp
        have hno' : ¬old <+: d :: (x ++ c :: y) := hno
        rw [List.cons_append, replace_skip new hno', replace_skip new hmatch, ih _ hlt x rfl,
          List.cons_append]

theorem replace_part (h : old ≠ []) {c : α} (hc : c ∉ old) {x : List α} (hx : ¬old <:+: x)
    (y : List α) : replace old new (x ++ c :: y) = x ++ c :: replace old new y := by
  rw [replace_cut new h hc, replace_of_not_infix new hx]

theorem replace_cons (h : old ≠ []) {c : α} (hc : c ∉ old) (y : List α) :
    replace old new (c :: y) = c :: replace old new y := replace_cut new h hc y []

theorem replace_single (c : α) : ∀ s : List α,
    replace [c] new s = s.flatMap fun d => if d = c then new else [d]
  | [] => rfl
  | d :: s => by
    rw [List.flatMap_cons, ← replace_single c s]
    by_cases hd : d = c
    · subst hd
      rw [if_pos rfl]
      exact replace_match new (by simp) s
    · rw [if_neg hd, replace_skip]
      · rfl
      · intro hp
        exact hd (List.cons_prefix_cons.mp hp).1.symm

variable {new}

theorem length_le_replace (h : old ≠ []) (hle : old.length ≤ new.length) (s : List α) :
    s.length ≤ (replace old new s).length := by
  induction hn : s.length using Nat.strong_induction_on generalizing s with
  | h n ih =>
    by_cases hmatch : old <+: s
    · obtain ⟨rest, rfl⟩ := hmatch
      have hpos := List.length_pos_iff.mpr h
      rw [List.length_append] at hn
      have hrest := ih rest.length (by omega) rest rfl
      rw [replace_match new h, List.length_append]
      omega
    · cases s with
      | nil => simp [← hn]
      | cons c s =>
        rw [List.length_cons] at hn
        have hs := ih s.length (by omega) s rfl
        rw [replace_skip new hmatch, List.length_cons]
        omega

theorem length_lt_replace (h : old ≠ []) (hlt : old.length < new.length) {s : List α}
    (hin : old <:+: s) : s.length < (replace old new s).length := by
  induction s with
  | nil => exact absurd (List.infix_nil.mp hin) h
  | cons c s ih =>
    by_cases hmatch : old <+: c :: s
    · obtain ⟨rest, hrest⟩ := hmatch
      have hle := length_le_replace h hlt.le rest
      rw [← hrest, replace_match new h, List.length_append, List.length_append]
      omega
    · have hs := ih ((List.infix_cons_iff.mp hin).resolve_left hmatch)
      rw [replace_skip new hmatch, List.length_cons, List.length_cons]
      omega

theorem replace_eq_self_iff (h : old ≠ []) (hlt : old.length < new.length) {s : List α} :
    replace old new s = s ↔ ¬old <:+: s := by
  refine ⟨fun hs hin => ?_, replace_of_not_infix new⟩
  have hlength := length_lt_replace h hlt hin
  rw [hs] at hlength
  exact lt_irrefl _ hlength

end

end Replace
