import Mathlib.Algebra.Order.Ring.Int
import Mathlib.Data.List.TakeWhile

/-!
# Sliding windows

A window over timestamped entries that is only cut at its front, and only when
something is pushed, holds just the recent entries as long as the times go up.
-/

namespace SlidingWindow

variable {α : Type} (time : α → Int) (width : Int)

def cut (now : Int) (xs : List α) : List α := xs.dropWhile fun x => now - time x > width

def within (now : Int) (xs : List α) : List α := xs.filter fun x => now - time x ≤ width

variable {time width} {now : Int}

theorem within_append (xs ys : List α) :
    within time width now (xs ++ ys) = within time width now xs ++ within time width now ys :=
  List.filter_append ..

theorem within_eq_nil {xs : List α} (h : ∀ x ∈ xs, width < now - time x) :
    within time width now xs = [] := by
  rw [within, List.filter_eq_nil_iff]
  intro x hx
  have := h x hx
  simp
  omega

theorem within_eq_self {xs : List α} (h : ∀ x ∈ xs, now - time x ≤ width) :
    within time width now xs = xs := by
  rw [within, List.filter_eq_self]
  intro x hx
  simpa using h x hx

/-- The times go up, so nothing behind the first recent entry is too old. -/
theorem cut_eq_within : ∀ {xs : List α}, xs.Pairwise (time · ≤ time ·) →
    cut time width now xs = within time width now xs
  | [], _ => rfl
  | x :: xs, h => by
    obtain ⟨hx, hxs⟩ := List.pairwise_cons.mp h
    by_cases hold : width < now - time x
    · have hcut : cut time width now (x :: xs) = cut time width now xs := by simp [cut, hold]
      have hwithin : within time width now (x :: xs) = within time width now xs := by
        apply List.filter_cons_of_neg
        simp
        omega
      rw [hcut, hwithin, cut_eq_within hxs]
    · have hcut : cut time width now (x :: xs) = x :: xs := by simp [cut, hold]
      rw [hcut, within_eq_self]
      intro y hy
      rcases List.mem_cons.mp hy with rfl | hy
      · omega
      · have := hx y hy
        omega

variable (time width) in
/-- What is kept of all entries: those behind some that no window holds again. -/
structure Tail (now : Int) (kept all : List α) : Prop where
  split : ∃ gone, all = gone ++ kept ∧ ∀ x ∈ gone, width < now - time x
  sorted : all.Pairwise (time · ≤ time ·)
  past : ∀ x ∈ all, time x ≤ now

theorem Tail.nil : Tail time width now [] [] := ⟨⟨[], rfl, by simp⟩, .nil, by simp⟩

variable {kept all new : List α}

theorem Tail.later (h : Tail time width now kept all) {now' : Int} (hle : now ≤ now') :
    Tail time width now' kept all := by
  obtain ⟨⟨gone, hsplit, hold⟩, hsorted, hpast⟩ := h
  refine ⟨⟨gone, hsplit, fun x hx => ?_⟩, hsorted, fun x hx => (hpast x hx).trans hle⟩
  have := hold x hx
  omega

theorem Tail.sorted_push (h : Tail time width now kept all) (hnew : ∀ x ∈ new, time x = now) :
    (all ++ new).Pairwise (time · ≤ time ·) := by
  rw [List.pairwise_append]
  refine ⟨h.sorted, ?_, ?_⟩
  · apply List.pairwise_of_forall_mem_list
    intro x hx y hy
    exact (hnew x hx).le.trans (hnew y hy).ge
  · intro x hx y hy
    rw [hnew y hy]
    exact h.past x hx

theorem Tail.push (h : Tail time width now kept all) (hnew : ∀ x ∈ new, time x = now) :
    Tail time width now (cut time width now (kept ++ new)) (all ++ new) := by
  refine ⟨?_, h.sorted_push hnew, ?_⟩
  · obtain ⟨gone, hsplit, hold⟩ := h.split
    let old := (kept ++ new).takeWhile fun x => now - time x > width
    refine ⟨gone ++ old, ?_, ?_⟩
    · rw [hsplit, List.append_assoc, List.append_assoc]
      exact congrArg _ (List.takeWhile_append_dropWhile).symm
    · intro x hx
      rcases List.mem_append.mp hx with hx | hx
      · exact hold x hx
      · simpa using List.mem_takeWhile_imp hx
  · intro x hx
    rcases List.mem_append.mp hx with hx | hx
    · exact h.past x hx
    · exact (hnew x hx).le

/-- **Right after a push the window holds exactly the recent entries.** -/
theorem Tail.exact (h : Tail time width now kept all) (hnew : ∀ x ∈ new, time x = now) :
    cut time width now (kept ++ new) = within time width now (all ++ new) := by
  obtain ⟨gone, hsplit, hold⟩ := h.split
  have hsorted := h.sorted_push hnew
  rw [hsplit, List.append_assoc] at hsorted ⊢
  rw [within_append, within_eq_nil hold, List.nil_append]
  exact cut_eq_within (List.pairwise_append.mp hsorted).2.1

end SlidingWindow
