import Mathlib.Logic.Equiv.Defs
import Mathlib.Data.List.Basic

/-!
# Blocks of a text and their chaining

A text is read in pieces of one size, the last of them perhaps shorter. Chaining
mixes each block with what was sealed before it; opening undoes that block by
block, from either side.
-/

namespace Chaining

section
variable {α : Type} (size : Nat)

def reads : Nat → List α → List (List α)
  | 0, _ => []
  | _ + 1, [] => []
  | fuel + 1, x :: xs => (x :: xs).take size :: reads fuel ((x :: xs).drop size)

def pieces (xs : List α) : List (List α) := reads size xs.length xs

variable {size}

theorem reads_blocks (hsize : 0 < size) : ∀ {fuel : Nat} {blocks : List (List α)},
    (∀ b ∈ blocks, b.length = size) → blocks.flatten.length ≤ fuel → reads size fuel blocks.flatten = blocks
  | 0, [], _, _ => rfl
  | _ + 1, [], _, _ => rfl
  | fuel, [] :: blocks, hblocks, _ => by
    have hb := hblocks [] (by simp)
    simp only [List.length_nil] at hb
    omega
  | 0, (x :: b) :: blocks, _, hfuel => by simp at hfuel
  | fuel + 1, (x :: b) :: blocks, hblocks, hfuel => by
    have hb : (x :: b).length = size := hblocks (x :: b) (by simp)
    have hrest : blocks.flatten.length ≤ fuel := by
      simp only [List.flatten_cons, List.length_append, List.length_cons] at hfuel ⊢
      omega
    have ih := reads_blocks hsize (fun c hc => hblocks c (by simp [hc])) hrest
    rw [List.flatten_cons, List.cons_append, reads, ← List.cons_append, List.take_left' hb,
      List.drop_left' hb, ih]

theorem pieces_blocks (hsize : 0 < size) {blocks : List (List α)} (h : ∀ b ∈ blocks, b.length = size) :
    pieces size blocks.flatten = blocks :=
  reads_blocks hsize h (Nat.le_refl _)

end

/-! ## Chaining -/

section
variable {B : Type} (mix : B → B → B) (e : Equiv.Perm B)

def sealed : B → List B → List B
  | _, [] => []
  | iv, b :: rest => e (mix b iv) :: sealed (e (mix b iv)) rest

def opened : B → List B → List B
  | _, [] => []
  | iv, c :: rest => mix (e.symm c) iv :: opened c rest

@[simp] theorem length_sealed : ∀ (iv : B) (bs : List B), (sealed mix e iv bs).length = bs.length
  | _, [] => rfl
  | iv, b :: bs => by simp [sealed, length_sealed (e (mix b iv)) bs]

@[simp] theorem length_opened : ∀ (iv : B) (cs : List B), (opened mix e iv cs).length = cs.length
  | _, [] => rfl
  | iv, c :: cs => by simp [opened, length_opened c cs]

variable {mix} (hmix : ∀ a b, mix (mix a b) b = a)
include hmix

theorem opened_sealed : ∀ (iv : B) (bs : List B), opened mix e iv (sealed mix e iv bs) = bs
  | _, [] => rfl
  | iv, b :: bs => by
    rw [sealed, opened, opened_sealed, Equiv.symm_apply_apply, hmix]

/-- The cipher reaches every block, so that every sealed text is the sealing of some text. -/
theorem sealed_opened : ∀ (iv : B) (cs : List B), sealed mix e iv (opened mix e iv cs) = cs
  | _, [] => rfl
  | iv, c :: cs => by
    rw [opened, sealed, hmix, Equiv.apply_symm_apply, sealed_opened]

end

end Chaining
