import Mathlib.Data.List.Count
import Mathlib.Data.List.Nodup
import Mathlib.Data.List.Perm.Subperm

/-!
# A feed that hands out its newest entries

Entries are put into a feed; a take hands out the newest ones up to a limit and
forgets all of them. Nothing is handed out twice, and everything is handed out
exactly when no take ever finds more than the limit.
-/

namespace Feed

section
variable {α : Type}

inductive Op (α : Type) where
  | put (a : α)
  | take
  | idle

def newest (limit : Nat) (l : List α) : List α := l.drop (l.length - limit)

def next (waiting : List α) : Op α → List α
  | .put a => waiting ++ [a]
  | .take => []
  | .idle => waiting

def shows (limit : Nat) (waiting : List α) : Op α → List α
  | .take => newest limit waiting
  | _ => []

def Op.puts : Op α → List α
  | put a => [a]
  | _ => []

def delivered (limit : Nat) : List α → List (Op α) → List α
  | _, [] => []
  | waiting, op :: ops => shows limit waiting op ++ delivered limit (next waiting op) ops

def Calm (limit : Nat) : List α → List (Op α) → Prop
  | _, [] => True
  | waiting, op :: ops => (op = .take → waiting.length ≤ limit) ∧ Calm limit (next waiting op) ops

variable {limit : Nat}

theorem newest_sublist (l : List α) : (newest limit l).Sublist l := List.drop_sublist _ _

theorem newest_eq {l : List α} (h : l.length ≤ limit) : newest limit l = l := by
  rw [newest, Nat.sub_eq_zero_of_le h, List.drop_zero]

theorem length_newest (l : List α) : (newest limit l).length = min limit l.length := by
  rw [newest, List.length_drop]
  omega

theorem foldl_next : ∀ (ops : List (Op α)) (waiting : List α), (∀ op ∈ ops, op ≠ .take) →
    ops.foldl next waiting = waiting ++ ops.flatMap Op.puts
  | [], waiting, _ => by simp
  | op :: ops, waiting, h => by
    have ih := foldl_next ops (next waiting op) fun op' hop' => h op' (by simp [hop'])
    cases op with
    | put a => simpa [next, Op.puts] using ih
    | take => exact absurd rfl (h .take (by simp))
    | idle => simpa [next, Op.puts] using ih

theorem delivered_sublist : ∀ (ops : List (Op α)) (waiting : List α),
    (delivered limit waiting ops ++ ops.foldl next waiting).Sublist
      (waiting ++ ops.flatMap Op.puts)
  | [], waiting => by simp [delivered]
  | op :: ops, waiting => by
    have ih := delivered_sublist ops (next waiting op)
    cases op with
    | put a => simpa [delivered, shows, next, Op.puts] using ih
    | take =>
      have hboth := (@newest_sublist α limit waiting).append ih
      simpa [delivered, shows, next, Op.puts] using hboth
    | idle => simpa [delivered, shows, next, Op.puts] using ih

theorem delivered_iff : ∀ (ops : List (Op α)) (waiting : List α),
    delivered limit waiting ops ++ ops.foldl next waiting = waiting ++ ops.flatMap Op.puts ↔
      Calm limit waiting ops
  | [], waiting => by simp [delivered, Calm]
  | op :: ops, waiting => by
    have ih := delivered_iff ops (next waiting op)
    cases op with
    | put a => simpa [delivered, shows, next, Op.puts, Calm] using ih
    | idle => simpa [delivered, shows, next, Op.puts, Calm] using ih
    | take =>
      have hrest := (@delivered_sublist α limit ops []).length_le
      simp only [next, List.nil_append] at ih hrest
      simp only [delivered, shows, List.foldl_cons, next, List.flatMap_cons, Op.puts, List.nil_append,
        Calm, true_imp_iff, List.append_assoc]
      constructor
      · intro h
        have hlen := congrArg List.length h
        have hnew := @length_newest α limit waiting
        simp only [List.length_append] at hlen hrest
        have hshort : waiting.length ≤ limit := by omega
        rw [newest_eq hshort, List.append_cancel_left_eq] at h
        exact ⟨hshort, ih.mp h⟩
      · rintro ⟨hshort, hcalm⟩
        rw [newest_eq hshort, ih.mpr hcalm]

end

section
variable {α : Type} [BEq α] [LawfulBEq α]

theorem once_iff {part whole : List α} (hs : part.Sublist whole) (hn : whole.Nodup) :
    (∀ a ∈ whole, part.count a = 1) ↔ part = whole := by
  constructor
  · intro h
    have hsub : whole ⊆ part := fun a ha => List.count_pos_iff.mp (by rw [h a ha]; exact Nat.one_pos)
    exact hs.eq_of_length_le (hn.subperm hsub).length_le
  · rintro rfl a ha
    exact List.count_eq_one_of_mem hn ha

/-- **When everything is handed out once.** With distinct entries and nothing left
waiting, every entry is handed out exactly once exactly when no take finds more than
the limit. -/
theorem delivered_once_iff {limit : Nat} {ops : List (Op α)} {waiting : List α}
    (hleft : ops.foldl next waiting = []) (hn : (waiting ++ ops.flatMap Op.puts).Nodup) :
    (∀ a ∈ waiting ++ ops.flatMap Op.puts, (delivered limit waiting ops).count a = 1) ↔
      Calm limit waiting ops := by
  have hs := @delivered_sublist α limit ops waiting
  have hiff := @delivered_iff α limit ops waiting
  rw [hleft, List.append_nil] at hs hiff
  rw [once_iff hs hn, hiff]

end

end Feed
