import Mathlib.Data.List.AList

/-!
# Tables read line by line

A reader goes through lines and collects named values. A line is refused, passed
over, or gives a value to a name, and no name may be given a value twice.
-/

namespace FieldTable

section
variable {κ β γ ε : Type} [DecidableEq κ]

abbrev Fields (κ β : Type) : Type := AList fun _ : κ => β

/-- What a line says: nothing where it is refused, and no value where it is passed over. -/
abbrev Entry (κ β γ : Type) : Type := γ → Option (Option (κ × β))

def Reads (entry : Entry κ β γ) (step : Fields κ β → γ → Except ε (Fields κ β)) : Prop :=
  ∀ fields l,
    match entry l with
    | none => ∃ e, step fields l = .error e
    | some none => step fields l = .ok fields
    | some (some (k, v)) =>
      if (fields.lookup k).isSome then ∃ e, step fields l = .error e
      else step fields l = .ok (fields.insert k v)

namespace Reads

variable {entry : Entry κ β γ} {step : Fields κ β → γ → Except ε (Fields κ β)}
  (hs : Reads entry step) {l : γ}
include hs

theorem refused (fields : Fields κ β) (h : entry l = none) : ∃ e, step fields l = .error e := by
  have := hs fields l
  rwa [h] at this

theorem skipped (fields : Fields κ β) (h : entry l = some none) : step fields l = .ok fields := by
  have := hs fields l
  rwa [h] at this

theorem again {k : κ} {v v' : β} {fields : Fields κ β} (h : entry l = some (some (k, v)))
    (hl : fields.lookup k = some v') : ∃ e, step fields l = .error e := by
  have := hs fields l
  rw [h] at this
  simpa [hl] using this

theorem fresh {k : κ} {v : β} {fields : Fields κ β} (h : entry l = some (some (k, v)))
    (hl : fields.lookup k = none) : step fields l = .ok (fields.insert k v) := by
  have := hs fields l
  rw [h] at this
  simpa [hl] using this

end Reads

def valueOf (entry : Entry κ β γ) (k : κ) (l : γ) : Option β :=
  match entry l with
  | some (some (k', v)) => if k' = k then some v else none
  | _ => none

def values (entry : Entry κ β γ) (k : κ) (ls : List γ) : List β := ls.filterMap (valueOf entry k)

def Accepts (entry : Entry κ β γ) (fields : Fields κ β) (ls : List γ) : Prop :=
  (∀ l ∈ ls, entry l ≠ none) ∧
  ∀ k, (fields.lookup k).toList.length + (values entry k ls).length ≤ 1

variable {entry : Entry κ β γ} {step : Fields κ β → γ → Except ε (Fields κ β)}

theorem values_cons (k : κ) (l : γ) (ls : List γ) :
    values entry k (l :: ls) = (valueOf entry k l).toList ++ values entry k ls := by
  rw [values, List.filterMap_cons]
  cases h : valueOf entry k l <;> simp [values]

theorem valueOf_some {l : γ} {k k' : κ} {v : β} (h : entry l = some (some (k', v))) :
    valueOf entry k l = if k' = k then some v else none := by
  simp [valueOf, h]

theorem valueOf_none {l : γ} (h : entry l = none ∨ entry l = some none) (k : κ) :
    valueOf entry k l = none := by
  rcases h with h | h <;> simp [valueOf, h]

theorem count_insert {fields : Fields κ β} {k k' : κ} (v : β) (h : fields.lookup k' = none) :
    ((fields.insert k' v).lookup k).toList.length =
      (fields.lookup k).toList.length + (if k' = k then some v else none : Option β).toList.length := by
  by_cases hk : k' = k
  · subst hk
    simp [h]
  · simp [hk, AList.lookup_insert_ne (Ne.symm hk)]

theorem foldlM_accepts (hs : Reads entry step) : ∀ (ls : List γ) (fields : Fields κ β),
    (∃ fields', ls.foldlM step fields = .ok fields') ↔ Accepts entry fields ls
  | [], fields => by
    have hone (k : κ) : (fields.lookup k).toList.length ≤ 1 := by
      cases fields.lookup k <;> simp
    simp [Accepts, values, hone, pure, Except.pure]
  | l :: ls, fields => by
    rw [List.foldlM_cons]
    unfold Accepts
    simp only [List.forall_mem_cons, values_cons, List.length_append]
    cases he : entry l with
    | none =>
      obtain ⟨e, hstep⟩ := hs.refused fields he
      simp [hstep, bind, Except.bind]
    | some found =>
      cases found with
      | none =>
        have ih := foldlM_accepts hs ls fields
        rw [hs.skipped fields he]
        simp only [valueOf_none (.inr he)]
        simpa [Accepts, bind, Except.bind] using ih
      | some kv =>
        obtain ⟨k, v⟩ := kv
        simp only [valueOf_some he]
        cases hl : fields.lookup k with
        | some v' =>
          -- a second value for the name is refused
          obtain ⟨e, hstep⟩ := hs.again he hl
          simp only [hstep, bind, Except.bind, reduceCtorEq, exists_false, false_iff, not_and, not_forall]
          intro _
          refine ⟨k, ?_⟩
          rw [hl, if_pos rfl, Option.toList_some, Option.toList_some, List.length_singleton,
            List.length_singleton]
          omega
        | none =>
          have ih := foldlM_accepts hs ls (fields.insert k v)
          rw [hs.fresh he hl]
          show (∃ fields', ls.foldlM step (fields.insert k v) = .ok fields') ↔ _
          rw [ih, Accepts]
          simp only [count_insert v hl, ne_eq, reduceCtorEq, not_false_eq_true, true_and, Nat.add_assoc]

theorem foldlM_lookup (hs : Reads entry step) : ∀ {ls : List γ} {fields fields' : Fields κ β},
    ls.foldlM step fields = .ok fields' → ∀ k,
      fields'.lookup k = (fields.lookup k).or (values entry k ls).head?
  | [], fields, fields', h, k => by
    cases h
    simp [values]
  | l :: ls, fields, fields', h, k => by
    rw [List.foldlM_cons] at h
    rw [values_cons]
    cases he : entry l with
    | none =>
      obtain ⟨e, hstep⟩ := hs.refused fields he
      rw [hstep] at h
      cases h
    | some found =>
      cases found with
      | none =>
        rw [hs.skipped fields he] at h
        rw [valueOf_none (.inr he)]
        exact foldlM_lookup hs h k
      | some kv =>
        obtain ⟨k', v⟩ := kv
        rw [valueOf_some he]
        cases hl : fields.lookup k' with
        | some v' =>
          obtain ⟨e, hstep⟩ := hs.again he hl
          rw [hstep] at h
          cases h
        | none =>
          rw [hs.fresh he hl] at h
          rw [foldlM_lookup hs h k]
          by_cases hk : k' = k
          · subst hk
            simp [hl]
          · simp [hk, AList.lookup_insert_ne (Ne.symm hk)]

/-- From the empty table on: each name has the value its line gives it. -/
theorem lookup_read (hs : Reads entry step) {ls : List γ} {fields : Fields κ β}
    (h : ls.foldlM step ∅ = .ok fields) (k : κ) : fields.lookup k = (values entry k ls).head? := by
  rw [foldlM_lookup hs h k, AList.lookup_empty, Option.none_or]

theorem accepts_empty (ls : List γ) : Accepts entry ∅ ls ↔
    (∀ l ∈ ls, entry l ≠ none) ∧ ∀ k, (values entry k ls).length ≤ 1 := by
  simp [Accepts]

def matters (entry : Entry κ β γ) (l : γ) : Bool :=
  match entry l with
  | some none => false
  | _ => true

omit [DecidableEq κ] in
theorem entry_of_not_matters {l : γ} (h : ¬ matters entry l = true) : entry l = some none := by
  unfold matters at h
  split at h
  · assumption
  · exact absurd rfl h

theorem values_matters (k : κ) (ls : List γ) :
    values entry k (ls.filter (matters entry)) = values entry k ls := by
  induction ls with
  | nil => rfl
  | cons l ls ih =>
    rw [values_cons]
    by_cases hl : matters entry l = true
    · rw [List.filter_cons_of_pos hl, values_cons, ih]
    · rw [List.filter_cons_of_neg hl, ih, valueOf_none (.inr (entry_of_not_matters hl))]
      rfl

omit [DecidableEq κ] in
theorem refused_matters (ls : List γ) : (∀ l ∈ ls, entry l ≠ none) ↔
    ∀ l ∈ ls.filter (matters entry), entry l ≠ none := by
  constructor
  · intro h l hl
    exact h l (List.mem_of_mem_filter hl)
  · intro h l hl hnone
    exact h l (List.mem_filter.mpr ⟨hl, by simp [matters, hnone]⟩) hnone

/-- Neither the order of the lines nor a line that is passed over matters. -/
theorem accepts_perm {ls ls' : List γ}
    (h : (ls.filter (matters entry)).Perm (ls'.filter (matters entry))) :
    (Accepts entry ∅ ls ↔ Accepts entry ∅ ls') ∧
      ∀ k, (values entry k ls).Perm (values entry k ls') := by
  have hperm (k : κ) : (values entry k ls).Perm (values entry k ls') := by
    rw [← values_matters k ls, ← values_matters k ls']
    exact h.filterMap _
  refine ⟨?_, hperm⟩
  rw [accepts_empty, accepts_empty, refused_matters ls, refused_matters ls']
  simp only [(hperm _).length_eq, h.mem_iff]

end

end FieldTable
