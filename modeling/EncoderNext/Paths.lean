import EncoderNext.LineFile

/-!
# Names that lead into a directory

A name is a list of steps between slashes. Read step by step from a directory it
leads some way down, and a `..` leads back up. A file lies directly inside the
directory if its name spells the directory first, never leads above it again and
ends one step below.
-/

namespace EncoderNext

namespace Path

def slash : UInt8 := byte '/'

def isAbsolute (name : Bytes) : Bool := name.head? == some slash

def steps (name : Bytes) : List Bytes := (parts slash name).filter fun s => s ≠ [] ∧ s ≠ bytes "."

/-- How far below its start a walk ends, unless it leads above it on the way. -/
def depth : Nat → List Bytes → Option Nat
  | n, [] => some n
  | n, s :: rest =>
    if s = bytes ".." then
      match n with
      | 0 => none
      | n + 1 => depth n rest
    else depth (n + 1) rest

/-- The file system sees a name up to its first zero byte. -/
def opened (name : Bytes) : Bytes := name.takeWhile (· ≠ 0)

def Inside (dir name : Bytes) : Prop :=
  isAbsolute name = isAbsolute dir ∧ ∃ rest, steps name = steps dir ++ rest ∧ depth 0 rest = some 1

def Fits (dir name : Bytes) : Prop :=
  0 ∉ dir ∧ if isAbsolute name then Inside dir (opened name) else depth 0 (steps (opened name)) = some 1

theorem inside_iff {dir name : Bytes} : Inside dir name ↔ isAbsolute name = isAbsolute dir ∧
    steps dir <+: steps name ∧ depth 0 ((steps name).drop (steps dir).length) = some 1 := by
  constructor
  · rintro ⟨habs, rest, hsteps, hdepth⟩
    rw [hsteps, List.drop_left]
    exact ⟨habs, List.prefix_append _ _, hdepth⟩
  · rintro ⟨habs, ⟨rest, hsteps⟩, hdepth⟩
    rw [← hsteps, List.drop_left] at hdepth
    exact ⟨habs, rest, hsteps.symm, hdepth⟩

instance (dir name : Bytes) : Decidable (Inside dir name) := decidable_of_iff' _ inside_iff

instance (dir name : Bytes) : Decidable (Fits dir name) := inferInstanceAs (Decidable (_ ∧ _))

/-! ## Steps -/

theorem steps_of_not_mem {name : Bytes} (h : slash ∉ name) (rest : Bytes) :
    steps (name ++ slash :: rest) = steps name ++ steps rest := by
  unfold steps
  rw [parts_append h]
  by_cases hname : name = []
  · simp [hname, parts]
  · rw [parts_last h hname, ← List.filter_append]
    rfl

theorem steps_append (name rest : Bytes) :
    steps (name ++ slash :: rest) = steps name ++ steps rest := by
  by_cases h : slash ∈ name
  · obtain ⟨first, last, rfl, hfirst⟩ := List.eq_append_cons_of_mem h
    have ih := steps_append last rest
    rw [List.append_assoc, List.cons_append, steps_of_not_mem hfirst, ih, steps_of_not_mem hfirst,
      List.append_assoc]
  · exact steps_of_not_mem h rest
termination_by name.length

theorem mem_step {name s : Bytes} {c : UInt8} (hs : s ∈ steps name) (hc : c ∈ s) : c ∈ name :=
  mem_of_mem_parts (List.mem_filter.mp hs).1 hc

theorem exists_step {name : Bytes} {c : UInt8} (hc : c ∈ name) (hslash : c ≠ slash)
    (hdot : c ≠ byte '.') : ∃ s ∈ steps name, c ∈ s := by
  obtain ⟨s, hs, hcs⟩ := exists_part hc hslash
  refine ⟨s, List.mem_filter.mpr ⟨hs, ?_⟩, hcs⟩
  have hne : s ≠ [] := List.ne_nil_of_mem hcs
  have hndot : s ≠ bytes "." := by
    rintro rfl
    exact hdot (List.mem_singleton.mp hcs)
  simpa using ⟨hne, hndot⟩

/-! ## What is opened -/

theorem not_mem_opened (name : Bytes) : 0 ∉ opened name := by
  intro h
  simpa using List.mem_takeWhile_imp h

theorem opened_append {dir : Bytes} (h : 0 ∉ dir) (name : Bytes) :
    opened (dir ++ name) = dir ++ opened name :=
  List.takeWhile_append_of_pos fun c hc => by simpa using fun h0 : c = 0 => h (h0 ▸ hc)

theorem opened_of_not_mem {name : Bytes} (h : 0 ∉ name) : opened name = name := by
  simpa [opened] using opened_append h []

theorem isAbsolute_opened (name : Bytes) : isAbsolute (opened name) = isAbsolute name := by
  cases name with
  | nil => rfl
  | cons c name =>
    by_cases h : c = 0
    · subst h
      rfl
    · simp [opened, isAbsolute, h]

/-! ## A name below the directory -/

theorem not_mem_of_inside {dir name : Bytes} (h : Inside dir (opened name)) : 0 ∉ dir := by
  intro hdir
  obtain ⟨-, rest, hsteps, -⟩ := h
  obtain ⟨s, hs, h0⟩ := exists_step hdir (by decide) (by decide)
  have hmem : s ∈ steps (opened name) := hsteps ▸ List.mem_append_left rest hs
  exact not_mem_opened name (mem_step hmem h0)

theorem inside_of_steps {dir name path : Bytes} (habs : isAbsolute path = isAbsolute dir)
    (hsteps : steps path = steps dir ++ steps name) :
    Inside dir path ↔ depth 0 (steps name) = some 1 := by
  constructor
  · rintro ⟨-, rest, hrest, hdepth⟩
    have hsame : steps name = rest := List.append_cancel_left (hsteps.symm.trans hrest)
    rwa [hsame]
  · exact fun h => ⟨habs, steps name, hsteps, h⟩

theorem fits_of_step {dir name : Bytes} (hdir : 0 ∉ dir) (h0 : 0 ∉ name) (hslash : slash ∉ name)
    (hne : name ≠ []) (hdot : name ≠ bytes ".") (hup : name ≠ bytes "..") : Fits dir name := by
  have hstep : steps name = [name] := by
    rw [steps, parts_last hslash hne]
    simp [hne, hdot]
  have habs : isAbsolute name = false := by
    cases name with
    | nil => rfl
    | cons c name =>
      have hc : c ≠ slash := fun h => hslash (h ▸ List.mem_cons_self)
      simpa [isAbsolute] using hc
  refine ⟨hdir, ?_⟩
  rw [if_neg (by simp [habs]), opened_of_not_mem h0, hstep, depth, if_neg hup]
  rfl

end Path

end EncoderNext
