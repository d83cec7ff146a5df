import Mathlib.Logic.Function.Basic
import Mathlib.Logic.Relation
import EncoderNext.Program

/-!
# Many programs over one world

Programs start under names, make their calls in any order, and may be stopped between any two of
them. `steady` is what one of them promises while the others act: each call keeps the invariant, and
moves the world only as every other one can bear.
-/

namespace Program

section
variable {P W C : Type} {R : C → Type} {α β : Type}

/-- The world, and what is left of each program that runs. -/
structure Pool (P W C : Type) (R : C → Type) (α : Type) where
  world : W
  left : P → Option (Program C R α)

variable [DecidableEq P] (env : P → Env W C R) (program : P → Program C R α) (gone : P → W → W)

def Pool.set (s : Pool P W C R α) (p : P) (w : W) (x : Option (Program C R α)) : Pool P W C R α :=
  ⟨w, Function.update s.left p x⟩

inductive PoolStep : Pool P W C R α → Pool P W C R α → Prop where
  | start {s : Pool P W C R α} {p : P} : s.left p = none →
      PoolStep s (s.set p s.world (some (program p)))
  | call {s : Pool P W C R α} {p : P} {c : C} {k : R c → Program C R α} {r : R c} {w : W} :
      s.left p = some (.call c k) → env p s.world c r w → PoolStep s (s.set p w (some (k r)))
  /-- At its end, or anywhere before. -/
  | stop {s : Pool P W C R α} {p : P} {x : Program C R α} : s.left p = some x →
      PoolStep s (s.set p (gone p s.world) none)

def PoolRuns : Pool P W C R α → Pool P W C R α → Prop :=
  Relation.ReflTransGen (PoolStep env program gone)

variable (I : W → Prop) (rely : P → W → W → Prop)

/-- Every call keeps `I`, and moves the world as the others rely on; the end is in `Q`. -/
def steady (p : P) (Q : α → W → Prop) : Program C R α → W → Prop
  | done a, w => Q a w
  | call c k, w => ∀ w₁, rely p w w₁ → I w₁ → ∀ r w₂, env p w₁ c r w₂ →
      I w₂ ∧ (∀ q, q ≠ p → rely q w₁ w₂) ∧ steady p Q (k r) w₂

variable {env program gone I rely} {p : P} {Q : α → W → Prop}

omit [DecidableEq P] in
theorem steady_ask_bind {Q : β → W → Prop} (c : C) (f : R c → Program C R β) (w : W) :
    steady env I rely p Q (ask c >>= f) w ↔ ∀ w₁, rely p w w₁ → I w₁ → ∀ r w₂, env p w₁ c r w₂ →
      I w₂ ∧ (∀ q, q ≠ p → rely q w₁ w₂) ∧ steady env I rely p Q (f r) w₂ := Iff.rfl

omit [DecidableEq P] in
theorem steady_bind {Q : β → W → Prop} (f : α → Program C R β) : ∀ (x : Program C R α) (w : W),
    steady env I rely p Q (x >>= f) w ↔
      steady env I rely p (fun a w => steady env I rely p Q (f a) w) x w
  | done _, _ => Iff.rfl
  | call _ k, _ => by
    refine forall_congr' fun w₁ => imp_congr_right fun _ => imp_congr_right fun _ => ?_
    refine forall_congr' fun r => forall_congr' fun w₂ => imp_congr_right fun _ => ?_
    exact and_congr_right fun _ => and_congr_right fun _ => steady_bind f (k r) w₂

omit [DecidableEq P] in
theorem steady_mono {Q' : α → W → Prop} (hQ : ∀ a w, Q a w → Q' a w) : ∀ {x : Program C R α} {w : W},
    steady env I rely p Q x w → steady env I rely p Q' x w
  | done a, w, h => hQ a w h
  | call _ _, _, h => fun w₁ hw hI r w₂ he =>
    let ⟨hkeep, hothers, hrest⟩ := h w₁ hw hI r w₂ he
    ⟨hkeep, hothers, steady_mono hQ hrest⟩

omit [DecidableEq P] in
theorem steady_rely (htrans : ∀ w₁ w₂ w₃, rely p w₁ w₂ → rely p w₂ w₃ → rely p w₁ w₃)
    (hQ : ∀ a w w', Q a w → rely p w w' → Q a w') {x : Program C R α} {w w' : W}
    (h : steady env I rely p Q x w) (hw : rely p w w') : steady env I rely p Q x w' := by
  cases x with
  | done a => exact hQ a w w' h hw
  | call c k => exact fun w₁ hw₁ => h w₁ (htrans w w' w₁ hw hw₁)

def Stands (env : P → Env W C R) (I : W → Prop) (rely : P → W → W → Prop) (idle : P → W → Prop)
    (Q : P → α → W → Prop) (p : P) (x : Option (Program C R α)) (w : W) : Prop :=
  match x with
  | none => idle p w
  | some x => steady env I rely p (Q p) x w

theorem Pool.set_self {s : Pool P W C R α} {x : Option (Program C R α)} (h : s.left p = x) :
    s.set p s.world x = s := by
  unfold Pool.set
  rw [← h, Function.update_eq_self]

theorem Pool.set_set (s : Pool P W C R α) (w w' : W) (x x' : Option (Program C R α)) :
    (s.set p w x).set p w' x' = s.set p w' x' := by
  simp [Pool.set]

variable (program gone) in
theorem poolRuns_of_runs {x : Program C R α} {w w' : W} {a : α} (h : Runs (env p) x w a w')
    (s : Pool P W C R α) (hworld : s.world = w) (hleft : s.left p = some x) :
    PoolRuns env program gone s (s.set p w' (some (done a))) := by
  induction h generalizing s with
  | done a w =>
    rw [← hworld, Pool.set_self hleft]
    exact .refl
  | @call c k w w₁ w₂ r b he _ ih =>
    rw [← hworld] at he
    have hnext : (s.set p w₁ (some (k r))).left p = some (k r) := by simp [Pool.set]
    have hrest := ih (s.set p w₁ (some (k r))) rfl hnext
    rw [Pool.set_set] at hrest
    exact .head (.call hleft he) hrest

section
variable {idle : P → W → Prop} {Q : P → α → W → Prop} (hrefl : ∀ p w, rely p w w)
  (htrans : ∀ p w₁ w₂ w₃, rely p w₁ w₂ → rely p w₂ w₃ → rely p w₁ w₃)
  (hidle : ∀ p w w', idle p w → rely p w w' → idle p w')
  (hQ : ∀ p a w w', Q p a w → rely p w w' → Q p a w')
include htrans hidle hQ

omit [DecidableEq P] in
theorem stands_rely {x : Option (Program C R α)} {w w' : W} (h : Stands env I rely idle Q p x w)
    (hw : rely p w w') : Stands env I rely idle Q p x w' := by
  cases x with
  | none => exact hidle p w w' h hw
  | some x => exact steady_rely (htrans p) (hQ p) h hw

theorem stands_set {s : Pool P W C R α} {w : W} {x : Option (Program C R α)}
    (h : ∀ q, Stands env I rely idle Q q (s.left q) s.world) (hp : Stands env I rely idle Q p x w)
    (hothers : ∀ q, q ≠ p → rely q s.world w) :
    ∀ q, Stands env I rely idle Q q ((s.set p w x).left q) w := by
  intro q
  by_cases hq : q = p
  · rw [hq]
    simpa [Pool.set] using hp
  · simp only [Pool.set, Function.update_of_ne hq]
    exact stands_rely htrans hidle hQ (h q) (hothers q hq)

variable (hstart : ∀ p w, I w → idle p w → steady env I rely p (Q p) (program p) w)
  (hgone : ∀ p w, I w → I (gone p w) ∧ idle p (gone p w) ∧ ∀ q, q ≠ p → rely q w (gone p w))
include hrefl hstart hgone

theorem pool_step {s s' : Pool P W C R α} (hstep : PoolStep env program gone s s') (hI : I s.world)
    (hs : ∀ p, Stands env I rely idle Q p (s.left p) s.world) :
    I s'.world ∧ ∀ p, Stands env I rely idle Q p (s'.left p) s'.world := by
  cases hstep with
  | @start p hleft =>
    have hp := hs p
    rw [hleft] at hp
    exact ⟨hI, stands_set htrans hidle hQ hs (hstart p _ hI hp) fun q _ => hrefl q _⟩
  | @call p c k r w hleft he =>
    have hp := hs p
    rw [hleft] at hp
    obtain ⟨hkeep, hothers, hrest⟩ := hp s.world (hrefl p _) hI r w he
    exact ⟨hkeep, stands_set htrans hidle hQ hs hrest hothers⟩
  | @stop p x hleft =>
    obtain ⟨hkeep, hend, hothers⟩ := hgone p s.world hI
    exact ⟨hkeep, stands_set htrans hidle hQ hs hend hothers⟩

variable (idle Q) in
/-- **Many programs at once.** Where each program promises what the others rely on, the invariant
outlasts every order of calls, starts and stops, and whoever is done is done as it promised. -/
theorem pool_keeps {s s' : Pool P W C R α} (hruns : PoolRuns env program gone s s') (hI : I s.world)
    (hs : ∀ p, Stands env I rely idle Q p (s.left p) s.world) :
    I s'.world ∧ ∀ p a, s'.left p = some (done a) → Q p a s'.world := by
  have hall : I s'.world ∧ ∀ p, Stands env I rely idle Q p (s'.left p) s'.world := by
    induction hruns with
    | refl => exact ⟨hI, hs⟩
    | tail _ hstep ih => exact pool_step hrefl htrans hidle hQ hstart hgone hstep ih.1 ih.2
  refine ⟨hall.1, fun p a hleft => ?_⟩
  have hp := hall.2 p
  rw [hleft] at hp
  exact hp

end

end

end Program
