import Reconcile.Proofs.Domain
import Reconcile.Proofs.Register.Convergence
import Reconcile.Proofs.Room.Convergence
import Reconcile.Proofs.Text.Convergence

/-! How far states can grow. A position in a text is a number of 64 bits, so texts cross only as
long as all that is inserted into them stays within that; rooms and registers have no such limit.
What is said here of single operations carries over to lists, so that what a queue adds can be
followed through any number of crossings. -/

namespace Reconcile

variable {σ op : Type}

/-- How large a state is, and how much an operation can enlarge it. -/
structure Gauge (σ op : Type) where
  size : σ → Nat
  added : op → Nat

namespace Gauge

def unlimited : Gauge σ op := ⟨fun _ => 0, fun _ => 0⟩

def Holds (g : Gauge σ op) (s : σ) (ops : List op) : Prop :=
  g.size s + total g.added ops < Width.values64

instance (g : Gauge σ op) (s : σ) (ops : List op) : Decidable (g.Holds s ops) :=
  inferInstanceAs (Decidable (_ < _))

theorem total_unlimited (ops : List op) : total (unlimited : Gauge σ op).added ops = 0 := by
  have none := total_le_mul (unlimited : Gauge σ op).added ops fun _ => Nat.le_refl 0
  omega

theorem holds_unlimited (s : σ) (ops : List op) : unlimited.Holds s ops := by
  rw [Holds, total_unlimited]
  change 0 + 0 < Width.values64
  decide

end Gauge

namespace Algebra

variable {a : Algebra σ op} {g : Gauge σ op}

/-- Applying enlarges a state by no more than the operation adds, crossing makes no operation add
more, and operations that apply to a common state cross as long as there is room for all of them. -/
structure Measured (a : Algebra σ op) (g : Gauge σ op) : Prop where
  apply_le : ∀ {s t o}, a.apply s o = .ok t → g.size t ≤ g.size s + g.added o
  cross_le : ∀ l r d, a.cross l r = .ok d →
    total g.added d.left ≤ g.added l ∧ total g.added d.right ≤ g.added r
  crosses : ∀ {s sl sr left right}, g.Holds s (left ++ right) → a.applyAll s left = .ok sl →
    a.applyAll s right = .ok sr → ∃ d, a.transform left right = .ok d

theorem Measured.applyAll_le (measured : a.Measured g) {s t : σ} {ops : List op}
    (applied : a.applyAll s ops = .ok t) : g.size t ≤ g.size s + total g.added ops := by
  induction ops generalizing s with
  | nil =>
    obtain rfl := Except.ok.inj applied
    exact Nat.le_refl _
  | cons o ops ih =>
    obtain ⟨u, first, rest⟩ := bind_eq_ok.1 applied
    have grown := measured.apply_le first
    have := ih rest
    simp only [total_cons]
    omega

theorem Measured.transform_le (measured : a.Measured g) {left right : List op} {d : Diamond op}
    (crossed : a.transform left right = .ok d) :
    total g.added d.left ≤ total g.added left ∧ total g.added d.right ≤ total g.added right := by
  obtain ⟨onLeft, onRight⟩ := (grid_of_transform crossed).total_le measured.cross_le
  exact ⟨Nat.le_trans onLeft (total_filter_le ..), Nat.le_trans onRight (total_filter_le ..)⟩

theorem measured_unlimited
    (crosses : ∀ {s sl sr left right}, a.applyAll s left = .ok sl → a.applyAll s right = .ok sr →
      ∃ d, a.transform left right = .ok d) : a.Measured .unlimited where
  apply_le _ := Nat.le_refl 0
  cross_le _ _ d _ := by simp only [Gauge.total_unlimited, Nat.zero_le, and_self]
  crosses _ hl hr := crosses hl hr

end Algebra

open Reconcile.Algebra (applies_iff)

namespace Text

def gauge : Gauge Document Edit := ⟨List.length, Edit.added⟩

theorem measured : algebra.Measured gauge where
  apply_le := Edit.length_apply_le
  cross_le := Edit.cross_added_le
  crosses {doc docL docR left right} holds hl hr := by
    have fits : Fits doc left right := by
      simp only [Gauge.Holds, gauge, total_append] at holds
      simp only [Fits, positionLimit]
      omega
    exact fits.exists_transform hl hr

end Text

theorem Room.measured : Room.algebra.Measured .unlimited :=
  Algebra.measured_unlimited fun hl hr =>
    joins.transform_ok_of_cross exists_cross algebra_idle (transform_ne_unfinished _ _)
      (applies_iff.2 hl) (applies_iff.2 hr)

theorem Register.measured {K V : Type} [Ord K] [Std.TransOrd K] [Std.LawfulEqOrd K] [DecidableEq K]
    [Text.Quoted K] [Ord V] [Std.TransOrd V] [Std.LawfulEqOrd V] [DecidableEq V] [Text.Quoted V] :
    (Register.algebra K V).Measured .unlimited :=
  Algebra.measured_unlimited fun hl hr =>
    joins.transform_ok_of_cross exists_cross (keyed.emptyIdle single_idle)
      (transform_ne_unfinished _ _) (applies_iff.2 hl) (applies_iff.2 hr)

/-- The kinds of state that managers keep in step, each with what limits it. -/
inductive Limited : {σ op : Type} → Algebra σ op → Gauge σ op → Prop
  | text : Limited Text.algebra Text.gauge
  | rooms : Limited Room.algebra .unlimited
  | registers (K V : Type) [Ord K] [Std.TransOrd K] [Std.LawfulEqOrd K] [DecidableEq K]
      [Text.Quoted K] [Ord V] [Std.TransOrd V] [Std.LawfulEqOrd V] [DecidableEq V]
      [Text.Quoted V] : Limited (Register.algebra K V) .unlimited

namespace Limited

variable {a : Algebra σ op} {g : Gauge σ op}

theorem domain (limited : Limited a g) : Domain a := by
  cases limited with
  | text => exact .text
  | rooms => exact .rooms
  | registers K V => exact .registers K V

theorem lawful (limited : Limited a g) : a.Lawful := limited.domain.lawful

theorem measured (limited : Limited a g) : a.Measured g := by
  cases limited with
  | text => exact Text.measured
  | rooms => exact Room.measured
  | registers K V => exact Register.measured

theorem nonempty (limited : Limited a g) {s : σ} {o : op} (changed : a.changes s o = true) :
    a.isEmpty o = false := by
  cases limited with
  | text => exact Text.changes_eq_true.1 changed
  | rooms => rfl
  | registers K V => simpa [Register.algebra] using changed

end Limited

end Reconcile
