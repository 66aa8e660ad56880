import Reconcile.Proofs.Room.Cross
import Reconcile.Proofs.Weight

/-! Crossing lists of room changes comes to an end. A crossing may turn one change into two, but
then it drops the other side: additions and deletions weigh two, restorations and withdrawals one,
and a crossing loses weight unless it leaves both sides as they are. -/

namespace Reconcile.Room

open Reconcile.Algebra (Path path_cons path_nil path_singleton applies_iff)

def Change.weight : Change → Nat
  | .add _ _ | .delete _ => 2
  | .restore _ | .withdraw _ _ => 1

theorem Change.weight_pos (c : Change) : 0 < c.weight := by
  cases c <;> simp [weight]

theorem Change.weight_le (c : Change) : c.weight ≤ 2 := by
  cases c <;> simp [weight]

theorem weight_crossSame {l r : Change} {d : Diamond Change} (crossed : l.crossSame r = .ok d) :
    total Change.weight d.left + total Change.weight d.right < l.weight + r.weight := by
  cases l <;> cases r <;> simp only [Change.crossSame] at crossed <;> (try split at crossed) <;>
    cases crossed <;> simp [Change.weight]

theorem lighter_cross {l r : Change} {d : Diamond Change} (crossed : algebra.cross l r = .ok d) :
    Lighter Change.weight [l] [r] d := by
  rcases keyed.cross_cases crossed with ⟨-, crossed⟩ | ⟨-, rfl⟩
  · have lost := weight_crossSame (single_cross.1 crossed)
    left
    simpa only [total_cons, total_nil, Nat.add_zero] using lost
  · right
    rfl

theorem toOpError_ne_unfinished (f : Fault) : f.toOpError ≠ .unfinished := by
  cases f <;> simp [Fault.toOpError]

theorem cross_ne_unfinished (l r : Change) : algebra.cross l r ≠ .error .unfinished :=
  mapError_ne_error toOpError_ne_unfinished

theorem algebra_deep : algebra.Deep := fun _ _ => Nat.le_refl _

theorem transform_ne_unfinished (left right : List Change) :
    algebra.transform left right ≠ .error .unfinished :=
  algebra_deep.transform_ne_unfinished_of_lighter Change.weight_pos Change.weight_le
    (fun _ _ _ => lighter_cross) cross_ne_unfinished left right

theorem exists_cross {dir dirL dirR : Directory} {l r : Change}
    (hl : algebra.apply dir l = .ok dirL) (hr : algebra.apply dir r = .ok dirR) :
    ∃ d, algebra.cross l r = .ok d := by
  by_cases same : l.id = r.id
  · obtain ⟨roomL, atL, -⟩ := keyed.apply_eq_ok.1 hl
    obtain ⟨roomR, atR, -⟩ := keyed.apply_eq_ok.1 hr
    rw [← same] at atR
    obtain ⟨d, -, crossed, -⟩ := exists_crossSame (single_apply.1 atL) (single_apply.1 atR)
    exact ⟨d, by rw [keyed.cross same]; exact single_cross.2 crossed⟩
  · exact ⟨_, keyed.cross_of_ne same⟩

/-- Changes that apply to a common directory always cross, and either order leads to the same
directory. -/
theorem directories_converge {dir dirL dirR : Directory} {left right : List Change}
    (hl : algebra.applyAll dir left = .ok dirL) (hr : algebra.applyAll dir right = .ok dirR) :
    ∃ d merged, algebra.transform left right = .ok d ∧
      algebra.applyAll dir (left ++ d.right) = .ok merged ∧
      algebra.applyAll dir (right ++ d.left) = .ok merged := by
  obtain ⟨d, crossed⟩ := joins.transform_ok_of_cross exists_cross algebra_idle
    (transform_ne_unfinished left right) (applies_iff.2 hl) (applies_iff.2 hr)
  obtain ⟨merged, viaLeft, viaRight⟩ := joins.converge algebra_idle crossed hl hr
  exact ⟨d, merged, crossed, viaLeft, viaRight⟩

theorem directories_converge_on_rivals :
    ∃ d merged, algebra.transform [.add "lobby" ∅, .delete "lobby"] [.add "lobby" {"ada"}] = .ok d ∧
      algebra.applyAll ∅ ([.add "lobby" ∅, .delete "lobby"] ++ d.right) = .ok merged ∧
      algebra.applyAll ∅ ([.add "lobby" {"ada"}] ++ d.left) = .ok merged := by
  have applied : algebra.applyAll ∅ [.add "lobby" ∅, .delete "lobby"] =
      .ok (put ∅ "lobby" (some ⟨∅, true⟩)) := by rfl
  have rival : algebra.applyAll ∅ [.add "lobby" {"ada"}] =
      .ok (put ∅ "lobby" (some ⟨{"ada"}, false⟩)) := by rfl
  exact directories_converge applied rival

end Reconcile.Room
