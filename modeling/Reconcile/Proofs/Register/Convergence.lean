import Reconcile.Proofs.Register
import Reconcile.Proofs.Tiling
import Reconcile.Proofs.Weight

/-! Lists of writes always cross, and since the greater value stays on whichever side it is, it does
not matter which of the two lists is committed first. -/

namespace Reconcile.Register

open Reconcile.Algebra (applies_iff)
open Text (Quoted)

variable {K V : Type} [Ord V] {l r : Write K V} {d : Diamond (Write K V)}

inductive Crossed (l r : Write K V) : Diamond (Write K V) → Prop
  | apart (different : l.key ≠ r.key) : Crossed l r (.unchanged l r)
  | agree (same : l.key = r.key) (before : l.before = r.before) (after : l.after = r.after) :
      Crossed l r ⟨[], []⟩
  | keepLeft (same : l.key = r.key) (before : l.before = r.before)
      (greater : compare l.after r.after = .gt) :
      Crossed l r ⟨[⟨l.key, r.after, l.after⟩], []⟩
  | keepRight (same : l.key = r.key) (before : l.before = r.before)
      (greater : compare r.after l.after = .gt) :
      Crossed l r ⟨[], [⟨l.key, l.after, r.after⟩]⟩

theorem Crossed.swap (h : Crossed l r d) : Crossed r l d.swap := by
  cases h with
  | apart different => exact .apart (Ne.symm different)
  | agree same before after => exact .agree same.symm before.symm after.symm
  | keepLeft same before greater => exact same ▸ .keepRight same.symm before.symm greater
  | keepRight same before greater => exact same ▸ .keepLeft same.symm before.symm greater

theorem Crossed.lighter (h : Crossed l r d) : Lighter (fun _ => 1) [l] [r] d := by
  cases h with
  | apart different => exact .inr rfl
  | agree same before after => exact .inl (by simp)
  | keepLeft same before greater => exact .inl (by simp)
  | keepRight same before greater => exact .inl (by simp)

variable [Std.TransOrd V] [Std.LawfulEqOrd V]

theorem compare_gt_of_ne (different : l.after ≠ r.after)
    (notGreater : compare l.after r.after ≠ .gt) : compare r.after l.after = .gt := by
  have notEqual : compare l.after r.after ≠ .eq := fun h =>
    different (Std.LawfulEqOrd.compare_eq_iff_eq.1 h)
  rw [Std.OrientedCmp.gt_iff_lt]
  cases h : compare l.after r.after with
  | lt => rfl
  | eq => exact absurd h notEqual
  | gt => exact absurd h notGreater

theorem exists_crossed (related : l.key = r.key → l.before = r.before) : ∃ d, Crossed l r d := by
  by_cases same : l.key = r.key
  · have before := related same
    by_cases after : l.after = r.after
    · exact ⟨_, .agree same before after⟩
    · by_cases greater : compare l.after r.after = .gt
      · exact ⟨_, .keepLeft same before greater⟩
      · exact ⟨_, .keepRight same before (compare_gt_of_ne after greater)⟩
  · exact ⟨_, .apart same⟩

variable [DecidableEq K] [DecidableEq V]

theorem cross_eq_ok : l.cross r = .ok d ↔ Crossed l r d := by
  simp only [Write.cross]
  constructor
  · intro h
    split at h
    · rename_i different
      obtain rfl := Except.ok.inj h
      exact .apart different
    · rename_i same
      have same := not_not.1 same
      split at h
      · cases h
      · rename_i before
        have before := not_not.1 before
        split at h
        · rename_i after
          obtain rfl := Except.ok.inj h
          exact .agree same before after
        · rename_i different
          split at h
          · rename_i greater
            obtain rfl := Except.ok.inj h
            exact .keepLeft same before greater
          · rename_i notGreater
            obtain rfl := Except.ok.inj h
            exact .keepRight same before (compare_gt_of_ne different notGreater)
  · intro h
    cases h with
    | apart different => rw [if_pos different]
    | agree same before after =>
      rw [if_neg (not_not_intro same), if_neg (not_not_intro before), if_pos after]
    | keepLeft same before greater =>
      have different : l.after ≠ r.after := fun equal => by simp [equal] at greater
      rw [if_neg (not_not_intro same), if_neg (not_not_intro before), if_neg different,
        if_pos greater]
    | keepRight same before greater =>
      have different : l.after ≠ r.after := fun equal => by simp [equal] at greater
      have less : compare l.after r.after = .lt := Std.OrientedCmp.gt_iff_lt.1 greater
      rw [if_neg (not_not_intro same), if_neg (not_not_intro before), if_neg different,
        if_neg (by simp [less])]

variable [Ord K] [Std.TransOrd K] [Quoted K] [Quoted V]

theorem algebra_cross : (algebra K V).cross l r = .ok d ↔ Crossed l r d :=
  mapError_eq_ok.trans cross_eq_ok

omit [Std.TransOrd V] [Std.LawfulEqOrd V] in
theorem cross_ne_unfinished (l r : Write K V) :
    (algebra K V).cross l r ≠ .error .unfinished :=
  mapError_ne_error fun fault => by cases fault <;> simp [Fault.toOpError]

theorem transform_ne_unfinished (left right : List (Write K V)) :
    (algebra K V).transform left right ≠ .error .unfinished :=
  have deep : (algebra K V).Deep := fun _ _ => Nat.le_refl _
  deep.transform_ne_unfinished_of_lighter (fun _ => Nat.zero_lt_one) (fun _ => by omega)
    (fun _ _ _ crossed => (algebra_cross.1 crossed).lighter) cross_ne_unfinished left right

theorem exists_cross {held heldL heldR : Registers K V}
    (hl : (algebra K V).apply held l = .ok heldL) (hr : (algebra K V).apply held r = .ok heldR) :
    ∃ d, (algebra K V).cross l r = .ok d := by
  obtain ⟨v, atL, -⟩ := keyed.apply_eq_ok.1 hl
  obtain ⟨w, atR, -⟩ := keyed.apply_eq_ok.1 hr
  have beforeL := (single_apply.1 atL).1
  have beforeR := (single_apply.1 atR).1
  have related : l.key = r.key → l.before = r.before := by
    intro same
    rw [← beforeL, ← beforeR, same]
  obtain ⟨d, crossed⟩ := exists_crossed related
  exact ⟨d, algebra_cross.2 crossed⟩

variable [Std.LawfulEqOrd K]

/-- Writes that apply to common registers always cross, either order leads to the same registers,
and committing the other list first only exchanges the sides. -/
theorem registers_converge {held heldL heldR : Registers K V} {left right : List (Write K V)}
    (hl : (algebra K V).applyAll held left = .ok heldL)
    (hr : (algebra K V).applyAll held right = .ok heldR) :
    ∃ d merged, (algebra K V).transform left right = .ok d ∧
      (algebra K V).transform right left = .ok d.swap ∧
      (algebra K V).applyAll held (left ++ d.right) = .ok merged ∧
      (algebra K V).applyAll held (right ++ d.left) = .ok merged := by
  have idle : (algebra K V).EmptyIdle := keyed.emptyIdle single_idle
  have pathL := applies_iff.2 hl
  have pathR := applies_iff.2 hr
  obtain ⟨d, forth⟩ := joins.transform_ok_of_cross exists_cross idle
    (transform_ne_unfinished left right) pathL pathR
  obtain ⟨e, back⟩ := joins.transform_ok_of_cross exists_cross idle
    (transform_ne_unfinished right left) pathR pathL
  have mirrored : e = d.swap := Algebra.transform_swap
    (fun l r d crossed => algebra_cross.2 (algebra_cross.1 crossed).swap) forth back
  obtain ⟨merged, viaLeft, viaRight⟩ := joins.converge idle forth hl hr
  exact ⟨d, merged, forth, mirrored ▸ back, viaLeft, viaRight⟩

theorem registers_converge_on_chains :
    let held : Registers String Int := put (put ∅ "a" (some 1)) "b" (some 5)
    let left : List (Write String Int) := [⟨"a", some 1, some 9⟩, ⟨"a", some 9, some 2⟩,
      ⟨"c", none, some 4⟩]
    let right : List (Write String Int) := [⟨"b", some 5, none⟩, ⟨"a", some 1, some 3⟩]
    ∃ d merged, (algebra String Int).transform left right = .ok d ∧
      (algebra String Int).transform right left = .ok d.swap ∧
      (algebra String Int).applyAll held (left ++ d.right) = .ok merged ∧
      (algebra String Int).applyAll held (right ++ d.left) = .ok merged := by
  intro held left right
  have onLeft : (algebra String Int).applyAll held left =
      .ok (put (put held "a" (some 2)) "c" (some 4)) := by decide +kernel
  have onRight : (algebra String Int).applyAll held right =
      .ok (put (put held "b" none) "a" (some 3)) := by decide +kernel
  exact registers_converge onLeft onRight

end Reconcile.Register
