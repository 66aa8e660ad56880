import Reconcile.Proofs.Text.Convergence
import Reconcile.Proofs.Text.Survivors
import Reconcile.Proofs.Tiling

/-! Two concurrent edits merge to what `merge` says. Every edit is a deletion followed by an insertion
at the same place, and either of them may be empty; so crossing two edits is crossing four pairs. By
the time that one insertion meets the other, each has been moved to its place among the characters
that survive both deletions. -/

namespace Reconcile.Text

open Reconcile.Algebra (path_nil path_singleton path_append)

variable {l r : Edit} {doc docL docR mid merged kept : Document} {p i j : Nat}
  {old t u : List Char} {d : Diamond Edit}

namespace Edit

def remainder (l r : Edit) : Edit :=
  if l.pos + l.removed.length ≤ r.pos then .delete l.pos l.removed
  else if r.pos + r.removed.length ≤ l.pos then .delete (l.pos - r.removed.length) l.removed
  else .delete (min l.pos r.pos)
    (l.removed.take (r.pos - l.pos) ++ l.removed.drop (r.pos + r.removed.length - l.pos))

theorem remainder_eq_delete (l r : Edit) :
    l.remainder r = .delete (l.remainder r).pos (l.remainder r).removed := by
  simp only [remainder]
  split
  · rfl
  · split <;> rfl

theorem remainder_of_left (nothing : l.removed = []) (r : Edit) :
    (l.remainder r).removed = [] := by
  simp only [remainder, nothing, List.take_nil, List.drop_nil, List.append_nil]
  split
  · rfl
  · split <;> rfl

theorem remainder_of_right (nothing : r.removed = []) (l : Edit) :
    l.remainder r = .delete l.pos l.removed := by
  simp only [remainder, nothing, List.length_nil, Nat.add_zero, Nat.sub_zero,
    List.take_append_drop]
  split
  · rfl
  · split
    · rfl
    · rw [Nat.min_eq_left (by omega)]

theorem collapse_delete (text : List Char) (p i : Nat) :
    (delete p text).collapse i = i - min text.length (i - p) := rfl

theorem collapse_remainder (l r : Edit) : (l.remainder r).collapse r.pos = l.collapse r.pos := by
  simp only [remainder]
  split
  · rfl
  · split
    · rw [collapse_delete, collapse]
      omega
    · rw [collapse_delete, collapse, List.length_append, List.length_take, List.length_drop]
      omega

theorem left_insert_insert (crossed : crossSimple (.insert i t) (.insert j u) = .ok d) :
    d.left = [.insert (if i < j then i else i + u.length) t] := by
  simp only [crossSimple] at crossed
  split at crossed
  · rename_i before
    obtain ⟨shifted, -, crossed⟩ := bind_eq_ok.1 crossed
    obtain rfl := Except.ok.inj crossed
    rw [if_pos before]
    rfl
  · rename_i after
    obtain ⟨shifted, hshifted, crossed⟩ := bind_eq_ok.1 crossed
    obtain ⟨-, rfl⟩ := shift_eq_ok.1 hshifted
    obtain rfl := Except.ok.inj crossed
    rw [if_neg after]
    rfl

theorem left_crossInsertDelete (crossed : crossInsertDelete i t p old = .ok d) :
    d.left = [.insert ((delete p old).collapse i) t] := by
  obtain ⟨shifted, -, crossed⟩ := bind_eq_ok.1 crossed
  rw [collapse_delete]
  split at crossed
  · rename_i before
    obtain rfl := Except.ok.inj crossed
    rw [Nat.sub_eq_zero_of_le before, Nat.min_zero, Nat.sub_zero]
    rfl
  · rename_i before
    obtain ⟨stop, hstop, crossed⟩ := bind_eq_ok.1 crossed
    obtain ⟨-, rfl⟩ := shift_eq_ok.1 hstop
    split at crossed
    · rename_i after
      obtain rfl := Except.ok.inj crossed
      rw [Nat.min_eq_left (by omega)]
      rfl
    · obtain rfl := Except.ok.inj crossed
      rw [Nat.min_eq_right (by omega), Nat.sub_sub_self (by omega)]

theorem left_insert_delete (deletes : r = .delete r.pos r.removed)
    (crossed : crossSimple (.insert i t) r = .ok d) : d.left = [.insert (r.collapse i) t] := by
  rw [deletes] at crossed ⊢
  exact left_crossInsertDelete crossed

theorem right_delete_insert (deletes : l = .delete l.pos l.removed)
    (crossed : crossSimple l (.insert j u) = .ok d) : d.right = [.insert (l.collapse j) u] := by
  rw [deletes] at crossed ⊢
  obtain ⟨swapped, hswapped, rfl⟩ := map_eq_ok.1 crossed
  exact left_crossInsertDelete hswapped

theorem crossSimple_deletions
    (crossed : crossSimple (.delete l.pos l.removed) (.delete r.pos r.removed) = .ok d) :
    d = .unchanged (l.remainder r) (r.remainder l) := by
  obtain ⟨left, hleft, crossed⟩ := bind_eq_ok.1 crossed
  obtain ⟨right, hright, crossed⟩ := bind_eq_ok.1 crossed
  obtain rfl := Except.ok.inj crossed
  obtain ⟨-, rfl⟩ := deleteAfter_eq_ok.1 hleft
  obtain ⟨-, rfl⟩ := deleteAfter_eq_ok.1 hright
  rfl

def filled (e : Edit) : List Edit := [e].filter (!isEmpty ·)

theorem filled_of_empty {e : Edit} (empty : e.isEmpty = true) : e.filled = [] := by
  simp [filled, empty]

theorem filled_of_nonempty {e : Edit} (nonempty : e.isEmpty = false) : e.filled = [e] := by
  simp [filled, nonempty]

theorem filter_expand (e : Edit) : e.expand.filter (!isEmpty ·) =
    (delete e.pos e.removed).filled ++ (insert e.pos e.inserted).filled := by
  cases e with
  | insert pos text => rfl
  | delete pos text => exact (List.append_nil _).symm
  | replace pos old new => exact List.filter_append [delete pos old] [insert pos new]

theorem path_filled {e : Edit} (plain : e.isReplace = false)
    (spliced : Splices doc e.pos e.removed e.inserted docL) :
    simpleAlgebra.Path (fun _ e => e.isReplace = false) doc e.filled docL := by
  have applied : simpleAlgebra.Path (fun _ e => e.isReplace = false) doc [e] docL :=
    path_singleton.2 ⟨simple_apply.2 spliced, plain⟩
  exact (applied.filter simple_idle).mono fun _ _ h => h.1

theorem splices_of_filled {e : Edit} (nonempty : e.isEmpty = false)
    (applied : simpleAlgebra.Applies doc e.filled docL) :
    Splices doc e.pos e.removed e.inserted docL := by
  rw [filled_of_nonempty nonempty] at applied
  exact applies_singleton.1 applied

theorem eq_of_filled_insertion (applied : simpleAlgebra.Applies kept (insert j u).filled mid) :
    mid = kept.take j ++ u ++ kept.drop j := by
  cases empty : (insert j u).isEmpty with
  | true =>
    rw [filled_of_empty empty] at applied
    rw [List.isEmpty_iff.1 empty, List.append_nil, List.take_append_drop]
    exact path_nil.1 applied
  | false => exact (splices_of_filled empty applied).eq_take_drop

theorem grid_filled (g : Diamond.Grid isEmpty simpleAlgebra.cross l.filled r.filled d) :
    (l.isEmpty = true ∧ d = ⟨[], r.filled⟩) ∨ (r.isEmpty = true ∧ d = ⟨l.filled, []⟩) ∨
      l.isEmpty = false ∧ r.isEmpty = false ∧
        ∃ e, crossSimple l r = .ok e ∧ d = e.prune isEmpty := by
  cases emptyL : l.isEmpty with
  | true =>
    rw [filled_of_empty emptyL] at g
    exact .inl ⟨rfl, Diamond.grid_nil_left g⟩
  | false =>
    cases emptyR : r.isEmpty with
    | true =>
      rw [filled_of_empty emptyR] at g
      exact .inr (.inl ⟨rfl, Diamond.grid_nil_right g⟩)
    | false =>
      rw [filled_of_nonempty emptyL, filled_of_nonempty emptyR] at g
      obtain ⟨e, crossed, rfl⟩ := Diamond.grid_singleton g
      exact .inr (.inr ⟨rfl, rfl, e, mapError_eq_ok.1 crossed, rfl⟩)

theorem removed_of_empty (empty : l.isEmpty = true) (deletes : l = .delete l.pos l.removed) :
    l.removed = [] := by
  rw [deletes] at empty
  exact List.isEmpty_iff.1 empty

theorem left_of_grid_insertion (deletes : r = .delete r.pos r.removed)
    (g : Diamond.Grid isEmpty simpleAlgebra.cross (insert i t).filled r.filled d) :
    d.left = (insert (r.collapse i) t).filled := by
  rcases grid_filled g with ⟨empty, rfl⟩ | ⟨empty, rfl⟩ | ⟨-, -, e, crossed, rfl⟩
  · have nothing : (insert (r.collapse i) t).isEmpty = true := empty
    exact (filled_of_empty nothing).symm
  · rw [collapse_eq_self (removed_of_empty empty deletes)]
  · simp only [Diamond.prune, left_insert_delete deletes crossed]
    rfl

theorem right_of_grid_insertion (deletes : l = .delete l.pos l.removed)
    (g : Diamond.Grid isEmpty simpleAlgebra.cross l.filled (insert j u).filled d) :
    d.right = (insert (l.collapse j) u).filled := by
  rcases grid_filled g with ⟨empty, rfl⟩ | ⟨empty, rfl⟩ | ⟨-, -, e, crossed, rfl⟩
  · rw [collapse_eq_self (removed_of_empty empty deletes)]
  · have nothing : (insert (l.collapse j) u).isEmpty = true := empty
    exact (filled_of_empty nothing).symm
  · simp only [Diamond.prune, right_delete_insert deletes crossed]
    rfl

theorem filled_remainder_of_empty (empty : (delete l.pos l.removed).isEmpty = true) (r : Edit) :
    (l.remainder r).filled = [] := by
  have nothing := remainder_of_left (List.isEmpty_iff.1 empty) r
  rw [remainder_eq_delete, nothing]
  rfl

theorem grid_deletions (g : Diamond.Grid isEmpty simpleAlgebra.cross
    (delete l.pos l.removed).filled (delete r.pos r.removed).filled d) :
    d.left = (l.remainder r).filled ∧ d.right = (r.remainder l).filled := by
  rcases grid_filled g with ⟨empty, rfl⟩ | ⟨empty, rfl⟩ | ⟨-, -, e, crossed, rfl⟩
  · rw [filled_remainder_of_empty empty, remainder_of_right (List.isEmpty_iff.1 empty)]
    exact ⟨rfl, rfl⟩
  · rw [filled_remainder_of_empty empty, remainder_of_right (List.isEmpty_iff.1 empty)]
    exact ⟨rfl, rfl⟩
  · rw [crossSimple_deletions crossed]
    exact ⟨rfl, rfl⟩

end Edit

theorem survivors_eq_of_grid
    (g : Diamond.Grid Edit.isEmpty Edit.simpleAlgebra.cross
      (Edit.delete l.pos l.removed).filled (Edit.delete r.pos r.removed).filled d)
    (onL : Splices doc l.pos l.removed [] docL) (onR : Splices doc r.pos r.removed [] docR)
    (reached : Edit.simpleAlgebra.Applies docR d.left kept) : survivors l r 0 doc = kept := by
  rcases Edit.grid_filled g with ⟨empty, rfl⟩ | ⟨empty, rfl⟩ | ⟨-, -, e, crossed, rfl⟩
  · rw [path_nil.1 reached]
    exact survivors_eq_right (List.isEmpty_iff.1 empty) onR
  · have nothing : r.removed = [] := List.isEmpty_iff.1 empty
    rw [nothing] at onR
    rw [onR.eq_of_same] at reached
    have onL' := Edit.path_filled (e := .delete l.pos l.removed) rfl onL
    rw [survivors_eq_left nothing onL]
    exact onL'.eq_of_applyAll reached.applyAll
  · obtain ⟨kept', -, again⟩ := Edit.closes_crossSimple rfl rfl crossed onL onR
    have same := (again.filter Edit.simple_idle).eq_of_applyAll reached.applyAll
    rw [← same]
    exact survivors_eq_of_cross crossed onL onR again

theorem weave_of_splices (second : Splices kept j [] u mid)
    (first : Splices mid (if i < j then i else i + u.length) [] t merged) :
    merged = weave kept i t j u := by
  by_cases before : i < j
  · rw [if_pos before] at first
    exact weave_of_lt second first before
  · rw [if_neg before] at first
    exact weave_of_ge second first before

theorem weave_of_grid
    (g : Diamond.Grid Edit.isEmpty Edit.simpleAlgebra.cross
      (Edit.insert i t).filled (Edit.insert j u).filled d)
    (second : Edit.simpleAlgebra.Applies kept (Edit.insert j u).filled mid)
    (first : Edit.simpleAlgebra.Applies mid d.left merged) : merged = weave kept i t j u := by
  rcases Edit.grid_filled g with ⟨empty, rfl⟩ | ⟨empty, rfl⟩ | ⟨filledL, filledR, e, crossed, rfl⟩
  · rw [path_nil.1 first, List.isEmpty_iff.1 empty, weave_nil_left]
    exact Edit.eq_of_filled_insertion second
  · rw [Edit.filled_of_empty empty] at second
    rw [path_nil.1 second] at first
    rw [List.isEmpty_iff.1 empty, weave_nil_right]
    exact Edit.eq_of_filled_insertion first
  · simp only [Diamond.prune, Edit.left_insert_insert crossed] at first
    exact weave_of_splices (Edit.splices_of_filled filledR second)
      (Edit.splices_of_filled (e := .insert _ t) filledL first)

theorem merge_eq_weave (hl : Splices doc l.pos l.removed l.inserted docL)
    (hr : Splices doc r.pos r.removed r.inserted docR) :
    merge l r doc = weave (survivors l r 0 doc) (r.collapse l.pos) l.inserted
      (l.collapse r.pos) r.inserted := by
  have withinL : l.pos ≤ doc.length := Nat.le_trans (Nat.le_add_right _ _) hl.bound
  have withinR : r.pos ≤ doc.length := Nat.le_trans (Nat.le_add_right _ _) hr.bound
  rw [merge, place_left withinL, place_right withinR]

theorem merge_of_grid
    (g : Diamond.Grid Edit.isEmpty Edit.simpleAlgebra.cross
      ((Edit.delete l.pos l.removed).filled ++ (Edit.insert l.pos l.inserted).filled)
      ((Edit.delete r.pos r.removed).filled ++ (Edit.insert r.pos r.inserted).filled) d)
    (hl : Splices doc l.pos l.removed l.inserted docL)
    (hr : Splices doc r.pos r.removed r.inserted docR) :
    Edit.simpleAlgebra.Applies docL d.right (merge l r doc) ∧
      Edit.simpleAlgebra.Applies docR d.left (merge l r doc) := by
  obtain ⟨midL, removedL, insertedL⟩ := splices_iff_trans.1 hl
  obtain ⟨midR, removedR, insertedR⟩ := splices_iff_trans.1 hr
  obtain ⟨head, tail, hhead, htail, rfl⟩ := g.cut_left
  obtain ⟨deletions, upper, hdeletions, hupper, rfl⟩ := hhead.cut_right
  obtain ⟨lower, insertions, hlower, hinsertions, rfl⟩ := htail.cut_right
  -- The four diamonds, from the deletions to the insertions; each one starts where its neighbours
  -- have come to.
  obtain ⟨kept, keptL, keptR⟩ := Edit.simple_joins.grid hdeletions
    (Edit.path_filled (e := .delete l.pos l.removed) rfl removedL)
    (Edit.path_filled (e := .delete r.pos r.removed) rfl removedR)
  obtain ⟨farR, keptInsR, farDelL⟩ := Edit.simple_joins.grid hupper keptR
    (Edit.path_filled (e := .insert r.pos r.inserted) rfl insertedR)
  obtain ⟨farL, farDelR, keptInsL⟩ := Edit.simple_joins.grid hlower
    (Edit.path_filled (e := .insert l.pos l.inserted) rfl insertedL) keptL
  obtain ⟨merged, lastR, lastL⟩ := Edit.simple_joins.grid hinsertions keptInsL keptInsR
  have survived := survivors_eq_of_grid hdeletions removedL removedR keptR.applies
  obtain ⟨leftover, leftoverR⟩ := Edit.grid_deletions hdeletions
  rw [leftover] at hupper
  rw [leftoverR] at hlower
  have movedR := Edit.right_of_grid_insertion (Edit.remainder_eq_delete l r) hupper
  have movedL := Edit.left_of_grid_insertion (Edit.remainder_eq_delete r l) hlower
  rw [Edit.collapse_remainder] at movedR movedL
  rw [movedL, movedR] at hinsertions
  rw [movedR] at keptInsR
  have woven := weave_of_grid hinsertions keptInsR.applies lastL.applies
  rw [← survived, ← merge_eq_weave hl hr] at woven
  rw [← woven]
  exact ⟨(path_append.2 ⟨farL, farDelR, lastR⟩).applies,
    (path_append.2 ⟨farR, farDelL, lastL⟩).applies⟩

theorem merge_of_crossSimple (plainL : l.isReplace = false) (plainR : r.isReplace = false)
    (crossed : Edit.crossSimple l r = .ok d) (hl : Splices doc l.pos l.removed l.inserted docL)
    (hr : Splices doc r.pos r.removed r.inserted docR) :
    Edit.simpleAlgebra.Applies docL d.right (merge l r doc) ∧
      Edit.simpleAlgebra.Applies docR d.left (merge l r doc) := by
  obtain ⟨midL, removedL, insertedL⟩ := splices_iff_trans.1 hl
  obtain ⟨midR, removedR, insertedR⟩ := splices_iff_trans.1 hr
  obtain ⟨merged, onRight, onLeft⟩ := Edit.closes_crossSimple plainL plainR crossed hl hr
  have woven : merged = merge l r doc := by
    rw [merge_eq_weave hl hr]
    match l, r with
    | .insert i t, .insert j u =>
      rw [Edit.left_insert_insert crossed] at onLeft
      rw [survivors_eq_right rfl removedR]
      exact weave_of_splices insertedR (Edit.applies_singleton.1 onLeft)
    | .insert i t, .delete q old =>
      rw [Edit.left_insert_delete rfl crossed] at onLeft
      rw [survivors_eq_right rfl hr]
      exact (Edit.applies_singleton.1 onLeft).eq_take_drop.trans (weave_nil_right ..).symm
    | .delete p old, .insert j u =>
      rw [Edit.right_delete_insert rfl crossed] at onRight
      rw [survivors_eq_left rfl hl]
      exact (Edit.applies_singleton.1 onRight).eq_take_drop.trans (weave_nil_left ..).symm
    | .delete p old, .delete q old₂ =>
      have survived : survivors (.delete p old) (.delete q old₂) 0 doc = merged :=
        survivors_eq_of_cross crossed hl hr onLeft
      refine Eq.trans ?_ (weave_nil_left ..).symm
      rw [survived, Edit.inserted, List.append_nil, List.take_append_drop]
    | .replace .., _ => cases plainL
    | _, .replace .. => cases plainR
  rw [← woven]
  exact ⟨onRight, onLeft⟩

/-- Two edits of one document that is not too long cross, and either one followed by what is left of
the other leads to the merged document. -/
theorem concurrent_edits_merge (fits : Fits doc [l] [r]) (hl : algebra.apply doc l = .ok docL)
    (hr : algebra.apply doc r = .ok docR) :
    ∃ d, algebra.cross l r = .ok d ∧
      algebra.applyAll doc (l :: d.right) = .ok (merge l r doc) ∧
      algebra.applyAll doc (r :: d.left) = .ok (merge l r doc) := by
  obtain ⟨d, crossed⟩ := Edit.exists_cross hl hr fits
  have splicedL := Edit.simple_apply.1 hl
  have splicedR := Edit.simple_apply.1 hr
  have reached : Edit.simpleAlgebra.Applies docL d.right (merge l r doc) ∧
      Edit.simpleAlgebra.Applies docR d.left (merge l r doc) := by
    have paired := crossed
    simp only [Edit.cross] at paired
    split at paired
    · have grid := Algebra.grid_of_transform paired
      have parts : Diamond.Grid Edit.isEmpty Edit.simpleAlgebra.cross
          (l.expand.filter (!Edit.isEmpty ·)) (r.expand.filter (!Edit.isEmpty ·)) d := grid
      rw [Edit.filter_expand, Edit.filter_expand] at parts
      exact merge_of_grid parts splicedL splicedR
    · rename_i plain
      simp only [Bool.or_eq_true, not_or, Bool.not_eq_true] at plain
      exact merge_of_crossSimple plain.1 plain.2 (mapError_eq_ok.1 paired) splicedL splicedR
  obtain ⟨onRight, onLeft⟩ := reached
  refine ⟨d, crossed, ?_, ?_⟩
  · rw [Algebra.applyAll_cons, hl, ok_bind]
    exact onRight.applyAll
  · rw [Algebra.applyAll_cons, hr, ok_bind]
    exact onLeft.applyAll

theorem concurrent_edits_merge_on_tie :
    merge (.replace 1 ['b'] ['X']) (.replace 2 ['c'] ['Y']) ['a', 'b', 'c', 'd'] =
        ['a', 'Y', 'X', 'd'] ∧
      ∃ d, algebra.cross (.replace 1 ['b'] ['X']) (.replace 2 ['c'] ['Y']) = .ok d ∧
        algebra.applyAll ['a', 'b', 'c', 'd'] (.replace 1 ['b'] ['X'] :: d.right) =
          .ok (merge (.replace 1 ['b'] ['X']) (.replace 2 ['c'] ['Y']) ['a', 'b', 'c', 'd']) ∧
        algebra.applyAll ['a', 'b', 'c', 'd'] (.replace 2 ['c'] ['Y'] :: d.left) =
          .ok (merge (.replace 1 ['b'] ['X']) (.replace 2 ['c'] ['Y']) ['a', 'b', 'c', 'd']) := by
  have fits : Fits ['a', 'b', 'c', 'd'] [.replace 1 ['b'] ['X']] [.replace 2 ['c'] ['Y']] := by
    simp only [Fits]
    decide
  have replaced : algebra.apply ['a', 'b', 'c', 'd'] (.replace 1 ['b'] ['X']) =
      .ok ['a', 'X', 'c', 'd'] := by rfl
  have committed : algebra.apply ['a', 'b', 'c', 'd'] (.replace 2 ['c'] ['Y']) =
      .ok ['a', 'b', 'Y', 'd'] := by rfl
  exact ⟨by decide, concurrent_edits_merge fits replaced committed⟩

end Reconcile.Text
