import Reconcile.Proofs.Text.Depth

/-! Lists of edits of one document always cross as long as no position can grow beyond what can be
represented, and either order leads to the same document. -/

namespace Reconcile.Text

open Reconcile.Algebra (Path path_cons path_nil path_singleton applies_iff)

variable {doc docL docR : Document} {p q : Nat} {t u d e : List Char}

namespace Edit

def added (edit : Edit) : Nat := edit.inserted.length

theorem Like.added {e f : Edit} (h : e.Like f) : e.added = f.added := by
  cases e <;> cases f <;> simp_all [Like, Edit.added, inserted]

theorem Crossed.added_le {l r : Edit} {d : Diamond Edit} (h : Crossed l r d) :
    total added d.left ≤ l.added ∧ total added d.right ≤ r.added := by
  cases h with
  | apart left right => simp [Diamond.unchanged, left.added, right.added]
  | splitRight hl hr =>
    subst hl hr
    simp [added, inserted]
  | splitLeft hl hr =>
    subst hl hr
    simp [added, inserted]

theorem simple_added_le (l r : Edit) (d : Diamond Edit)
    (crossed : simpleAlgebra.cross l r = .ok d) :
    total added d.left ≤ l.added ∧ total added d.right ≤ r.added :=
  (crossed_crossSimple (mapError_eq_ok.1 crossed)).added_le

theorem total_added_expand (e : Edit) : total added e.expand = e.added := by
  cases e <;> simp [expand, added, inserted]

theorem cross_added_le (l r : Edit) (d : Diamond Edit) (crossed : l.cross r = .ok d) :
    total added d.left ≤ l.added ∧ total added d.right ≤ r.added := by
  simp only [cross] at crossed
  split at crossed
  · obtain ⟨left, right⟩ := (Algebra.grid_of_transform crossed).total_le simple_added_le
    have hl := total_added_expand l
    have hr := total_added_expand r
    exact ⟨hl ▸ Nat.le_trans left (total_filter_le ..),
      hr ▸ Nat.le_trans right (total_filter_le ..)⟩
  · exact simple_added_le l r d crossed

theorem length_apply_le {edit : Edit} (applied : simpleAlgebra.apply doc edit = .ok docL) :
    docL.length ≤ doc.length + edit.added := by
  have := (simple_apply.1 applied).length
  simp only [added]
  omega

end Edit

/-- All the text there can be stays within the positions that can be represented. -/
def Fits (doc : Document) (left right : List Edit) : Prop :=
  doc.length + total Edit.added left + total Edit.added right < positionLimit

namespace Edit

theorem shift_ok {pos length : Nat} (h : pos + length < positionLimit) :
    shift pos length = .ok (pos + length) :=
  shift_eq_ok.2 ⟨h, rfl⟩

theorem exists_crossInsertDelete (deleted : Splices doc q d [] docR)
    (h : doc.length + t.length < positionLimit) :
    ∃ diamond, crossInsertDelete p t q d = .ok diamond := by
  have := deleted.bound
  simp only [crossInsertDelete]
  rw [shift_ok (by omega), ok_bind]
  split
  · exact ⟨_, rfl⟩
  · rw [shift_ok (by omega), ok_bind]
    split <;> exact ⟨_, rfl⟩

theorem exists_crossSimple {l r : Edit} (hl : simpleAlgebra.apply doc l = .ok docL)
    (hr : simpleAlgebra.apply doc r = .ok docR) (fits : Fits doc [l] [r]) :
    ∃ diamond, crossSimple l r = .ok diamond := by
  have splicedL := simple_apply.1 hl
  have splicedR := simple_apply.1 hr
  have boundL := splicedL.bound
  have boundR := splicedR.bound
  simp only [Fits, total_cons, total_nil, added] at fits
  match l, r with
  | .insert p t, .insert q u =>
    simp only [pos, removed, inserted, List.length_nil] at fits boundL boundR
    simp only [crossSimple]
    split
    · rw [shift_ok (by omega), ok_bind]
      exact ⟨_, rfl⟩
    · rw [shift_ok (by omega), ok_bind]
      exact ⟨_, rfl⟩
  | .insert p t, .delete q d =>
    simp only [inserted, List.length_nil] at fits
    have deleted : Splices doc q d [] docR := splicedR
    exact exists_crossInsertDelete deleted (by omega)
  | .delete p d, .insert q t =>
    simp only [inserted, List.length_nil] at fits
    have deleted : Splices doc p d [] docL := splicedL
    obtain ⟨diamond, crossed⟩ :
        ∃ diamond, crossInsertDelete q t p d = .ok diamond :=
      exists_crossInsertDelete deleted (by omega)
    exact ⟨diamond.swap, map_eq_ok.2 ⟨diamond, crossed, rfl⟩⟩
  | .delete p d, .delete q e =>
    simp only [pos, removed, inserted, List.length_nil] at fits boundL boundR
    have fitsL : p + d.length < positionLimit := by omega
    have fitsR : q + e.length < positionLimit := by omega
    have left := deleteAfter_eq_ok.2 ⟨⟨fitsL, fitsR⟩, rfl⟩
    have right := deleteAfter_eq_ok.2 ⟨⟨fitsR, fitsL⟩, rfl⟩
    exact ⟨_, bind_eq_ok.2 ⟨_, left, bind_eq_ok.2 ⟨_, right, rfl⟩⟩⟩
  | .replace .., .insert .. | .replace .., .delete .. | .replace .., .replace .. |
    .insert .., .replace .. | .delete .., .replace .. => exact ⟨_, rfl⟩

end Edit

theorem Fits.transform_ok {a : Algebra Document Edit} {goodL goodR : Document → Edit → Prop}
    {left right : List Edit} (fits : Fits doc left right)
    (applies : a.apply = Edit.simpleAlgebra.apply) (joins : a.Joins goodL goodR)
    (idle : a.EmptyIdle)
    (added_le : ∀ l r d, a.cross l r = .ok d →
      total Edit.added d.left ≤ l.added ∧ total Edit.added d.right ≤ r.added)
    (cell : ∀ {doc docL docR l r}, a.apply doc l = .ok docL → goodL doc l →
      a.apply doc r = .ok docR → goodR doc r → Fits doc [l] [r] → ∃ d, a.cross l r = .ok d)
    (finished : a.transform left right ≠ .error .unfinished)
    (hl : a.Path goodL doc left docL) (hr : a.Path goodR doc right docR) :
    ∃ d, a.transform left right = .ok d := by
  refine joins.transform_ok Fits cell ?_ ?_ ?_ ?_ idle finished hl hr ?_
  · intro doc l left right fits
    simp only [Fits, total_cons, total_nil] at fits ⊢
    omega
  · intro doc doc' l left right d fits applied g
    have grown := Edit.length_apply_le (applies ▸ applied)
    have kept := (g.total_le added_le).2
    simp only [Fits, total_cons] at fits ⊢
    omega
  · intro doc l r right fits
    simp only [Fits, total_cons, total_nil] at fits ⊢
    omega
  · intro doc doc' l r right d fits applied crossed
    have grown := Edit.length_apply_le (applies ▸ applied)
    have kept := (added_le l r d crossed).1
    have pruned := total_filter_le Edit.added (!a.isEmpty ·) d.left
    simp only [Fits, Diamond.prune, total_cons, total_nil] at fits ⊢
    omega
  · have left := total_filter_le Edit.added (!a.isEmpty ·) left
    have right := total_filter_le Edit.added (!a.isEmpty ·) right
    simp only [Fits] at fits ⊢
    omega

namespace Edit

theorem exists_cross {l r : Edit} (hl : simpleAlgebra.apply doc l = .ok docL)
    (hr : simpleAlgebra.apply doc r = .ok docR) (fits : Fits doc [l] [r]) :
    ∃ d, l.cross r = .ok d := by
  have simple {doc docL docR l r} (hl : simpleAlgebra.apply doc l = .ok docL)
      (hr : simpleAlgebra.apply doc r = .ok docR) (fits : Fits doc [l] [r]) :
      ∃ d, simpleAlgebra.cross l r = .ok d := by
    obtain ⟨d, crossed⟩ := exists_crossSimple hl hr fits
    exact ⟨d, mapError_eq_ok.2 crossed⟩
  simp only [cross]
  split
  · have expanded : Fits doc l.expand r.expand := by
      simp only [Fits, total_cons, total_nil, total_added_expand] at fits ⊢
      omega
    exact expanded.transform_ok rfl simple_joins simple_idle simple_added_le
      (fun hl _ hr _ fits => simple hl hr fits) (simple_transform_ne_unfinished _ _)
      (path_expand hl) (path_expand hr)
  · exact simple hl hr fits

end Edit

theorem Fits.exists_transform {left right : List Edit} (fits : Fits doc left right)
    (hl : algebra.applyAll doc left = .ok docL) (hr : algebra.applyAll doc right = .ok docR) :
    ∃ d, algebra.transform left right = .ok d :=
  fits.transform_ok (a := algebra) rfl joins idle Edit.cross_added_le
    (fun hl _ hr _ fits => Edit.exists_cross hl hr fits) (transform_ne_unfinished left right)
    (applies_iff.2 hl) (applies_iff.2 hr)

/-- Edits that apply to a common document cross if all their text fits, no empty edit is left of
them, and either order leads to the same document. -/
theorem documents_converge {left right : List Edit} (fits : Fits doc left right)
    (hl : algebra.applyAll doc left = .ok docL) (hr : algebra.applyAll doc right = .ok docR) :
    ∃ d merged, algebra.transform left right = .ok d ∧
      (∀ e ∈ d.left ++ d.right, e.isEmpty = false) ∧
      algebra.applyAll doc (left ++ d.right) = .ok merged ∧
      algebra.applyAll doc (right ++ d.left) = .ok merged := by
  obtain ⟨d, crossed⟩ := fits.exists_transform hl hr
  obtain ⟨merged, viaLeft, viaRight⟩ := joins.converge idle crossed hl hr
  obtain ⟨left, right⟩ := Algebra.nonempty_of_transform crossed
  exact ⟨d, merged, crossed, List.forall_mem_append.2 ⟨left, right⟩, viaLeft, viaRight⟩

theorem documents_converge_on_replacement :
    ∃ d merged,
      algebra.transform [.replace 1 ['b', 'c'] ['x']] [.insert 2 ['y'], .delete 3 ['c', 'd']] =
        .ok d ∧ (∀ e ∈ d.left ++ d.right, e.isEmpty = false) ∧
      algebra.applyAll ['a', 'b', 'c', 'd'] ([.replace 1 ['b', 'c'] ['x']] ++ d.right) =
        .ok merged ∧
      algebra.applyAll ['a', 'b', 'c', 'd'] ([.insert 2 ['y'], .delete 3 ['c', 'd']] ++ d.left) =
        .ok merged := by
  have fits : Fits ['a', 'b', 'c', 'd'] [.replace 1 ['b', 'c'] ['x']]
      [.insert 2 ['y'], .delete 3 ['c', 'd']] := by
    simp only [Fits]
    decide
  have replaced : algebra.applyAll ['a', 'b', 'c', 'd'] [.replace 1 ['b', 'c'] ['x']] =
      .ok ['a', 'x', 'd'] := by rfl
  have edited : algebra.applyAll ['a', 'b', 'c', 'd'] [.insert 2 ['y'], .delete 3 ['c', 'd']] =
      .ok ['a', 'b', 'y'] := by rfl
  exact documents_converge fits replaced edited

end Reconcile.Text
