import Reconcile.Proofs.Text.Arithmetic

/-! Any two lists of edits can be handed to the recursion, also such as apply to no document. It
always ends, and whichever way the edits are taken apart and put together, each list goes on
inserting the same texts in the same order. It fails only where it would have to move a position out
of the range that can be represented. -/

namespace Reconcile.Text

variable {p q : Nat} {t d e : List Char} {l r : Edit} {left right edits : List Edit}
  {diamond : Diamond Edit} {fault : Fault} {error : OpError}

def insertions (edits : List Edit) : List (List Char) :=
  (edits.map Edit.inserted).filter (!·.isEmpty)

theorem insertions_append (xs ys : List Edit) :
    insertions (xs ++ ys) = insertions xs ++ insertions ys := by
  simp [insertions]

theorem insertions_cons (e : Edit) (edits : List Edit) :
    insertions (e :: edits) = insertions [e] ++ insertions edits :=
  insertions_append [e] edits

theorem insertions_delete (pos : Nat) (text : List Char) : insertions [.delete pos text] = [] := rfl

theorem insertions_filter (simple : ∀ e ∈ edits, e.isReplace = false) :
    insertions (edits.filter (!·.isEmpty)) = insertions edits := by
  induction edits with
  | nil => rfl
  | cons e edits ih =>
    obtain ⟨first, rest⟩ := List.forall_mem_cons.1 simple
    rw [insertions_cons, List.filter_cons]
    split
    · rw [insertions_cons, ih rest]
    · rename_i empty
      have nothing : insertions [e] = [] := by
        cases e <;> simp_all [insertions, Edit.inserted, Edit.isEmpty, Edit.isReplace]
      rw [nothing, ih rest, List.nil_append]

theorem insertions_expand (e : Edit) : insertions e.expand = insertions [e] := by
  cases e with
  | insert pos text => rfl
  | delete pos text => rfl
  | replace pos old new =>
    rw [Edit.expand, insertions_cons, insertions_delete]
    rfl

theorem Edit.Like.insertions {e f : Edit} (h : e.Like f) : insertions [e] = insertions [f] := by
  cases e <;> cases f <;> simp_all [Like, Text.insertions, Edit.inserted]

theorem Edit.Crossed.insertions (h : Crossed l r diamond) :
    insertions diamond.left = insertions [l] ∧ insertions diamond.right = insertions [r] := by
  cases h with
  | apart left right => exact ⟨left.insertions, right.insertions⟩
  | splitRight hl hr =>
    subst hl hr
    exact ⟨rfl, rfl⟩
  | splitLeft hl hr =>
    subst hl hr
    exact ⟨rfl, rfl⟩

theorem insertions_simple_cross (crossed : Edit.simpleAlgebra.cross l r = .ok diamond)
    (simpleL : l.isReplace = false) (simpleR : r.isReplace = false) :
    insertions (diamond.prune Edit.isEmpty).left = insertions [l] ∧
      insertions (diamond.prune Edit.isEmpty).right = insertions [r] := by
  have crossed := Edit.crossed_crossSimple (mapError_eq_ok.1 crossed)
  obtain ⟨keptL, keptR⟩ := crossed.plain simpleL simpleR
  obtain ⟨sameL, sameR⟩ := crossed.insertions
  exact ⟨(insertions_filter keptL).trans sameL, (insertions_filter keptR).trans sameR⟩

theorem insertions_cross (crossed : l.cross r = .ok diamond) :
    insertions (diamond.prune Edit.isEmpty).left = insertions [l] ∧
      insertions (diamond.prune Edit.isEmpty).right = insertions [r] := by
  simp only [Edit.cross] at crossed
  split at crossed
  · have expandedL : ∀ e ∈ l.expand.filter (!·.isEmpty), e.isReplace = false :=
      fun e member => plain_expand l e (List.mem_filter.1 member).1
    have expandedR : ∀ e ∈ r.expand.filter (!·.isEmpty), e.isReplace = false :=
      fun e member => plain_expand r e (List.mem_filter.1 member).1
    -- An insertion or a deletion that is left out as empty inserts nothing, which is not so of a
    -- replacement of a text by itself; but none is left once the two are expanded.
    have grid := Algebra.grid_of_transform crossed
    obtain ⟨keptL, keptR⟩ := grid.forall_mem plain_prune expandedL expandedR
    obtain ⟨sameL, sameR⟩ :=
      grid.read_eq insertions_append plain_prune insertions_simple_cross expandedL expandedR
    constructor
    · calc insertions (diamond.prune Edit.isEmpty).left
          = insertions diamond.left := insertions_filter keptL
        _ = insertions (l.expand.filter (!·.isEmpty)) := sameL
        _ = insertions l.expand := insertions_filter (plain_expand l)
        _ = insertions [l] := insertions_expand l
    · calc insertions (diamond.prune Edit.isEmpty).right
          = insertions diamond.right := insertions_filter keptR
        _ = insertions (r.expand.filter (!·.isEmpty)) := sameR
        _ = insertions r.expand := insertions_filter (plain_expand r)
        _ = insertions [r] := insertions_expand r
  · rename_i simple
    simp only [Bool.or_eq_true, not_or, Bool.not_eq_true] at simple
    exact insertions_simple_cross crossed simple.1 simple.2

theorem insertions_transform (crossed : algebra.transform left right = .ok diamond) :
    insertions diamond.left = insertions (left.filter (!·.isEmpty)) ∧
      insertions diamond.right = insertions (right.filter (!·.isEmpty)) :=
  (Algebra.grid_of_transform crossed).read_eq (P := fun _ => True) (Q := fun _ => True)
    insertions_append (fun _ _ _ => ⟨fun _ _ => trivial, fun _ _ => trivial⟩)
    (fun crossed _ _ => insertions_cross crossed) (fun _ _ => trivial) fun _ _ => trivial

theorem inRange_transform (crossed : algebra.transform left right = .ok diamond)
    (hl : ∀ e ∈ left, e.InRange) (hr : ∀ e ∈ right, e.InRange) :
    (∀ e ∈ diamond.left, e.InRange) ∧ ∀ e ∈ diamond.right, e.InRange :=
  (Algebra.grid_of_transform crossed).forall_mem
    (fun crossed onLeft onRight => Edit.keeping_inRange crossed onLeft onRight)
    (fun e member => hl e (List.mem_filter.1 member).1)
    fun e member => hr e (List.mem_filter.1 member).1

/-- A position in range would have been moved out of it. -/
def Overflows (error : OpError) : Prop :=
  ∃ pos length, pos < positionLimit ∧ positionLimit ≤ pos + length ∧
    error = .transform (Fault.overflow pos length).message

theorem overflows_shift (failed : shift p q = .error fault) (hp : p < positionLimit) :
    Overflows fault.toOpError := by
  simp only [shift] at failed
  split at failed
  · cases failed
  · rename_i far
    obtain rfl := Except.error.inj failed
    exact ⟨p, q, hp, Nat.le_of_not_lt far, rfl⟩

namespace Edit

theorem overflows_crossInsertDelete (failed : crossInsertDelete p t q d = .error fault)
    (hq : q < positionLimit) : Overflows fault.toOpError := by
  rcases bind_eq_error.1 failed with failed | ⟨shifted, -, failed⟩
  · exact overflows_shift failed hq
  · split at failed
    · cases failed
    · rcases bind_eq_error.1 failed with failed | ⟨stop, -, failed⟩
      · exact overflows_shift failed hq
      · split at failed <;> cases failed

theorem overflows_deleteAfter (failed : deleteAfter p d q e = .error fault)
    (hp : p < positionLimit) (hq : q < positionLimit) : Overflows fault.toOpError := by
  rcases bind_eq_error.1 failed with failed | ⟨stop, -, failed⟩
  · exact overflows_shift failed hp
  · rcases bind_eq_error.1 failed with failed | ⟨otherStop, -, failed⟩
    · exact overflows_shift failed hq
    · split at failed
      · cases failed
      · split at failed <;> cases failed

theorem overflows_crossSimple (failed : crossSimple l r = .error fault) (hl : l.InRange)
    (hr : r.InRange) : Overflows fault.toOpError := by
  match l, r with
  | .insert p t, .insert q u =>
    simp only [crossSimple] at failed
    split at failed
    · rcases bind_eq_error.1 failed with failed | ⟨shifted, -, failed⟩
      · exact overflows_shift failed hr
      · cases failed
    · rcases bind_eq_error.1 failed with failed | ⟨shifted, -, failed⟩
      · exact overflows_shift failed hl
      · cases failed
  | .insert p t, .delete q d => exact overflows_crossInsertDelete failed hr
  | .delete p d, .insert q t => exact overflows_crossInsertDelete (map_eq_error.1 failed) hl
  | .delete p d, .delete q e =>
    rcases bind_eq_error.1 failed with failed | ⟨left, -, failed⟩
    · exact overflows_deleteAfter failed hl hr
    · rcases bind_eq_error.1 failed with failed | ⟨right, -, failed⟩
      · exact overflows_deleteAfter failed hr hl
      · cases failed
  | .replace .., .insert .. | .replace .., .delete .. | .replace .., .replace .. |
    .insert .., .replace .. | .delete .., .replace .. => cases failed

theorem overflows_simple_cross (failed : simpleAlgebra.cross l r = .error error) (hl : l.InRange)
    (hr : r.InRange) : Overflows error := by
  obtain ⟨fault, simpleFailed, rfl⟩ := mapError_eq_error.1 failed
  exact overflows_crossSimple simpleFailed hl hr

theorem overflows_cross (failed : l.cross r = .error error) (hl : l.InRange) (hr : r.InRange) :
    Overflows error := by
  simp only [cross] at failed
  split at failed
  · have ended := Algebra.ends_transform (simple_transform_ne_unfinished l.expand r.expand)
    obtain ⟨l', r', plainL, plainR, failed⟩ := ended.exists_error keeping_plain
      (plain_expand_of_inRange hl) (plain_expand_of_inRange hr) failed
    exact overflows_simple_cross failed plainL.inRange plainR.inRange
  · exact overflows_simple_cross failed hl hr

end Edit

theorem overflows_transform (failed : algebra.transform left right = .error error)
    (hl : ∀ e ∈ left, e.InRange) (hr : ∀ e ∈ right, e.InRange) : Overflows error := by
  have ended := Algebra.ends_transform (transform_ne_unfinished left right)
  obtain ⟨l, r, inRangeL, inRangeR, failed⟩ := ended.exists_error Edit.keeping_inRange
    (fun e member => hl e (List.mem_filter.1 member).1)
    (fun e member => hr e (List.mem_filter.1 member).1) failed
  exact Edit.overflows_cross failed inRangeL inRangeR

/-- Whatever edits the two lists hold, as long as their positions are in range, the recursion ends on
any machine, with one result, which is the same on all of them. Either it ends with a diamond of
edits in range, whose sides insert what the two lists inserted, or a position overflows. -/
theorem transform_ends_on_any_machine (machine : Arithmetic) (left right : List Edit)
    (hl : ∀ e ∈ left, e.pos < positionLimit) (hr : ∀ e ∈ right, e.pos < positionLimit) :
    (∀ result, machine.Ends left right result ↔ result = algebra.transform left right) ∧
      ((∃ diamond, algebra.transform left right = .ok diamond ∧
          (∀ e ∈ diamond.left ++ diamond.right, e.pos < positionLimit) ∧
          insertions diamond.left = insertions (left.filter (!·.isEmpty)) ∧
          insertions diamond.right = insertions (right.filter (!·.isEmpty))) ∨
        ∃ error, algebra.transform left right = .error error ∧ Overflows error) := by
  refine ⟨fun result => machine.ends_iff hl hr, ?_⟩
  cases crossed : algebra.transform left right with
  | ok diamond =>
    have inRange := inRange_transform crossed hl hr
    exact .inl ⟨diamond, rfl, List.forall_mem_append.2 inRange, insertions_transform crossed⟩
  | error error => exact .inr ⟨error, rfl, overflows_transform crossed hl hr⟩

theorem transform_ends_on_strange_edits :
    let left : List Edit :=
      [.replace 5 ['a', 'b', 'c'] ['x'], .insert 40 [], .delete 18446744073709551600 ['d', 'e']]
    let right : List Edit :=
      [.insert 6 ['y'], .delete 0 ['p', 'q', 'r', 's'], .replace 7 ['z'] ['z']]
    ∃ diamond, Arithmetic.words.Ends left right (.ok diamond) ∧
      (∀ e ∈ diamond.left ++ diamond.right, e.pos < positionLimit) ∧
      insertions diamond.left = [['x']] ∧ insertions diamond.right = [['y']] := by
  intro left right
  have hl : ∀ e ∈ left, e.pos < positionLimit := by decide
  have hr : ∀ e ∈ right, e.pos < positionLimit := by decide
  have crossed : algebra.transform left right =
      .ok ⟨[.delete 1 ['a'], .delete 2 ['b', 'c'], .insert 2 ['x'],
          .delete 18446744073709551597 ['d', 'e']],
        [.insert 5 ['y'], .delete 0 ['p', 'q', 'r', 's']]⟩ := by rfl
  obtain ⟨ends, ⟨diamond, crossed', inRange, insertsL, insertsR⟩ | ⟨error, failed, -⟩⟩ :=
    transform_ends_on_any_machine .words left right hl hr
  · exact ⟨diamond, (ends _).2 crossed'.symm, inRange, insertsL, insertsR⟩
  · rw [crossed] at failed
    cases failed

end Reconcile.Text
