import Reconcile.Proofs.Text.Convergence
import Reconcile.Proofs.Text.Origin

/-! Merging keeps what everybody has done. A list of edits that has been crossed puts in what it did
before, and takes nothing out that it has not taken out before, so that of the characters of a
document those stay that both sides keep, and of the inserted ones those that their side keeps. -/

namespace Reconcile.Text

variable {α : Type} {read : α → Char} {doc docL docR doc' ins gone insL goneL insR goneR : List α}
  {e l r : Edit} {edits left right : List Edit} {d : Diamond Edit}

theorem Trace.prune (h : Trace read doc edits ins gone doc')
    (plain : ∀ e ∈ edits, e.isReplace = false) :
    Trace read doc (edits.filter (!Edit.isEmpty ·)) ins gone doc' := by
  induction h with
  | nil doc => exact .nil doc
  | @cons doc mid doc' new ins old gone e edits spliced inserts removes rest ih =>
    obtain ⟨he, plain⟩ := List.forall_mem_cons.1 plain
    cases empty : e.isEmpty with
    | false =>
      rw [List.filter_cons_of_pos (by simp [empty])]
      exact .cons spliced inserts removes (ih plain)
    | true =>
      have nothing : e.inserted = [] ∧ e.removed = [] := by
        cases e <;> simp_all [Edit.isEmpty, Edit.isReplace, Edit.inserted, Edit.removed]
      obtain rfl := List.map_eq_nil_iff.1 (inserts.trans nothing.1)
      obtain rfl := List.map_eq_nil_iff.1 (removes.trans nothing.2)
      rw [List.filter_cons_of_neg (by simp [empty])]
      rw [spliced.eq_of_same] at ih
      exact ih plain

theorem Carries.prune (h : Carries read docL docR d insL goneL insR goneR)
    (plainL : ∀ e ∈ d.left, e.isReplace = false) (plainR : ∀ e ∈ d.right, e.isReplace = false) :
    Carries read docL docR (d.prune Edit.isEmpty) insL goneL insR goneR := by
  obtain ⟨merged, goneL', goneR', hright, hleft, subL, subR⟩ := h
  exact ⟨merged, goneL', goneR', hright.prune plainR, hleft.prune plainL, subL, subR⟩

theorem Trace.expand (h : Trace read doc [e] ins gone doc') :
    Trace read doc e.expand ins gone doc' := by
  cases e with
  | insert p t => exact h
  | delete p t => exact h
  | replace p old new =>
    obtain ⟨spliced, inserts, removes⟩ := trace_singleton.1 h
    obtain ⟨mid, removed, inserted⟩ := splices_iff_trans.1 spliced
    have parts := (Trace.single (e := .delete p old) removed rfl removes).append
      (Trace.single (e := .insert p new) inserted inserts rfl)
    rwa [List.nil_append, List.append_nil] at parts

theorem plain_expand (e : Edit) : ∀ f ∈ e.expand, f.isReplace = false := by
  cases e <;> simp [Edit.expand, Edit.isReplace]

theorem plain_prune (crossed : Edit.simpleAlgebra.cross l r = .ok d) (plainL : l.isReplace = false)
    (plainR : r.isReplace = false) :
    (∀ e ∈ (d.prune Edit.isEmpty).left, e.isReplace = false) ∧
      ∀ e ∈ (d.prune Edit.isEmpty).right, e.isReplace = false := by
  obtain ⟨keptL, keptR⟩ :=
    (Edit.crossed_crossSimple (mapError_eq_ok.1 crossed)).plain plainL plainR
  exact ⟨fun e he => keptL e (List.mem_filter.1 he).1, fun e he => keptR e (List.mem_filter.1 he).1⟩

theorem carries_simple (crossed : Edit.simpleAlgebra.cross l r = .ok d)
    (plainL : l.isReplace = false) (plainR : r.isReplace = false)
    (hl : Trace read doc [l] insL goneL docL) (hr : Trace read doc [r] insR goneR docR) :
    Carries read docL docR (d.prune Edit.isEmpty) insL goneL insR goneR := by
  have crossed := mapError_eq_ok.1 crossed
  obtain ⟨keptL, keptR⟩ := (Edit.crossed_crossSimple crossed).plain plainL plainR
  exact (Edit.carries_crossSimple plainL plainR crossed hl hr).prune keptL keptR

theorem carries_expanded (crossed : Edit.simpleAlgebra.transform l.expand r.expand = .ok d)
    (hl : Trace read doc [l] insL goneL docL) (hr : Trace read doc [r] insR goneR docR) :
    Carries read docL docR (d.prune Edit.isEmpty) insL goneL insR goneR := by
  have plainL := plain_expand l
  have plainR := plain_expand r
  have filteredL : ∀ e ∈ l.expand.filter (!Edit.isEmpty ·), e.isReplace = false :=
    fun e he => plainL e (List.mem_filter.1 he).1
  have filteredR : ∀ e ∈ r.expand.filter (!Edit.isEmpty ·), e.isReplace = false :=
    fun e he => plainR e (List.mem_filter.1 he).1
  have grid := Algebra.grid_of_transform crossed
  have plain := grid.forall_mem plain_prune filteredL filteredR
  have carried := carries_grid plain_prune carries_simple grid filteredL filteredR
    (hl.expand.prune plainL) (hr.expand.prune plainR)
  exact carried.prune plain.1 plain.2

theorem carries_cross (crossed : l.cross r = .ok d) (hl : Trace read doc [l] insL goneL docL)
    (hr : Trace read doc [r] insR goneR docR) :
    Carries read docL docR (d.prune Edit.isEmpty) insL goneL insR goneR := by
  simp only [Edit.cross] at crossed
  split at crossed
  · exact carries_expanded crossed hl hr
  · rename_i plain
    simp only [Bool.or_eq_true, not_or, Bool.not_eq_true] at plain
    exact carries_simple crossed plain.1 plain.2 hl hr

theorem carries_transform (crossed : algebra.transform left right = .ok d)
    (hl : Trace read doc (left.filter (!Edit.isEmpty ·)) insL goneL docL)
    (hr : Trace read doc (right.filter (!Edit.isEmpty ·)) insR goneR docR) :
    Carries read docL docR d insL goneL insR goneR := by
  refine carries_grid (P := fun _ => True) ?_ ?_ (Algebra.grid_of_transform crossed)
    (fun _ _ => trivial) (fun _ _ => trivial) hl hr
  · intro l r d crossed _ _
    exact ⟨fun _ _ => trivial, fun _ _ => trivial⟩
  · intro doc docL docR insL goneL insR goneR l r d crossed _ _ hl hr
    exact carries_cross crossed hl hr

theorem nodup_append_right_comm (fresh : (doc ++ insL ++ insR).Nodup) :
    (doc ++ insR ++ insL).Nodup := by
  rw [List.append_assoc] at fresh ⊢
  have swapped : (doc ++ (insL ++ insR)).Perm (doc ++ (insR ++ insL)) :=
    List.perm_append_comm.append_left doc
  exact swapped.nodup_iff.1 fresh

theorem mem_merged {merged goneL' goneR' : List α} {edits edits' : List Edit}
    (fresh : (doc ++ insL ++ insR).Nodup) (hl : Trace read doc left insL goneL docL)
    (hr : Trace read doc right insR goneR docR) (viaLeft : Trace read docL edits insR goneR' merged)
    (viaRight : Trace read docR edits' insL goneL' merged) (subL : goneL' ⊆ goneL)
    (subR : goneR' ⊆ goneR) {x : α} :
    x ∈ merged ↔ (x ∈ doc ∧ x ∈ docL ∧ x ∈ docR) ∨ (x ∈ insL ∧ x ∈ docL) ∨
      (x ∈ insR ∧ x ∈ docR) := by
  have swapped : (doc ++ insR ++ insL).Nodup := nodup_append_right_comm fresh
  have onL := hl.mem_iff (List.nodup_append.1 fresh).1 (x := x)
  have onR := hr.mem_iff (List.nodup_append.1 swapped).1 (x := x)
  have onLeft := viaLeft.mem_iff (nodup_of_perm hl.perm fresh) (x := x)
  have onRight := viaRight.mem_iff (nodup_of_perm hr.perm swapped) (x := x)
  have keptL : x ∈ goneL' → x ∈ goneL := fun h => subL h
  have keptR : x ∈ goneR' → x ∈ goneR := fun h => subR h
  have withinL : x ∈ goneL → x ∈ doc ++ insL := fun h => hl.gone_subset h
  have withinR : x ∈ goneR → x ∈ doc ++ insR := fun h => hr.gone_subset h
  have apart := List.nodup_append.1 fresh
  have apart' := List.nodup_append.1 apart.1
  simp only [List.mem_append] at *
  grind

/-- What is in a merged document: the characters that both sides keep of the one they began
with, and those inserted by one side that this side keeps, each of them once and in the order in
which either side has them. -/
structure Merges (viaLeft viaRight merged : List Tagged) : Prop where
  distinct : (merged.map Tagged.origin).Nodup
  base : ∀ c i, ⟨c, .base i⟩ ∈ merged ↔ ⟨c, .base i⟩ ∈ viaLeft ∧ ⟨c, .base i⟩ ∈ viaRight
  left : ∀ c n, ⟨c, .left n⟩ ∈ merged ↔ ⟨c, .left n⟩ ∈ viaLeft
  right : ∀ c n, ⟨c, .right n⟩ ∈ merged ↔ ⟨c, .right n⟩ ∈ viaRight
  orderLeft : SameOrder viaLeft merged
  orderRight : SameOrder viaRight merged

theorem Trace.distinct {doc doc' ins gone more : List Tagged}
    (h : Trace Tagged.char doc edits ins gone doc')
    (apart : ((doc ++ ins ++ more).map Tagged.origin).Nodup) :
    ((doc' ++ more).map Tagged.origin).Nodup := by
  have named := h.perm.map Tagged.origin
  simp only [List.map_append] at named apart ⊢
  exact nodup_of_perm named apart

theorem merges_of_traces {base : Document} {textL textR : List Char}
    {viaLeft viaRight merged goneL goneL' goneR goneR' : List Tagged} {edits edits' : List Edit}
    (hl : Trace Tagged.char (tag .base 0 base) left (tag .left 0 textL) goneL viaLeft)
    (hr : Trace Tagged.char (tag .base 0 base) right (tag .right 0 textR) goneR viaRight)
    (hright : Trace Tagged.char viaLeft edits (tag .right 0 textR) goneR' merged)
    (hleft : Trace Tagged.char viaRight edits' (tag .left 0 textL) goneL' merged)
    (subL : goneL' ⊆ goneL) (subR : goneR' ⊆ goneR) : Merges viaLeft viaRight merged := by
  have origins := distinct_origins base textL textR
  have fresh := List.Nodup.of_map _ origins
  have freshL := nodup_of_perm hl.perm fresh
  have freshR := nodup_of_perm hr.perm (nodup_append_right_comm fresh)
  have member (x : Tagged) := mem_merged fresh hl hr hright hleft subL subR (x := x)
  have withinL {x} (hx : x ∈ viaLeft) := hl.perm.subset (List.mem_append_left goneL hx)
  have withinR {x} (hx : x ∈ viaRight) := hr.perm.subset (List.mem_append_left goneR hx)
  refine ⟨?_, fun c i => ?_, fun c n => ?_, fun c n => ?_, hright.sameOrder freshL,
    hleft.sameOrder freshR⟩
  · have distinct : ((viaLeft ++ tag .right 0 textR ++ []).map Tagged.origin).Nodup := by
      rw [List.append_nil]
      exact hl.distinct origins
    have distinct := hright.distinct distinct
    rwa [List.append_nil] at distinct
  · have notLeft : ⟨c, .base i⟩ ∉ tag .left 0 textL := not_mem_tag fun _ => Origin.noConfusion
    have notRight : ⟨c, .base i⟩ ∉ tag .right 0 textR := not_mem_tag fun _ => Origin.noConfusion
    grind
  · have notBase : ⟨c, .left n⟩ ∉ tag .base 0 base := not_mem_tag fun _ => Origin.noConfusion
    have notRight : ⟨c, .left n⟩ ∉ tag .right 0 textR := not_mem_tag fun _ => Origin.noConfusion
    grind
  · have notBase : ⟨c, .right n⟩ ∉ tag .base 0 base := not_mem_tag fun _ => Origin.noConfusion
    have notLeft : ⟨c, .right n⟩ ∉ tag .left 0 textL := not_mem_tag fun _ => Origin.noConfusion
    grind

/-- Of edits that apply to a common document, those of either side followed by what is left of the
other ones lead to one and the same document, character by character, and it has everything in it
that anybody has put in or kept. -/
theorem merging_keeps_edits {base docL docR : Document} (fits : Fits base left right)
    (hl : algebra.applyAll base left = .ok docL) (hr : algebra.applyAll base right = .ok docR) :
    let viaLeft := track .left 0 (tag .base 0 base) left
    let viaRight := track .right 0 (tag .base 0 base) right
    ∃ d merged, algebra.transform left right = .ok d ∧
      viaLeft.map Tagged.char = docL ∧ viaRight.map Tagged.char = docR ∧
      track .right 0 viaLeft d.right = merged ∧ track .left 0 viaRight d.left = merged ∧
      algebra.applyAll base (left ++ d.right) = .ok (merged.map Tagged.char) ∧
      algebra.applyAll base (right ++ d.left) = .ok (merged.map Tagged.char) ∧
      Merges viaLeft viaRight merged := by
  intro viaLeft viaRight
  obtain ⟨d, crossed⟩ := fits.exists_transform hl hr
  obtain ⟨nonemptyL, nonemptyR⟩ := Algebra.nonempty_of_transform crossed
  have startL : algebra.applyAll ((tag .base 0 base).map Tagged.char) left = .ok docL := by
    rwa [map_char_tag]
  have startR : algebra.applyAll ((tag .base 0 base).map Tagged.char) right = .ok docR := by
    rwa [map_char_tag]
  obtain ⟨textL, goneL, charsL, tracedL⟩ := trace_track .left 0 startL
  obtain ⟨textR, goneR, charsR, tracedR⟩ := trace_track .right 0 startR
  obtain ⟨merged, goneL', goneR', hright, hleft, subL, subR⟩ :=
    carries_transform crossed tracedL tracedR
  have onLeft := Algebra.applies_iff.1 (Edit.applies_of_trace hright)
  have onRight := Algebra.applies_iff.1 (Edit.applies_of_trace hleft)
  rw [charsL] at onLeft
  rw [charsR] at onRight
  refine ⟨d, merged, crossed, charsL, charsR, track_eq_of_trace hright rfl nonemptyR,
    track_eq_of_trace hleft rfl nonemptyL, ?_, ?_,
    merges_of_traces tracedL tracedR hright hleft subL subR⟩
  · rw [Algebra.applyAll_append, hl]
    exact onLeft
  · rw [Algebra.applyAll_append, hr]
    exact onRight

theorem merging_keeps_edits_on_replacement :
    let viaLeft := track .left 0 (tag .base 0 ['a', 'b', 'c', 'd']) [.replace 1 ['b', 'c'] ['x']]
    let viaRight := track .right 0 (tag .base 0 ['a', 'b', 'c', 'd'])
      [.insert 2 ['y'], .delete 3 ['c', 'd']]
    ∃ d merged,
      algebra.transform [.replace 1 ['b', 'c'] ['x']] [.insert 2 ['y'], .delete 3 ['c', 'd']] =
        .ok d ∧ viaLeft.map Tagged.char = ['a', 'x', 'd'] ∧
      viaRight.map Tagged.char = ['a', 'b', 'y'] ∧
      track .right 0 viaLeft d.right = merged ∧ track .left 0 viaRight d.left = merged ∧
      algebra.applyAll ['a', 'b', 'c', 'd'] ([.replace 1 ['b', 'c'] ['x']] ++ d.right) =
        .ok (merged.map Tagged.char) ∧
      algebra.applyAll ['a', 'b', 'c', 'd'] ([.insert 2 ['y'], .delete 3 ['c', 'd']] ++ d.left) =
        .ok (merged.map Tagged.char) ∧
      Merges viaLeft viaRight merged := by
  have fits : Fits ['a', 'b', 'c', 'd'] [.replace 1 ['b', 'c'] ['x']]
      [.insert 2 ['y'], .delete 3 ['c', 'd']] := by
    simp only [Fits]
    decide
  have replaced : algebra.applyAll ['a', 'b', 'c', 'd'] [.replace 1 ['b', 'c'] ['x']] =
      .ok ['a', 'x', 'd'] := by rfl
  have edited : algebra.applyAll ['a', 'b', 'c', 'd'] [.insert 2 ['y'], .delete 3 ['c', 'd']] =
      .ok ['a', 'b', 'y'] := by rfl
  exact merging_keeps_edits fits replaced edited

end Reconcile.Text
