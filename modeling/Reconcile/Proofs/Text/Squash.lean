import Reconcile.Proofs.Lawful
import Reconcile.Proofs.Text.Cross

/-! Two edits squash to edits that do what both of them did, and text edits have the laws on which
a manager relies. -/

namespace Reconcile.Text

open Reconcile.Algebra (Path path_cons path_nil path_singleton applies_iff)

variable {doc mid doc' : Document} {p q : Nat} {t u d e old new new₂ : List Char}

namespace Edit

theorem squash_insert_insert (first : Splices doc p [] t mid) (second : Splices mid q [] u doc')
    (after : p ≤ q) (before : q ≤ p + t.length) :
    Splices doc p [] (t.take (q - p) ++ u ++ t.drop (q - p)) doc' := by
  have split : t.take (q - p) ++ ([] ++ t.drop (q - p)) = t := by
    rw [List.nil_append, List.take_append_drop]
  have place : p + (t.take (q - p)).length = q := by
    rw [List.length_take]
    omega
  rw [List.append_assoc]
  exact Splices.within (split.symm ▸ first) (place.symm ▸ second)

theorem squash_insert_delete (first : Splices doc p [] t mid) (second : Splices mid q d [] doc')
    (after : p ≤ q) (before : q - p + d.length ≤ t.length)
    (within : (t.drop (q - p)).take d.length = d) :
    Splices doc p [] (t.take (q - p) ++ t.drop (q - p + d.length)) doc' := by
  have split : t.take (q - p) ++ (d ++ t.drop (q - p + d.length)) = t := by
    rw [← List.drop_drop]
    nth_rewrite 1 [← within]
    rw [List.take_append_drop, List.take_append_drop]
  have place : p + (t.take (q - p)).length = q := by
    rw [List.length_take]
    omega
  rw [← List.nil_append (t.drop (q - p + d.length))]
  exact Splices.within (split.symm ▸ first) (place.symm ▸ second)

theorem squash_delete_same (first : Splices doc p d [] mid) (second : Splices mid p e [] doc') :
    Splices doc p (d ++ e) [] doc' := by
  have undone := Splices.within (x := []) (y := []) (z := e) second.symm first.symm
  exact undone.symm

theorem squash_delete_before (first : Splices doc (q + e.length) d [] mid)
    (second : Splices mid q e [] doc') : Splices doc q (e ++ d) [] doc' := by
  have split : e ++ ([] ++ []) = e := List.append_nil e
  have undone := Splices.within (split.symm ▸ second.symm) first.symm
  rw [List.append_nil] at undone
  exact undone.symm

theorem applies_replaceIfNew (spliced : Splices doc p old new doc') :
    simpleAlgebra.Applies doc (replaceIfNew p old new) doc' := by
  simp only [replaceIfNew]
  split
  · rename_i same
    rw [same] at spliced
    exact path_nil.2 spliced.eq_of_same
  · exact applies_singleton.2 spliced

theorem applies_insertIfAny (spliced : Splices doc p [] t doc') :
    simpleAlgebra.Applies doc (insertIfAny p t) doc' := by
  simp only [insertIfAny]
  split
  · rename_i same
    rw [List.isEmpty_iff.1 same] at spliced
    exact path_nil.2 spliced.eq_of_same
  · exact applies_singleton.2 spliced

theorem applies_squash {first second : Edit}
    (path : simpleAlgebra.Applies doc [first, second] doc') :
    simpleAlgebra.Applies doc (first.squash second) doc' := by
  obtain ⟨mid, applied, -, rest⟩ := path_cons.1 path
  have hfirst := simple_apply.1 applied
  have hsecond := applies_singleton.1 rest
  match first, second with
  | .insert p t, .insert q u =>
    simp only [squash]
    split
    · rename_i inside
      exact applies_singleton.2 (squash_insert_insert hfirst hsecond inside.1 inside.2.1)
    · exact path
  | .insert p t, .delete q d =>
    simp only [squash]
    split
    · rename_i inside
      exact applies_insertIfAny (squash_insert_delete hfirst hsecond inside.1 inside.2.1 inside.2.2)
    · exact path
  | .delete p d, .delete q e =>
    simp only [squash]
    split
    · rename_i same
      subst same
      exact applies_singleton.2 (squash_delete_same hfirst hsecond)
    · split
      · rename_i before
        subst before
        exact applies_singleton.2 (squash_delete_before hfirst hsecond)
      · exact path
  | .delete p d, .insert q t =>
    simp only [squash]
    split
    · rename_i same
      subst same
      exact applies_replaceIfNew (splices_iff_trans.2 ⟨mid, hfirst, hsecond⟩)
    · exact path
  | .replace p old new, .replace q old₂ new₂ =>
    simp only [squash]
    split
    · rename_i same
      obtain ⟨rfl, rfl⟩ := same
      exact applies_replaceIfNew (Splices.trans hfirst hsecond)
    · exact path
  | .insert .., .replace .. | .delete .., .replace .. | .replace .., .insert .. |
    .replace .., .delete .. => exact path

end Edit

theorem changes_eq_true {e : Edit} : algebra.changes doc e = true ↔ e.isEmpty = false := by
  simp [algebra, Edit.simpleAlgebra]

theorem lawful : algebra.Lawful where
  idle := idle
  steady {doc doc' e} applied unchanged := by
    have empty : e.isEmpty = true := by simpa [algebra, Edit.simpleAlgebra] using unchanged
    exact idle empty applied
  undo {doc doc' e} applied _ := by
    have spliced := (Edit.simple_apply.1 applied).symm
    cases e <;> exact Edit.simple_apply.2 spliced
  squash path := by
    have applied := Edit.applies_squash (path.applies.of_apply_eq rfl)
    have pruned := (applied.filter Edit.simple_idle).of_apply_eq (b := algebra) rfl
    exact pruned.mono fun _ _ h => changes_eq_true.2 h.2
  joins := by
    intro doc docL docR l r diamond crossed hl _ hr _
    obtain ⟨merged, hright, hleft⟩ := exists_merged crossed hl hr
    exact ⟨merged, hright.applies, hleft.mono fun _ _ h => changes_eq_true.2 h⟩

end Reconcile.Text
