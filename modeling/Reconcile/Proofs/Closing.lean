import Reconcile.Proofs.Room.Cross

/-! Whatever rule two operations are crossed by: where its diamonds close, those of lists do.
Nothing is asked of a rule where it gives no answer, nor how many operations it returns, so there
may be no depth that is enough for every pair of lists; but the lists that are crossed within some
depth inherit what is known of the rule. -/

namespace Reconcile

namespace Algebra

variable {σ op : Type} {a : Algebra σ op}

/-- Where two operations apply to a state and are crossed, each one followed by what the other has
become leads to the same state. -/
def Closes (a : Algebra σ op) : Prop :=
  ∀ ⦃s sl sr l r d⦄, a.apply s l = .ok sl → a.apply s r = .ok sr → a.cross l r = .ok d →
    ∃ t, a.applyAll s (l :: d.right) = .ok t ∧ a.applyAll s (r :: d.left) = .ok t

theorem Closes.joins (closes : a.Closes) (idle : a.EmptyIdle) :
    a.Joins (fun _ _ => True) fun _ _ => True := by
  intro s sl sr l r d crossed hl _ hr _
  obtain ⟨t, viaLeft, viaRight⟩ := closes hl hr crossed
  rw [applyAll_cons, hl, ok_bind] at viaLeft
  rw [applyAll_cons, hr, ok_bind] at viaRight
  have onRight := (applies_iff.2 viaLeft).filter idle
  have onLeft := (applies_iff.2 viaRight).filter idle
  exact ⟨t, onRight.applies, onLeft.applies⟩

/-- Lists that apply to one state and are crossed, within whatever depth, lead to one state in
either order, and nothing empty is left of them. -/
theorem lists_inherit_diamond (idle : a.EmptyIdle) (closes : a.Closes) {depth : Nat}
    {left right : List op} {d : Diamond op} {s sl sr : σ}
    (hl : a.applyAll s left = .ok sl) (hr : a.applyAll s right = .ok sr)
    (crossed : a.transformWithin depth left right = .ok d) :
    (∃ t, a.applyAll s (left ++ d.right) = .ok t ∧ a.applyAll s (right ++ d.left) = .ok t) ∧
      (∀ o ∈ d.left, a.isEmpty o = false) ∧ ∀ o ∈ d.right, a.isEmpty o = false := by
  have joins := closes.joins idle
  obtain ⟨t, onRight, onLeft⟩ :=
    joins.transformWithin idle crossed (applies_iff.2 hl) (applies_iff.2 hr)
  have viaLeft : a.applyAll s (left ++ d.right) = .ok t := by
    rw [applyAll_append, hl, ok_bind, onRight.applyAll]
  have viaRight : a.applyAll s (right ++ d.left) = .ok t := by
    rw [applyAll_append, hr, ok_bind, onLeft.applyAll]
  exact ⟨⟨t, viaLeft, viaRight⟩, nonempty_of_transformWithin crossed⟩

end Algebra

namespace Room

theorem closes : algebra.Closes := by
  intro dir dirL dirR l r d hl hr crossed
  obtain ⟨t, onRight, onLeft⟩ := joins crossed hl trivial hr trivial
  have pruned (changes : List Change) : changes.filter (!algebra.isEmpty ·) = changes :=
    List.filter_eq_self.2 fun _ _ => rfl
  simp only [Diamond.prune, pruned] at onRight onLeft
  refine ⟨t, ?_, ?_⟩
  · rw [Algebra.applyAll_cons, hl, ok_bind, onRight.applyAll]
  · rw [Algebra.applyAll_cons, hr, ok_bind, onLeft.applyAll]

end Room

namespace Algebra

open Room (Directory)

theorem lists_inherit_diamond_on_withdrawal :
    let dir : Directory := put ∅ "hall" (some ⟨∅, false⟩)
    let left : List Room.Change := [.delete "hall", .add "lobby" {"ada"}]
    let right : List Room.Change := [.withdraw "hall" ∅, .add "lobby" ∅]
    let d : Diamond Room.Change := ⟨[], [.restore "hall", .withdraw "hall" ∅,
      .withdraw "lobby" {"ada"}, .add "lobby" ∅]⟩
    Room.algebra.transformWithin 5 left right = .ok d ∧
      (∃ t, Room.algebra.applyAll dir (left ++ d.right) = .ok t ∧
        Room.algebra.applyAll dir (right ++ d.left) = .ok t) ∧
      (∀ o ∈ d.left, Room.algebra.isEmpty o = false) ∧
      ∀ o ∈ d.right, Room.algebra.isEmpty o = false := by
  intro dir left right d
  have onLeft : Room.algebra.applyAll dir left =
      .ok (put (put ∅ "hall" (some ⟨∅, true⟩)) "lobby" (some ⟨{"ada"}, false⟩)) := by rfl
  have onRight : Room.algebra.applyAll dir right =
      .ok (put ∅ "lobby" (some ⟨∅, false⟩)) := by rfl
  have crossed : Room.algebra.transformWithin 5 left right = .ok d := by rfl
  exact ⟨crossed, lists_inherit_diamond Room.algebra_idle Room.closes onLeft onRight crossed⟩

end Algebra

end Reconcile
