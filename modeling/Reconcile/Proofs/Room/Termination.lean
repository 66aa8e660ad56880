import Reconcile.Proofs.Recursion
import Reconcile.Proofs.Room.Convergence
import Reconcile.Proofs.Room.Forward

/-! Any two lists of room changes can be handed to the recursion, also such as apply to no common
directory. It always ends, and its depth is linear in what it was handed. A single crossing may turn
one change into two, but then it drops the other one, so that no list is ever crossed to more changes
than there were. It fails only on two changes of one room that no directory can have in common. -/

namespace Reconcile.Room

variable {l r : Change} {left right : List Change} {d : Diamond Change} {e : OpError}

theorem length_cross_le (crossed : algebra.cross l r = .ok d) :
    d.left.length + d.right.length ≤ 2 := by
  rcases keyed.cross_cases crossed with ⟨-, crossed⟩ | ⟨-, rfl⟩
  · rw [single_cross] at crossed
    cases l <;> cases r <;> simp only [Change.crossSame] at crossed <;> (try split at crossed) <;>
      cases crossed <;> simp
  · exact Nat.le_refl 2

theorem length_transform_le (crossed : algebra.transform left right = .ok d) :
    d.left.length + d.right.length ≤ left.length + right.length := by
  have kept := (Algebra.grid_of_transform crossed).length_le fun _ _ _ => length_cross_le
  have hl := left.length_filter_le (!algebra.isEmpty ·)
  have hr := right.length_filter_le (!algebra.isEmpty ·)
  omega

theorem transformWithin_eq_transform {depth : Nat}
    (enough : 2 * (left.length + right.length) ≤ depth) :
    algebra.transformWithin depth left right = algebra.transform left right := by
  have weights := Algebra.total_add_total_le Change.weight_le left right
  have deep := Nat.le_trans (Algebra.two_mul_le_budget _) (algebra_deep left right)
  have finished : algebra.transformWithin (2 * (left.length + right.length)) left right ≠
      .error .unfinished :=
    Algebra.transformWithin_ne_unfinished_of_lighter Change.weight_pos
      (fun _ _ _ => lighter_cross) cross_ne_unfinished weights
  rw [algebra.transformWithin_of_le finished enough, Algebra.transform,
    algebra.transformWithin_of_le finished deep]

/-- One room is live on one side and deleted on the other, or withdrawn on both sides but not with
the same participants. -/
def Contradicts (id : String) (e : OpError) : Prop :=
  e = .transform (Fault.liveAndDeleted id).message ∨
    e = .transform (Fault.withdrawnTwice id).message

theorem contradicts_crossSame {fault : Fault} (failed : l.crossSame r = .error fault) :
    Contradicts l.id fault.toOpError := by
  cases l <;> cases r <;> simp only [Change.crossSame] at failed <;> (try split at failed) <;>
    cases failed <;> simp [Contradicts, Fault.toOpError, Change.id]

theorem contradicts_cross (failed : algebra.cross l r = .error e) :
    l.id = r.id ∧ Contradicts l.id e := by
  by_cases same : l.id = r.id
  · refine ⟨same, ?_⟩
    rw [keyed.cross same] at failed
    obtain ⟨fault, crossed, rfl⟩ := mapError_eq_error.1 failed
    exact contradicts_crossSame crossed
  · rw [keyed.cross_of_ne same] at failed
    cases failed

theorem keeping_id (left right : List Change) :
    Diamond.Keeping algebra.isEmpty (fun l r crossed => algebra.cross l r = crossed)
      (fun c => ∃ l ∈ left, l.id = c.id) (fun c => ∃ r ∈ right, r.id = c.id) := by
  intro l r d crossed onLeft onRight
  obtain ⟨keptL, keptR⟩ := keyed.keys_cross crossed
  constructor
  · intro c member
    rw [keptL c (List.mem_filter.1 member).1]
    exact onLeft
  · intro c member
    rw [keptR c (List.mem_filter.1 member).1]
    exact onRight

theorem contradicts_transform (failed : algebra.transform left right = .error e) :
    ∃ id, (∃ l ∈ left, l.id = id) ∧ (∃ r ∈ right, r.id = id) ∧ Contradicts id e := by
  have ended := Algebra.ends_transform (transform_ne_unfinished left right)
  obtain ⟨l, r, onLeft, onRight, crossed⟩ := ended.exists_error (keeping_id left right)
    (fun c member => ⟨c, (List.mem_filter.1 member).1, rfl⟩)
    (fun c member => ⟨c, (List.mem_filter.1 member).1, rfl⟩) failed
  obtain ⟨same, contradicts⟩ := contradicts_cross crossed
  exact ⟨l.id, onLeft, same ▸ onRight, contradicts⟩

/-- Whatever the two lists are, the recursion ends, with one result and at a depth of at most twice
as many steps as there are changes. Either it ends with a diamond of no more changes than it was
given, whose left side is some of the left list if that holds additions and deletions only, or the
lists contradict each other about a room that both of them name. -/
theorem transform_ends (left right : List Change) :
    (∀ result, algebra.Ends left right result ↔ result = algebra.transform left right) ∧
      (∀ depth, 2 * (left.length + right.length) ≤ depth →
        algebra.transformWithin depth left right = algebra.transform left right) ∧
      ((∃ d, algebra.transform left right = .ok d ∧
          d.left.length + d.right.length ≤ left.length + right.length ∧
          ((∀ c ∈ left, c.IsPlain) → d.left.Sublist left)) ∨
        ∃ id e, algebra.transform left right = .error e ∧ (∃ l ∈ left, l.id = id) ∧
          (∃ r ∈ right, r.id = id) ∧ Contradicts id e) := by
  refine ⟨fun result => Algebra.ends_iff (transform_ne_unfinished left right),
    fun depth enough => transformWithin_eq_transform enough, ?_⟩
  cases crossed : algebra.transform left right with
  | ok d => exact .inl ⟨d, rfl, length_transform_le crossed, left_sublist_transform crossed⟩
  | error e =>
    obtain ⟨id, onLeft, onRight, contradicts⟩ := contradicts_transform crossed
    exact .inr ⟨id, e, rfl, onLeft, onRight, contradicts⟩

theorem transform_ends_on_strange_list :
    let left : List Change := [.add "lobby" {"ada"}, .delete "hall", .delete "lobby"]
    let right : List Change := [.withdraw "hall" {"bob"}, .delete "lobby", .delete "lobby"]
    ∃ d, algebra.transform left right = .ok d ∧
      d.left.length + d.right.length ≤ left.length + right.length ∧ d.left.Sublist left := by
  intro left right
  have plain : ∀ c ∈ left, c.IsPlain := by simp [left, Change.IsPlain]
  have crossed : algebra.transform left right =
      .ok ⟨[], [.restore "hall", .withdraw "hall" {"bob"}, .delete "lobby"]⟩ := by rfl
  obtain ⟨d, crossed', length, kept⟩ | ⟨id, e, failed, -⟩ := (transform_ends left right).2.2
  · exact ⟨d, crossed', length, kept plain⟩
  · rw [crossed] at failed
    cases failed

end Reconcile.Room
