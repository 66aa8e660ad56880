import Reconcile.Proofs.Tiling
import Reconcile.Text.Cross

/-! Lists are crossed piece by piece. The recursion takes the left list apart before the right one,
but whatever grid two lists have, some depth is enough for the recursion to find it; so either list
may be cut anywhere, and the pieces crossed one after the other. Nothing is asked of the rule for
single operations, which may return lists of any length. -/

namespace Reconcile

namespace Diamond

variable {op : Type} {isEmpty : op → Bool} {cross : op → op → Except OpError (Diamond op)}
  {l r : op} {left right first second : List op} {d head tail : Diamond op}

def EndsIn (isEmpty : op → Bool) (cross : op → op → Except OpError (Diamond op))
    (left right : List op) (d : Diamond op) : Prop :=
  ∃ n, ofLists isEmpty cross n left right = .ok d

theorem EndsIn.grid (h : EndsIn isEmpty cross left right d) : Grid isEmpty cross left right d := by
  obtain ⟨n, ended⟩ := h
  exact grid_of_ofLists ended

theorem ofLists_eq_ok_of_le {n m : Nat} (ended : ofLists isEmpty cross n left right = .ok d)
    (h : n ≤ m) : ofLists isEmpty cross m left right = .ok d := by
  have finished : ofLists isEmpty cross n left right ≠ .error .unfinished := by
    rw [ended]
    exact fun unfinished => by cases unfinished
  rw [ofLists_of_le finished h, ended]

theorem endsIn_nil_left (right : List op) : EndsIn isEmpty cross [] right ⟨[], right⟩ :=
  ⟨0, by rw [ofLists]⟩

theorem endsIn_nil_right (left : List op) : EndsIn isEmpty cross left [] ⟨left, []⟩ :=
  ⟨0, by cases left <;> rw [ofLists]⟩

theorem EndsIn.cons_left (hhead : EndsIn isEmpty cross [l] right head)
    (htail : EndsIn isEmpty cross left head.right tail) :
    EndsIn isEmpty cross (l :: left) right ⟨head.left ++ tail.left, tail.right⟩ := by
  rcases left with _ | ⟨l₂, left⟩
  · obtain rfl := grid_nil_left htail.grid
    rwa [List.append_nil]
  rcases right with _ | ⟨r, right⟩
  · obtain rfl := grid_nil_right hhead.grid
    obtain rfl := grid_nil_right htail.grid
    exact endsIn_nil_right _
  obtain ⟨n, hn⟩ := hhead
  obtain ⟨m, hm⟩ := htail
  refine ⟨max n m + 1, ?_⟩
  rw [ofLists, ofLists_eq_ok_of_le hn (Nat.le_max_left n m), ok_bind,
    ofLists_eq_ok_of_le hm (Nat.le_max_right n m), ok_bind]
  rfl

theorem EndsIn.cons_right (crossed : cross l r = .ok d)
    (htail : EndsIn isEmpty cross (d.prune isEmpty).left right tail) :
    EndsIn isEmpty cross [l] (r :: right)
      ⟨tail.left, (d.prune isEmpty).right ++ tail.right⟩ := by
  have pruned : (cross l r).map (prune isEmpty) = .ok (d.prune isEmpty) := by
    rw [crossed]
    rfl
  rcases right with _ | ⟨r₂, right⟩
  · obtain rfl := grid_nil_right htail.grid
    rw [List.append_nil]
    exact ⟨0, by rw [ofLists, pruned]⟩
  obtain ⟨n, hn⟩ := htail
  refine ⟨n + 1, ?_⟩
  rw [ofLists, pruned, ok_bind, hn, ok_bind]
  rfl

theorem EndsIn.uncons_left (h : EndsIn isEmpty cross (l :: left) right d) :
    ∃ head tail, EndsIn isEmpty cross [l] right head ∧
      EndsIn isEmpty cross left head.right tail ∧
      d = ⟨head.left ++ tail.left, tail.right⟩ := by
  rcases left with _ | ⟨l₂, left⟩
  · exact ⟨d, ⟨[], d.right⟩, h, endsIn_nil_left d.right, by rw [List.append_nil]⟩
  rcases right with _ | ⟨r, right⟩
  · obtain rfl := grid_nil_right h.grid
    exact ⟨_, _, endsIn_nil_right [l], endsIn_nil_right (l₂ :: left), rfl⟩
  obtain ⟨n, ended⟩ := h
  cases n with
  | zero => simp [ofLists] at ended
  | succ n =>
    rw [ofLists] at ended
    obtain ⟨head, hhead, ended⟩ := bind_eq_ok.1 ended
    obtain ⟨tail, htail, ended⟩ := bind_eq_ok.1 ended
    obtain rfl := Except.ok.inj ended
    exact ⟨head, tail, ⟨n, hhead⟩, ⟨n, htail⟩, rfl⟩

theorem EndsIn.cut_left (h : EndsIn isEmpty cross (first ++ second) right d) :
    ∃ head tail, EndsIn isEmpty cross first right head ∧
      EndsIn isEmpty cross second head.right tail ∧
      d = ⟨head.left ++ tail.left, tail.right⟩ := by
  induction first generalizing right d with
  | nil => exact ⟨_, d, endsIn_nil_left right, h, rfl⟩
  | cons l first ih =>
    obtain ⟨head, rest, hhead, hrest, rfl⟩ := h.uncons_left
    obtain ⟨mid, tail, hmid, htail, rfl⟩ := ih hrest
    exact ⟨_, tail, hhead.cons_left hmid, htail, by rw [List.append_assoc]⟩

theorem EndsIn.alongLeft (before : EndsIn isEmpty cross first right head)
    (after : EndsIn isEmpty cross second head.right tail) :
    EndsIn isEmpty cross (first ++ second) right ⟨head.left ++ tail.left, tail.right⟩ := by
  induction first generalizing right head with
  | nil =>
    obtain rfl := grid_nil_left before.grid
    exact after
  | cons l first ih =>
    obtain ⟨start, rest, hstart, hrest, rfl⟩ := before.uncons_left
    have joined := hstart.cons_left (ih hrest after)
    rwa [List.append_assoc]

theorem EndsIn.alongRight (before : EndsIn isEmpty cross left first head)
    (after : EndsIn isEmpty cross head.left second tail) :
    EndsIn isEmpty cross left (first ++ second) ⟨tail.left, head.right ++ tail.right⟩ := by
  -- The left list is taken apart first here too, and what its first operation makes of the right
  -- list may be longer than that list, so the induction is on the depth and not on either list.
  obtain ⟨n, ended⟩ := before
  fun_induction ofLists isEmpty cross n left first generalizing head second tail with
  | case1 n first =>
    obtain rfl := Except.ok.inj ended
    obtain rfl := grid_nil_left after.grid
    exact endsIn_nil_left _
  | case2 n l left =>
    obtain rfl := Except.ok.inj ended
    exact after
  | case3 n l r =>
    obtain ⟨d, crossed, rfl⟩ := map_eq_ok.1 ended
    exact after.cons_right crossed
  | case4 => cases ended
  | case5 n l l₂ left r first ihHead ihTail =>
    obtain ⟨start, hstart, ended⟩ := bind_eq_ok.1 ended
    obtain ⟨rest, hrest, ended⟩ := bind_eq_ok.1 ended
    obtain rfl := Except.ok.inj ended
    obtain ⟨near, far, hnear, hfar, rfl⟩ := after.cut_left
    exact (ihHead hnear hstart).cons_left (ihTail start hfar hrest)
  | case6 n l r r₂ first ihTail =>
    obtain ⟨start, hstart, ended⟩ := bind_eq_ok.1 ended
    obtain ⟨rest, hrest, ended⟩ := bind_eq_ok.1 ended
    obtain rfl := Except.ok.inj ended
    obtain ⟨d, crossed, rfl⟩ := map_eq_ok.1 hstart
    have next : EndsIn isEmpty cross rest.left second tail := after
    have joined := (ihTail _ next hrest).cons_right crossed
    rwa [List.append_assoc]

theorem endsIn_iff_grid : EndsIn isEmpty cross left right d ↔ Grid isEmpty cross left right d := by
  constructor
  · exact EndsIn.grid
  · intro g
    induction g with
    | noLeft right => exact endsIn_nil_left right
    | noRight left => exact endsIn_nil_right left
    | @cell l r d crossed =>
      have alone := EndsIn.cons_right crossed (endsIn_nil_right (d.prune isEmpty).left)
      rwa [List.append_nil] at alone
    | alongLeft before after ihBefore ihAfter => exact ihBefore.alongLeft ihAfter
    | alongRight before after ihBefore ihAfter => exact ihBefore.alongRight ihAfter

end Diamond

namespace Algebra

variable {σ op : Type} {a : Algebra σ op} {left right first second : List op}
  {d head tail : Diamond op}

/-- The lists cross to the diamond; `transformWithin` says so at every depth that is enough. -/
def CrossesTo (a : Algebra σ op) (left right : List op) (d : Diamond op) : Prop :=
  ∃ depth, a.transformWithin depth left right = .ok d

theorem crossesTo_of_transform (crossed : a.transform left right = .ok d) :
    a.CrossesTo left right d :=
  ⟨_, crossed⟩

theorem CrossesTo.transformWithin (crosses : a.CrossesTo left right d) (depth : Nat) :
    a.transformWithin depth left right = .ok d ∨
      a.transformWithin depth left right = .error .unfinished := by
  obtain ⟨enough, crossed⟩ := crosses
  by_cases finished : a.transformWithin depth left right = .error .unfinished
  · exact .inr finished
  · have deeper := a.transformWithin_of_le finished (Nat.le_max_left depth enough)
    rw [← deeper]
    exact .inl (Diamond.ofLists_eq_ok_of_le crossed (Nat.le_max_right depth enough))

theorem CrossesTo.transform (crosses : a.CrossesTo left right d)
    (finished : a.transform left right ≠ .error .unfinished) : a.transform left right = .ok d :=
  (crosses.transformWithin _).resolve_right finished

theorem CrossesTo.filter_left (crosses : a.CrossesTo left right d) :
    d.left.filter (!a.isEmpty ·) = d.left := by
  obtain ⟨depth, crossed⟩ := crosses
  exact List.filter_eq_self.2 (by simpa using (nonempty_of_transformWithin crossed).1)

theorem CrossesTo.filter_right (crosses : a.CrossesTo left right d) :
    d.right.filter (!a.isEmpty ·) = d.right := by
  obtain ⟨depth, crossed⟩ := crosses
  exact List.filter_eq_self.2 (by simpa using (nonempty_of_transformWithin crossed).2)

theorem CrossesTo.append_right (before : a.CrossesTo left first head)
    (after : a.CrossesTo head.left second tail) :
    a.CrossesTo left (first ++ second) ⟨tail.left, head.right ++ tail.right⟩ := by
  have kept := before.filter_left
  obtain ⟨depth, ended⟩ := after
  rw [Algebra.transformWithin, kept] at ended
  obtain ⟨enough, crossed⟩ := Diamond.EndsIn.alongRight before ⟨depth, ended⟩
  exact ⟨enough, by rw [Algebra.transformWithin, List.filter_append, crossed]⟩

theorem CrossesTo.append_left (before : a.CrossesTo first right head)
    (after : a.CrossesTo second head.right tail) :
    a.CrossesTo (first ++ second) right ⟨head.left ++ tail.left, tail.right⟩ := by
  have kept := before.filter_right
  obtain ⟨depth, ended⟩ := after
  rw [Algebra.transformWithin, kept] at ended
  obtain ⟨enough, crossed⟩ := Diamond.EndsIn.alongLeft before ⟨depth, ended⟩
  exact ⟨enough, by rw [Algebra.transformWithin, List.filter_append, crossed]⟩

/-- Where a list crosses one list and what that leaves of it crosses another one, it crosses both at
once, and so do two lists one after the other cross what the first one leaves. -/
theorem crossing_composes (a : Algebra σ op) :
    (∀ {left first second : List op} {head tail : Diamond op}, a.CrossesTo left first head →
      a.CrossesTo head.left second tail →
        a.CrossesTo left (first ++ second) ⟨tail.left, head.right ++ tail.right⟩) ∧
      ∀ {first second right : List op} {head tail : Diamond op}, a.CrossesTo first right head →
        a.CrossesTo second head.right tail →
          a.CrossesTo (first ++ second) right ⟨head.left ++ tail.left, tail.right⟩ :=
  ⟨fun before after => before.append_right after, fun before after => before.append_left after⟩

open Text (Edit)

theorem crossing_composes_on_split :
    let deletion : List Edit := [.delete 0 ['a', 'b', 'c']]
    let parts : List Edit := [.delete 0 ['a'], .delete 1 ['b'], .delete 2 ['c']]
    let first : List Edit := [.insert 1 ['x']]
    let second : List Edit := [.insert 3 ['y']]
    let moved : List Edit := [.insert 0 ['x'], .insert 1 ['y']]
    Text.algebra.CrossesTo deletion (first ++ second) ⟨parts, moved⟩ ∧
      Text.algebra.CrossesTo (first ++ second) deletion ⟨moved, parts⟩ := by
  intro deletion parts first second moved
  let halves : List Edit := [.delete 0 ['a'], .delete 1 ['b', 'c']]
  have inTwo : Text.algebra.CrossesTo deletion first ⟨halves, [.insert 0 ['x']]⟩ :=
    ⟨1, by rfl⟩
  have inThree : Text.algebra.CrossesTo halves second ⟨parts, [.insert 1 ['y']]⟩ :=
    ⟨2, by rfl⟩
  have twoBack : Text.algebra.CrossesTo first deletion ⟨[.insert 0 ['x']], halves⟩ :=
    ⟨1, by rfl⟩
  have threeBack : Text.algebra.CrossesTo second halves ⟨[.insert 1 ['y']], parts⟩ :=
    ⟨2, by rfl⟩
  obtain ⟨onRight, onLeft⟩ := crossing_composes Text.algebra
  exact ⟨onRight inTwo inThree, onLeft twoBack threeBack⟩

end Algebra

end Reconcile
