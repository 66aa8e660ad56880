import Reconcile.Proofs.Path

/-! Two lists have one grid at most: however a grid was put together, it falls apart along every cut
of either list. So the order in which lists are taken apart does not matter, and where single
crossings do not depend on the side, neither do those of lists. -/

namespace Reconcile

namespace Diamond

variable {op : Type} {isEmpty : op → Bool} {cross : op → op → Except OpError (Diamond op)}
  {left right first second : List op} {d e : Diamond op}

def mirror (cross : op → op → Except OpError (Diamond op)) (l r : op) :
    Except OpError (Diamond op) :=
  (cross r l).map swap

theorem Grid.swap {cross' : op → op → Except OpError (Diamond op)}
    (mirrored : ∀ l r d, cross l r = .ok d → cross' r l = .ok d.swap)
    (g : Grid isEmpty cross left right d) : Grid isEmpty cross' right left d.swap := by
  induction g with
  | noLeft right => exact .noRight right
  | noRight left => exact .noLeft left
  | cell crossed => exact .cell (mirrored _ _ _ crossed)
  | alongLeft before after ihBefore ihAfter => exact .alongRight ihBefore ihAfter
  | alongRight before after ihBefore ihAfter => exact .alongLeft ihBefore ihAfter

theorem Grid.toMirror (g : Grid isEmpty cross left right d) :
    Grid isEmpty (mirror cross) right left d.swap :=
  g.swap fun _ _ d crossed => map_eq_ok.2 ⟨d, crossed, rfl⟩

theorem Grid.ofMirror (g : Grid isEmpty (mirror cross) left right d) :
    Grid isEmpty cross right left d.swap := by
  refine g.swap fun l r d mirrored => ?_
  obtain ⟨e, crossed, rfl⟩ := map_eq_ok.1 mirrored
  exact crossed

theorem grid_nil_left (g : Grid isEmpty cross [] right d) : d = ⟨[], right⟩ := by
  generalize whole : ([] : List op) = left at g
  induction g with
  | noLeft right => rfl
  | noRight left =>
    subst whole
    rfl
  | cell crossed => cases whole
  | alongLeft before after ihBefore ihAfter =>
    obtain ⟨rfl, rfl⟩ := List.append_eq_nil_iff.1 whole.symm
    obtain rfl := ihBefore rfl
    exact ihAfter rfl
  | alongRight before after ihBefore ihAfter =>
    subst whole
    obtain rfl := ihBefore rfl
    obtain rfl := ihAfter rfl
    rfl

theorem grid_nil_right (g : Grid isEmpty cross left [] d) : d = ⟨left, []⟩ :=
  congrArg Diamond.swap (grid_nil_left g.toMirror)

theorem Grid.cut_left (g : Grid isEmpty cross (first ++ second) right d) :
    ∃ head tail, Grid isEmpty cross first right head ∧ Grid isEmpty cross second head.right tail ∧
      d = ⟨head.left ++ tail.left, tail.right⟩ := by
  generalize whole : first ++ second = left at g
  induction g generalizing first second with
  | noLeft right =>
    obtain ⟨rfl, rfl⟩ := List.append_eq_nil_iff.1 whole
    exact ⟨_, _, .noLeft right, .noLeft right, rfl⟩
  | noRight left =>
    subst whole
    exact ⟨_, _, .noRight first, .noRight second, rfl⟩
  | @cell l r d crossed =>
    rcases List.append_eq_singleton_iff.1 whole with ⟨rfl, rfl⟩ | ⟨rfl, rfl⟩
    · exact ⟨_, _, .noLeft [r], .cell crossed, rfl⟩
    · exact ⟨_, _, .cell crossed, .noLeft _, by rw [List.append_nil]⟩
  | alongLeft before after ihBefore ihAfter =>
    rcases List.append_eq_append_iff.1 whole with ⟨mid, rfl, rfl⟩ | ⟨mid, rfl, rfl⟩
    · -- The cut runs through the first part, whose rest goes to the second piece.
      obtain ⟨head, rest, hhead, hrest, rfl⟩ := ihBefore rfl
      exact ⟨head, _, hhead, hrest.alongLeft after, by rw [List.append_assoc]⟩
    · obtain ⟨rest, tail, hrest, htail, rfl⟩ := ihAfter rfl
      exact ⟨_, tail, before.alongLeft hrest, htail, by rw [List.append_assoc]⟩
  | alongRight before after ihBefore ihAfter =>
    obtain ⟨head, tail, hhead, htail, rfl⟩ := ihBefore whole
    obtain ⟨head', tail', hhead', htail', rfl⟩ := ihAfter rfl
    exact ⟨_, _, hhead.alongRight hhead', htail.alongRight htail', rfl⟩

theorem Grid.cut_right (g : Grid isEmpty cross left (first ++ second) d) :
    ∃ head tail, Grid isEmpty cross left first head ∧ Grid isEmpty cross head.left second tail ∧
      d = ⟨tail.left, head.right ++ tail.right⟩ := by
  obtain ⟨head, tail, hhead, htail, cut⟩ := g.toMirror.cut_left
  exact ⟨head.swap, tail.swap, hhead.ofMirror, htail.ofMirror, congrArg Diamond.swap cut⟩

theorem grid_singleton {l r : op} (g : Grid isEmpty cross [l] [r] e) :
    ∃ d, cross l r = .ok d ∧ e = d.prune isEmpty := by
  generalize onLeft : [l] = left, onRight : [r] = right at g
  induction g with
  | noLeft right => cases onLeft
  | noRight left => cases onRight
  | cell crossed =>
    cases onLeft
    cases onRight
    exact ⟨_, crossed, rfl⟩
  | alongLeft before after ihBefore ihAfter =>
    rcases List.append_eq_singleton_iff.1 onLeft.symm with ⟨rfl, rfl⟩ | ⟨rfl, rfl⟩
    · obtain rfl := grid_nil_left before
      exact ihAfter rfl onRight
    · obtain rfl := grid_nil_left after
      rw [List.append_nil]
      exact ihBefore rfl onRight
  | alongRight before after ihBefore ihAfter =>
    rcases List.append_eq_singleton_iff.1 onRight.symm with ⟨rfl, rfl⟩ | ⟨rfl, rfl⟩
    · obtain rfl := grid_nil_right before
      exact ihAfter onLeft rfl
    · obtain rfl := grid_nil_right after
      rw [List.append_nil]
      exact ihBefore onLeft rfl

theorem Grid.uncons_right {l r : op} {right : List op}
    (g : Grid isEmpty cross [l] (r :: right) d) : ∃ e tail, cross l r = .ok e ∧
      Grid isEmpty cross (e.prune isEmpty).left right tail ∧
      d = ⟨tail.left, (e.prune isEmpty).right ++ tail.right⟩ := by
  have g : Grid isEmpty cross [l] ([r] ++ right) d := g
  obtain ⟨head, tail, near, far, cut⟩ := g.cut_right
  obtain ⟨e, crossed, rfl⟩ := grid_singleton near
  exact ⟨e, tail, crossed, far, cut⟩

theorem Grid.unique (g : Grid isEmpty cross left right d) (h : Grid isEmpty cross left right e) :
    d = e := by
  induction g generalizing e with
  | noLeft right => exact (grid_nil_left h).symm
  | noRight left => exact (grid_nil_right h).symm
  | cell crossed =>
    obtain ⟨d', crossed', rfl⟩ := grid_singleton h
    obtain rfl := Except.ok.inj (crossed.symm.trans crossed')
    rfl
  | alongLeft before after ihBefore ihAfter =>
    obtain ⟨head, tail, hhead, htail, rfl⟩ := h.cut_left
    obtain rfl := ihBefore hhead
    obtain rfl := ihAfter htail
    rfl
  | alongRight before after ihBefore ihAfter =>
    obtain ⟨head, tail, hhead, htail, rfl⟩ := h.cut_right
    obtain rfl := ihBefore hhead
    obtain rfl := ihAfter htail
    rfl

end Diamond

theorem Algebra.transform_swap {σ op : Type} {a : Algebra σ op}
    (mirrored : ∀ l r d, a.cross l r = .ok d → a.cross r l = .ok d.swap) {left right : List op}
    {d e : Diamond op} (forth : a.transform left right = .ok d)
    (back : a.transform right left = .ok e) : e = d.swap :=
  (grid_of_transform back).unique ((grid_of_transform forth).swap mirrored)

theorem Algebra.transform_append {σ op : Type} {a : Algebra σ op} {left first second : List op}
    {head tail d : Diamond op} (before : a.transform left first = .ok head)
    (after : a.transform head.left second = .ok tail)
    (whole : a.transform left (first ++ second) = .ok d) :
    d = ⟨tail.left, head.right ++ tail.right⟩ := by
  have nonempty : head.left.filter (!a.isEmpty ·) = head.left :=
    List.filter_eq_self.2 (by simpa using (nonempty_of_transform before).1)
  have next := grid_of_transform after
  rw [nonempty] at next
  have both := (grid_of_transform before).alongRight next
  rw [← List.filter_append] at both
  exact (grid_of_transform whole).unique both

end Reconcile
