import Reconcile.Proofs.Text.Cross

/-! Crossing lists of edits comes to an end within the budget. Crossings make no insertions, and
they split a deletion at most once for every insertion that it meets, so that each opposing
insertion at most doubles the deletions. -/

namespace Reconcile.Text

namespace Edit

def inserts : Edit → Nat
  | .insert _ _ | .replace _ _ _ => 1
  | .delete _ _ => 0

def deletes : Edit → Nat
  | .insert _ _ => 0
  | .delete _ _ | .replace _ _ _ => 1

theorem Like.inserts {e f : Edit} (h : e.Like f) : e.inserts = f.inserts := by
  cases e <;> cases f <;> simp_all [Like, Edit.inserts]

theorem Like.deletes {e f : Edit} (h : e.Like f) : e.deletes = f.deletes := by
  cases e <;> cases f <;> simp_all [Like, Edit.deletes]

theorem one_le_inserts_add_deletes (e : Edit) : 1 ≤ e.inserts + e.deletes := by
  cases e <;> simp [inserts, deletes]

structure Bounded (left right : List Edit) (d : Diamond Edit) : Prop where
  insertsL : total inserts d.left ≤ total inserts left
  insertsR : total inserts d.right ≤ total inserts right
  deletesL : total deletes d.left ≤ total deletes left * 2 ^ total inserts right
  deletesR : total deletes d.right ≤ total deletes right * 2 ^ total inserts left

theorem le_mul_two_pow (n m : Nat) : n ≤ n * 2 ^ m :=
  Nat.le_mul_of_pos_right n (Nat.pow_pos (by omega))

theorem Crossed.bounded {l r : Edit} {d : Diamond Edit} (h : Crossed l r d) :
    Bounded [l] [r] d := by
  cases h with
  | apart left right =>
    constructor <;> simp only [Diamond.unchanged, total_cons, total_nil, Nat.add_zero,
      left.inserts, right.inserts, left.deletes, right.deletes]
    · exact Nat.le_refl _
    · exact Nat.le_refl _
    · exact le_mul_two_pow _ _
    · exact le_mul_two_pow _ _
  | splitRight hl hr =>
    subst hl hr
    constructor <;> simp [inserts, deletes]
  | splitLeft hl hr =>
    subst hl hr
    constructor <;> simp [inserts, deletes]

theorem Bounded.swap {left right : List Edit} {d : Diamond Edit} (h : Bounded left right d) :
    Bounded right left d.swap :=
  ⟨h.insertsR, h.insertsL, h.deletesR, h.deletesL⟩

theorem Bounded.prune {left right : List Edit} {d : Diamond Edit} (h : Bounded left right d) :
    Bounded left right (d.prune isEmpty) where
  insertsL := Nat.le_trans (total_filter_le ..) h.insertsL
  insertsR := Nat.le_trans (total_filter_le ..) h.insertsR
  deletesL := Nat.le_trans (total_filter_le ..) h.deletesL
  deletesR := Nat.le_trans (total_filter_le ..) h.deletesR

theorem Bounded.mono {left right left' right' : List Edit} {d : Diamond Edit}
    (h : Bounded left right d) (insertsL : total inserts left ≤ total inserts left')
    (insertsR : total inserts right ≤ total inserts right')
    (deletesL : total deletes left ≤ total deletes left')
    (deletesR : total deletes right ≤ total deletes right') : Bounded left' right' d where
  insertsL := Nat.le_trans h.insertsL insertsL
  insertsR := Nat.le_trans h.insertsR insertsR
  deletesL := Nat.le_trans h.deletesL
    (Nat.mul_le_mul deletesL (Nat.pow_le_pow_right (by omega) insertsR))
  deletesR := Nat.le_trans h.deletesR
    (Nat.mul_le_mul deletesR (Nat.pow_le_pow_right (by omega) insertsL))

theorem Bounded.along {first second right : List Edit} {head tail : Diamond Edit}
    (before : Bounded first right head) (after : Bounded second head.right tail) :
    Bounded (first ++ second) right ⟨head.left ++ tail.left, tail.right⟩ := by
  constructor
  · have := before.insertsL
    have := after.insertsL
    simp only [total_append]
    omega
  · exact Nat.le_trans after.insertsR before.insertsR
  · have fewer : 2 ^ total inserts head.right ≤ 2 ^ total inserts right :=
      Nat.pow_le_pow_right (by omega) before.insertsR
    have hsecond := Nat.le_trans after.deletesL (Nat.mul_le_mul_left _ fewer)
    simp only [total_append, Nat.add_mul]
    exact Nat.add_le_add before.deletesL hsecond
  · calc total deletes tail.right
        ≤ total deletes head.right * 2 ^ total inserts second := after.deletesR
      _ ≤ total deletes right * 2 ^ total inserts first * 2 ^ total inserts second :=
        Nat.mul_le_mul_right _ before.deletesR
      _ = total deletes right * 2 ^ total inserts (first ++ second) := by
        rw [total_append, Nat.pow_add, Nat.mul_assoc]

variable {cross : Edit → Edit → Except OpError (Diamond Edit)}

theorem Bounded.grid (cell : ∀ l r d, cross l r = .ok d → Bounded [l] [r] d)
    {left right : List Edit} {d : Diamond Edit}
    (g : Diamond.Grid isEmpty cross left right d) : Bounded left right d := by
  induction g with
  | noLeft right => constructor <;> simp
  | noRight left => constructor <;> simp
  | cell crossed => exact (cell _ _ _ crossed).prune
  | alongLeft before after ihBefore ihAfter => exact ihBefore.along ihAfter
  | alongRight before after ihBefore ihAfter => exact (ihBefore.swap.along ihAfter.swap).swap

/-- A bound of the steps that crossing the two lists takes. -/
def depth (left right : List Edit) : Nat :=
  (total inserts left + total deletes left * 2 ^ total inserts right) +
    (total inserts right + total deletes right * 2 ^ total inserts left)

theorem depth_comm (left right : List Edit) : depth left right = depth right left :=
  Nat.add_comm _ _

theorem Bounded.depth_lt {l : Edit} {right : List Edit} {d : Diamond Edit}
    (h : Bounded [l] right d) (left : List Edit) :
    depth left d.right < depth (l :: left) right := by
  have hl := l.one_le_inserts_add_deletes
  have hdeletes := le_mul_two_pow l.deletes (total inserts right)
  have hinserts := h.insertsR
  have hleft : total deletes left * 2 ^ total inserts d.right ≤
      total deletes left * 2 ^ total inserts right :=
    Nat.mul_le_mul_left _ (Nat.pow_le_pow_right (by omega) hinserts)
  have hright : total deletes d.right * 2 ^ total inserts left ≤
      total deletes right * 2 ^ (l.inserts + total inserts left) := by
    rw [Nat.pow_add, ← Nat.mul_assoc]
    have := h.deletesR
    simp only [total_cons, total_nil, Nat.add_zero] at this
    exact Nat.mul_le_mul_right _ this
  simp only [depth, total_cons, Nat.add_mul]
  omega

theorem depth_lt_cons (l : Edit) (left right : List Edit) :
    depth left right < depth (l :: left) right := by
  have unmoved : Bounded [l] right ⟨[l], right⟩ :=
    ⟨Nat.le_refl _, Nat.le_refl _, le_mul_two_pow _ _, le_mul_two_pow _ _⟩
  exact unmoved.depth_lt left

theorem depth_singleton_le (l : Edit) (left right : List Edit) :
    depth [l] right ≤ depth (l :: left) right := by
  have hleft : l.deletes * 2 ^ total inserts right ≤
      (l.deletes + total deletes left) * 2 ^ total inserts right :=
    Nat.mul_le_mul_right _ (by omega)
  have hright : total deletes right * 2 ^ l.inserts ≤
      total deletes right * 2 ^ (l.inserts + total inserts left) :=
    Nat.mul_le_mul_left _ (Nat.pow_le_pow_right (by omega) (by omega))
  simp only [depth, total_cons, total_nil, Nat.add_zero]
  omega

theorem depth_swap (l l₂ : Edit) (left right : List Edit) :
    depth (l :: l₂ :: left) right = depth (l₂ :: l :: left) right := by
  simp only [depth, total_cons, Nat.add_left_comm]

theorem inserts_le (e : Edit) : e.inserts ≤ 1 := by
  cases e <;> simp [inserts]

theorem deletes_le (e : Edit) : e.deletes ≤ 1 := by
  cases e <;> simp [deletes]

theorem depth_le_budget (left right : List Edit) :
    depth left right ≤ Diamond.budget (left.length + right.length) := by
  have insertsL := total_le_mul inserts left inserts_le
  have insertsR := total_le_mul inserts right inserts_le
  have deletesL := total_le_mul deletes left deletes_le
  have deletesR := total_le_mul deletes right deletes_le
  have hleft : total deletes left * 2 ^ total inserts right ≤
      left.length * 2 ^ (left.length + right.length) :=
    Nat.mul_le_mul (by omega) (Nat.pow_le_pow_right (by omega) (by omega))
  have hright : total deletes right * 2 ^ total inserts left ≤
      right.length * 2 ^ (left.length + right.length) :=
    Nat.mul_le_mul (by omega) (Nat.pow_le_pow_right (by omega) (by omega))
  have hbudget : Diamond.budget (left.length + right.length) =
      left.length * 2 ^ (left.length + right.length) +
        right.length * 2 ^ (left.length + right.length) + (left.length + right.length) + 1 := by
    rw [← Nat.add_mul]
    rfl
  simp only [depth]
  omega

theorem transform_ne_unfinished {a : Algebra Document Edit} (deep : a.Deep)
    (empty : a.isEmpty = isEmpty)
    (cell : ∀ l r d, a.cross l r = .ok d → Bounded [l] [r] d)
    (finished : ∀ l r, a.cross l r ≠ .error .unfinished) (left right : List Edit) :
    a.transform left right ≠ .error .unfinished := by
  refine deep.transform_ne_unfinished depth finished ?_ ?_ ?_ ?_ depth_le_budget left right
  · intro l right _
    have := depth_lt_cons l [] right
    omega
  · intro l left right hl _
    -- The bound does not depend on the order of a list, so the second edit can be the one left out.
    obtain ⟨l₂, left, rfl⟩ := List.exists_cons_of_ne_nil hl
    have hsingle := depth_singleton_le l left right
    have hcons := depth_lt_cons l₂ (l :: left) right
    rw [depth_swap]
    omega
  · intro l left right d _ _ g
    rw [empty] at g
    exact (Bounded.grid cell g).depth_lt left
  · intro l r right d _ crossed
    have hnext := (cell l r d crossed).prune.swap.depth_lt right
    rw [depth_comm, depth_comm [l], empty]
    exact hnext

theorem toOpError_ne_unfinished (f : Fault) : f.toOpError ≠ .unfinished := by
  cases f <;> simp [Fault.toOpError]

theorem simple_cross_ne_unfinished (l r : Edit) :
    simpleAlgebra.cross l r ≠ .error .unfinished :=
  mapError_ne_error toOpError_ne_unfinished

theorem bounded_simple_cross {l r : Edit} {d : Diamond Edit}
    (crossed : simpleAlgebra.cross l r = .ok d) : Bounded [l] [r] d :=
  (crossed_crossSimple (mapError_eq_ok.1 crossed)).bounded

theorem simple_transform_ne_unfinished (left right : List Edit) :
    simpleAlgebra.transform left right ≠ .error .unfinished :=
  have deep : simpleAlgebra.Deep := fun _ _ => Nat.le_refl _
  transform_ne_unfinished deep rfl (fun _ _ _ => bounded_simple_cross) simple_cross_ne_unfinished
    left right

theorem total_expand (e : Edit) :
    total inserts e.expand = total inserts [e] ∧ total deletes e.expand = total deletes [e] := by
  cases e <;> simp [expand, inserts, deletes]

theorem bounded_cross {l r : Edit} {d : Diamond Edit} (crossed : l.cross r = .ok d) :
    Bounded [l] [r] d := by
  simp only [cross] at crossed
  split at crossed
  · have bounded := Bounded.grid (fun _ _ _ => bounded_simple_cross)
      (Algebra.grid_of_transform crossed)
    obtain ⟨insertsL, deletesL⟩ := total_expand l
    obtain ⟨insertsR, deletesR⟩ := total_expand r
    refine bounded.mono ?_ ?_ ?_ ?_
    · exact insertsL ▸ total_filter_le ..
    · exact insertsR ▸ total_filter_le ..
    · exact deletesL ▸ total_filter_le ..
    · exact deletesR ▸ total_filter_le ..
  · exact bounded_simple_cross crossed

end Edit

theorem transform_ne_unfinished (left right : List Edit) :
    algebra.transform left right ≠ .error .unfinished := by
  have deep : algebra.Deep := fun _ _ => Nat.le_refl _
  refine Edit.transform_ne_unfinished deep rfl (fun _ _ _ => Edit.bounded_cross) ?_ left right
  intro l r
  simp only [algebra, Edit.cross]
  split
  · exact Edit.simple_transform_ne_unfinished l.expand r.expand
  · exact Edit.simple_cross_ne_unfinished l r

end Reconcile.Text
