import Reconcile.Proofs.Path

/-! Crossings that lose weight come to an end. A crossing may turn one operation into several, but
then it has to drop weight elsewhere; one that leaves both sides as they are costs nothing. -/

namespace Reconcile

variable {op : Type} {weight : op → Nat} {left right first second : List op}

/-- A crossing loses weight, or it leaves both lists as they are. -/
def Lighter (weight : op → Nat) (left right : List op) (d : Diamond op) : Prop :=
  total weight d.left + total weight d.right < total weight left + total weight right ∨
    d = ⟨left, right⟩

theorem total_pos (pos : ∀ o, 0 < weight o) {ops : List op} (h : ops ≠ []) :
    0 < total weight ops := by
  obtain ⟨o, ops, rfl⟩ := List.exists_cons_of_ne_nil h
  have := pos o
  simp only [total_cons]
  omega

theorem total_filter_lt_or_eq (pos : ∀ o, 0 < weight o) (keep : op → Bool) (ops : List op) :
    total weight (ops.filter keep) < total weight ops ∨ ops.filter keep = ops := by
  induction ops with
  | nil => exact .inr rfl
  | cons o ops ih =>
    cases kept : keep o with
    | true =>
      rw [List.filter_cons_of_pos kept]
      rcases ih with lost | same
      · left
        simp only [total_cons]
        omega
      · right
        rw [same]
    | false =>
      left
      have hpos := pos o
      have hrest := total_filter_le weight keep ops
      rw [List.filter_cons_of_neg (by simp [kept]), total_cons]
      omega

theorem Lighter.swap {d : Diamond op} (h : Lighter weight left right d) :
    Lighter weight right left d.swap := by
  rcases h with lost | rfl
  · left
    simp only [Diamond.swap]
    omega
  · right
    rfl

theorem Lighter.along {head tail : Diamond op} (before : Lighter weight first right head)
    (after : Lighter weight second head.right tail) :
    Lighter weight (first ++ second) right ⟨head.left ++ tail.left, tail.right⟩ := by
  rcases before with lostBefore | rfl
  · left
    simp only [total_append]
    rcases after with lostAfter | rfl
    · omega
    · simp only
      omega
  · rcases after with lostAfter | rfl
    · left
      simp only [total_append] at lostAfter ⊢
      omega
    · right
      rfl

theorem Lighter.prune (pos : ∀ o, 0 < weight o) (isEmpty : op → Bool) {d : Diamond op}
    (h : Lighter weight left right d) : Lighter weight left right (d.prune isEmpty) := by
  have hleft := total_filter_lt_or_eq pos (!isEmpty ·) d.left
  have hright := total_filter_lt_or_eq pos (!isEmpty ·) d.right
  rcases h with lost | rfl
  · left
    have := total_filter_le weight (!isEmpty ·) d.left
    have := total_filter_le weight (!isEmpty ·) d.right
    simp only [Diamond.prune]
    omega
  · simp only [Lighter, Diamond.prune] at hleft hright ⊢
    rcases hleft with lostL | sameL
    · left
      have := total_filter_le weight (!isEmpty ·) right
      omega
    · rcases hright with lostR | sameR
      · left
        rw [sameL]
        omega
      · right
        rw [sameL, sameR]

namespace Algebra

variable {σ : Type} {a : Algebra σ op}

theorem lighter_grid (pos : ∀ o, 0 < weight o)
    (cell : ∀ l r d, a.cross l r = .ok d → Lighter weight [l] [r] d) {d : Diamond op}
    (g : Diamond.Grid a.isEmpty a.cross left right d) : Lighter weight left right d := by
  induction g with
  | noLeft right => exact .inr rfl
  | noRight left => exact .inr rfl
  | cell crossed => exact (cell _ _ _ crossed).prune pos a.isEmpty
  | alongLeft before after ihBefore ihAfter => exact ihBefore.along ihAfter
  | alongRight before after ihBefore ihAfter => exact (ihBefore.swap.along ihAfter.swap).swap

theorem transformWithin_ne_unfinished_of_lighter (pos : ∀ o, 0 < weight o)
    (cell : ∀ l r d, a.cross l r = .ok d → Lighter weight [l] [r] d)
    (finished : ∀ l r, a.cross l r ≠ .error .unfinished) {n : Nat}
    (enough : total weight left + total weight right ≤ n) :
    a.transformWithin n left right ≠ .error .unfinished := by
  have hl := total_filter_le weight (!a.isEmpty ·) left
  have hr := total_filter_le weight (!a.isEmpty ·) right
  refine Diamond.ofLists_ne_unfinished (fun left right => total weight left + total weight right)
    finished ?_ ?_ ?_ ?_ (by omega)
  · intro l right h
    have := total_pos pos h
    omega
  · intro l left right hl _
    have := total_pos pos hl
    simp only [total_cons, total_nil]
    omega
  · intro l left right d _ _ g
    have hl := pos l
    rcases lighter_grid pos cell g with lost | rfl
    · simp only [total_cons, total_nil] at lost ⊢
      omega
    · simp only [total_cons]
      omega
  · intro l r right d _ crossed
    have hr := pos r
    rcases (cell l r d crossed).prune pos a.isEmpty with lost | same
    · simp only [total_cons, total_nil] at lost ⊢
      omega
    · rw [same]
      simp only [total_cons, total_nil]
      omega

theorem total_add_total_le (le : ∀ o, weight o ≤ 2) (left right : List op) :
    total weight left + total weight right ≤ 2 * (left.length + right.length) := by
  have hl := total_le_mul weight left le
  have hr := total_le_mul weight right le
  omega

theorem two_mul_le_budget (n : Nat) : 2 * n ≤ Diamond.budget n := by
  have hpow : 0 < Nat.pow 2 n := Nat.pow_pos (by omega)
  have := Nat.mul_le_mul_left n hpow
  simp only [Diamond.budget]
  rw [Nat.mul_add, Nat.mul_one]
  omega

theorem Deep.transform_ne_unfinished_of_lighter (deep : a.Deep) (pos : ∀ o, 0 < weight o)
    (le : ∀ o, weight o ≤ 2)
    (cell : ∀ l r d, a.cross l r = .ok d → Lighter weight [l] [r] d)
    (finished : ∀ l r, a.cross l r ≠ .error .unfinished) (left right : List op) :
    a.transform left right ≠ .error .unfinished :=
  transformWithin_ne_unfinished_of_lighter pos cell finished
    (Nat.le_trans (total_add_total_le le left right)
      (Nat.le_trans (two_mul_le_budget _) (deep left right)))

end Algebra

end Reconcile
