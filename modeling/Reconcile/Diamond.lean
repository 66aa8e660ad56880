/-! Two lists of operations made at the same state cross to a diamond: each list is adapted so
that it can follow the other. `Diamond.ofLists` takes the lists apart one operation at a time and
puts the crossings of single operations together again. A crossing may return more operations than
it was given, so the recursion is asked to go down to some depth and no further. That it would have
to is an error of its own, `OpError.unfinished`; any other result is the result at every depth from
there on. -/

namespace Reconcile

inductive OpError
  | invalid (reason : String)
  | transform (reason : String)
  | unfinished
  deriving DecidableEq, Repr

def OpError.message : OpError → String
  | .invalid reason => "Invalid operation: " ++ reason
  | .transform reason => "Transform failed: " ++ reason
  | .unfinished => "Transform failed: the lists kept growing"

/-- The closing sides of a diamond: `left` is the left list, to be applied after the right one, and
`right` is the right list, to be applied after the left one. -/
structure Diamond (op : Type) where
  left : List op
  right : List op
  deriving DecidableEq, Repr

namespace Diamond

variable {op : Type}

def unchanged (l r : op) : Diamond op := ⟨[l], [r]⟩

def swap (d : Diamond op) : Diamond op := ⟨d.right, d.left⟩

def prune (isEmpty : op → Bool) (d : Diamond op) : Diamond op :=
  ⟨d.left.filter (!isEmpty ·), d.right.filter (!isEmpty ·)⟩

@[simp] theorem swap_swap (d : Diamond op) : d.swap.swap = d := rfl

/-- Crosses the first of several left operations with all of the right list, and the others with
what that leaves of it; a single left operation meets the right list one operation at a time. -/
def ofLists (isEmpty : op → Bool) (cross : op → op → Except OpError (Diamond op)) :
    Nat → List op → List op → Except OpError (Diamond op)
  | _, [], right => .ok ⟨[], right⟩
  | _, left@(_ :: _), [] => .ok ⟨left, []⟩
  | _, [l], [r] => (cross l r).map (prune isEmpty)
  | 0, _, _ => .error .unfinished
  | n + 1, l :: l₂ :: left, right@(_ :: _) => do
    let head ← ofLists isEmpty cross n [l] right
    let tail ← ofLists isEmpty cross n (l₂ :: left) head.right
    return ⟨head.left ++ tail.left, tail.right⟩
  | n + 1, [l], r :: r₂ :: right => do
    let head ← (cross l r).map (prune isEmpty)
    let tail ← ofLists isEmpty cross n head.left (r₂ :: right)
    return ⟨tail.left, head.right ++ tail.right⟩

private theorem bind_congr_of_ne {α β : Type} {x y : Except OpError α}
    {f g : α → Except OpError β} (finished : x >>= f ≠ .error .unfinished)
    (hx : x ≠ .error .unfinished → y = x) (hf : ∀ a, f a ≠ .error .unfinished → g a = f a) :
    y >>= g = x >>= f := by
  cases x with
  | error e =>
    rw [hx fun he => finished (by rw [he]; rfl)]
    rfl
  | ok a =>
    rw [hx (by simp)]
    exact hf a finished

theorem ofLists_of_le {isEmpty : op → Bool} {cross : op → op → Except OpError (Diamond op)}
    {n m : Nat} {left right : List op}
    (finished : ofLists isEmpty cross n left right ≠ .error .unfinished) (h : n ≤ m) :
    ofLists isEmpty cross m left right = ofLists isEmpty cross n left right := by
  fun_induction ofLists isEmpty cross n left right generalizing m with
  | case1 => simp [ofLists]
  | case2 => simp [ofLists]
  | case3 => simp [ofLists]
  | case4 => exact absurd rfl finished
  | case5 n l l₂ left r right ihHead ihTail =>
    obtain ⟨m, rfl⟩ : ∃ k, m = k + 1 := ⟨m - 1, by omega⟩
    have hle : n ≤ m := by omega
    rw [ofLists]
    refine bind_congr_of_ne finished (ihHead · hle) fun head hd => ?_
    exact bind_congr_of_ne hd (ihTail head · hle) fun _ _ => rfl
  | case6 n l r r₂ right ihTail =>
    obtain ⟨m, rfl⟩ : ∃ k, m = k + 1 := ⟨m - 1, by omega⟩
    have hle : n ≤ m := by omega
    rw [ofLists]
    refine bind_congr_of_ne finished (fun _ => rfl) fun head hd => ?_
    exact bind_congr_of_ne hd (ihTail head · hle) fun _ _ => rfl

/-- Enough depth for rules under which an operation splits at most once per opposing operation. -/
def budget (n : Nat) : Nat := n * (Nat.pow 2 n + 1) + 1

end Diamond

end Reconcile
