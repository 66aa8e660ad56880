import Reconcile.Proofs.Path

/-! The recursion that crosses two lists, with nothing to bound its depth and any relation between
two operations and what they cross to. It computes a result where it comes to an end, with a diamond
or with the error of a rule. What a bounded recursion gives, unless its depth is used up, is the one
result that this recursion computes. -/

namespace Reconcile

namespace Diamond

variable {op : Type} {isEmpty : op → Bool}
  {Crosses Crosses' : op → op → Except OpError (Diamond op) → Prop}
  {cross : op → op → Except OpError (Diamond op)} {P Q : op → Prop} {left right : List op}
  {result other : Except OpError (Diamond op)} {d : Diamond op} {e : OpError}

/-- The recursion ends on the two lists, and this is its result. -/
inductive Computes (isEmpty : op → Bool)
    (Crosses : op → op → Except OpError (Diamond op) → Prop) :
    List op → List op → Except OpError (Diamond op) → Prop
  | noLeft (right : List op) : Computes isEmpty Crosses [] right (.ok ⟨[], right⟩)
  | noRight (l : op) (left : List op) : Computes isEmpty Crosses (l :: left) [] (.ok ⟨l :: left, []⟩)
  | pair {l r : op} {result : Except OpError (Diamond op)} (crossed : Crosses l r result) :
      Computes isEmpty Crosses [l] [r] (result.map (prune isEmpty))
  | headFails {l l₂ r : op} {left right : List op} {e : OpError}
      (head : Computes isEmpty Crosses [l] (r :: right) (.error e)) :
      Computes isEmpty Crosses (l :: l₂ :: left) (r :: right) (.error e)
  | rest {l l₂ r : op} {left right : List op} {d : Diamond op}
      {result : Except OpError (Diamond op)}
      (head : Computes isEmpty Crosses [l] (r :: right) (.ok d))
      (tail : Computes isEmpty Crosses (l₂ :: left) d.right result) :
      Computes isEmpty Crosses (l :: l₂ :: left) (r :: right)
        (result.map fun t => ⟨d.left ++ t.left, t.right⟩)
  | firstFails {l r r₂ : op} {right : List op} {e : OpError} (crossed : Crosses l r (.error e)) :
      Computes isEmpty Crosses [l] (r :: r₂ :: right) (.error e)
  | next {l r r₂ : op} {right : List op} {d : Diamond op} {result : Except OpError (Diamond op)}
      (crossed : Crosses l r (.ok d))
      (tail : Computes isEmpty Crosses (d.prune isEmpty).left (r₂ :: right) result) :
      Computes isEmpty Crosses [l] (r :: r₂ :: right)
        (result.map fun t => ⟨t.left, (d.prune isEmpty).right ++ t.right⟩)

theorem computes_ofLists (cell : ∀ l r, Crosses l r (cross l r)) {n : Nat}
    (finished : ofLists isEmpty cross n left right ≠ .error .unfinished) :
    Computes isEmpty Crosses left right (ofLists isEmpty cross n left right) := by
  fun_induction ofLists isEmpty cross n left right with
  | case1 n right => exact .noLeft right
  | case2 n l left => exact .noRight l left
  | case3 n l r => exact .pair (cell l r)
  | case4 => exact absurd rfl finished
  | case5 n l l₂ left r right ihHead ihTail =>
    -- The whole fails as the head does, so that the head has not used up its depth either.
    cases head : ofLists isEmpty cross n [l] (r :: right) with
    | error e =>
      rw [head, error_bind] at finished
      have computed := ihHead (by rwa [head])
      rw [head] at computed
      exact .headFails computed
    | ok d =>
      rw [head, ok_bind] at finished
      have computed := ihHead (by simp [head])
      rw [head] at computed
      have tailFinished : ofLists isEmpty cross n (l₂ :: left) d.right ≠ .error .unfinished :=
        fun unfinished => finished (by rw [unfinished, error_bind])
      exact .rest computed (ihTail d tailFinished)
  | case6 n l r r₂ right ihTail =>
    have crossed := cell l r
    cases head : cross l r with
    | error e =>
      rw [head] at crossed
      exact .firstFails crossed
    | ok d =>
      rw [head] at crossed finished
      have tailFinished :
          ofLists isEmpty cross n (d.prune isEmpty).left (r₂ :: right) ≠ .error .unfinished :=
        fun unfinished => finished (by
          change ofLists isEmpty cross n (d.prune isEmpty).left (r₂ :: right) >>= _ = _
          rw [unfinished, error_bind])
      exact .next crossed (ihTail _ tailFinished)

theorem Computes.unique (cell : ∀ l r x y, Crosses l r x → Crosses l r y → x = y)
    (h : Computes isEmpty Crosses left right result)
    (h' : Computes isEmpty Crosses left right other) : result = other := by
  induction h generalizing other with
  | noLeft right =>
    cases h'
    rfl
  | noRight l left =>
    cases h'
    rfl
  | pair crossed =>
    cases h' with
    | pair crossed' => rw [cell _ _ _ _ crossed crossed']
  | headFails head ih =>
    cases h' with
    | headFails head' => exact ih head'
    | rest head' tail' => cases ih head'
  | rest head tail ihHead ihTail =>
    cases h' with
    | headFails head' => cases ihHead head'
    | rest head' tail' =>
      obtain rfl := Except.ok.inj (ihHead head')
      rw [ihTail tail']
  | firstFails crossed =>
    cases h' with
    | firstFails crossed' => exact cell _ _ _ _ crossed crossed'
    | next crossed' tail' => cases cell _ _ _ _ crossed crossed'
  | next crossed tail ih =>
    cases h' with
    | firstFails crossed' => cases cell _ _ _ _ crossed crossed'
    | next crossed' tail' =>
      obtain rfl := Except.ok.inj (cell _ _ _ _ crossed crossed')
      rw [ih tail']

def Keeping (isEmpty : op → Bool) (Crosses : op → op → Except OpError (Diamond op) → Prop)
    (P Q : op → Prop) : Prop :=
  ∀ ⦃l r d⦄, Crosses l r (.ok d) → P l → Q r →
    (∀ o ∈ (d.prune isEmpty).left, P o) ∧ ∀ o ∈ (d.prune isEmpty).right, Q o

theorem Computes.forall_mem (h : Computes isEmpty Crosses left right result)
    (keeps : Keeping isEmpty Crosses P Q) (hl : ∀ o ∈ left, P o) (hr : ∀ o ∈ right, Q o)
    (ended : result = .ok d) : (∀ o ∈ d.left, P o) ∧ ∀ o ∈ d.right, Q o := by
  -- One side of each step is what another step has left, so the two sides are followed together.
  induction h generalizing d with
  | noLeft right =>
    obtain rfl := Except.ok.inj ended
    exact ⟨hl, hr⟩
  | noRight l left =>
    obtain rfl := Except.ok.inj ended
    exact ⟨hl, hr⟩
  | pair crossed =>
    obtain ⟨d, rfl, rfl⟩ := map_eq_ok.1 ended
    exact keeps crossed (hl _ (List.mem_singleton_self _)) (hr _ (List.mem_singleton_self _))
  | headFails head ih => cases ended
  | rest head tail ihHead ihTail =>
    obtain ⟨t, rfl, rfl⟩ := map_eq_ok.1 ended
    obtain ⟨first, hl⟩ := List.forall_mem_cons.1 hl
    obtain ⟨onHead, hr⟩ := ihHead (List.forall_mem_singleton.2 first) hr rfl
    obtain ⟨onTail, far⟩ := ihTail hl hr rfl
    exact ⟨List.forall_mem_append.2 ⟨onHead, onTail⟩, far⟩
  | firstFails crossed => cases ended
  | next crossed tail ih =>
    obtain ⟨t, rfl, rfl⟩ := map_eq_ok.1 ended
    obtain ⟨first, hr⟩ := List.forall_mem_cons.1 hr
    obtain ⟨hl, onHead⟩ := keeps crossed (hl _ (List.mem_singleton_self _)) first
    obtain ⟨far, onTail⟩ := ih hl hr rfl
    exact ⟨far, List.forall_mem_append.2 ⟨onHead, onTail⟩⟩

theorem Computes.imp (h : Computes isEmpty Crosses left right result)
    (cell : ∀ l r x, P l → Q r → Crosses l r x → Crosses' l r x)
    (keeps : Keeping isEmpty Crosses P Q) (hl : ∀ o ∈ left, P o) (hr : ∀ o ∈ right, Q o) :
    Computes isEmpty Crosses' left right result := by
  induction h with
  | noLeft right => exact .noLeft right
  | noRight l left => exact .noRight l left
  | pair crossed =>
    exact .pair (cell _ _ _ (hl _ (List.mem_singleton_self _)) (hr _ (List.mem_singleton_self _))
      crossed)
  | headFails head ih =>
    obtain ⟨first, -⟩ := List.forall_mem_cons.1 hl
    exact .headFails (ih (List.forall_mem_singleton.2 first) hr)
  | rest head tail ihHead ihTail =>
    obtain ⟨first, hl⟩ := List.forall_mem_cons.1 hl
    have onFirst := List.forall_mem_singleton.2 first
    exact .rest (ihHead onFirst hr) (ihTail hl (head.forall_mem keeps onFirst hr rfl).2)
  | firstFails crossed =>
    obtain ⟨first, -⟩ := List.forall_mem_cons.1 hr
    exact .firstFails (cell _ _ _ (hl _ (List.mem_singleton_self _)) first crossed)
  | next crossed tail ih =>
    obtain ⟨first, hr⟩ := List.forall_mem_cons.1 hr
    have single := hl _ (List.mem_singleton_self _)
    exact .next (cell _ _ _ single first crossed) (ih (keeps crossed single first).1 hr)

theorem computes_congr (cell : ∀ l r x, P l → Q r → (Crosses l r x ↔ Crosses' l r x))
    (keeps : Keeping isEmpty Crosses P Q) (hl : ∀ o ∈ left, P o) (hr : ∀ o ∈ right, Q o) :
    Computes isEmpty Crosses left right result ↔ Computes isEmpty Crosses' left right result := by
  have keeps' : Keeping isEmpty Crosses' P Q := fun l r d crossed onLeft onRight =>
    keeps ((cell l r _ onLeft onRight).2 crossed) onLeft onRight
  constructor
  · intro computed
    exact computed.imp (fun l r x onLeft onRight => (cell l r x onLeft onRight).1) keeps hl hr
  · intro computed
    exact computed.imp (fun l r x onLeft onRight => (cell l r x onLeft onRight).2) keeps' hl hr

theorem Computes.exists_error (h : Computes isEmpty Crosses left right result)
    (keeps : Keeping isEmpty Crosses P Q) (hl : ∀ o ∈ left, P o) (hr : ∀ o ∈ right, Q o)
    (failed : result = .error e) : ∃ l r, P l ∧ Q r ∧ Crosses l r (.error e) := by
  induction h with
  | noLeft right => cases failed
  | noRight l left => cases failed
  | pair crossed =>
    obtain rfl := map_eq_error.1 failed
    exact ⟨_, _, hl _ (List.mem_singleton_self _), hr _ (List.mem_singleton_self _), crossed⟩
  | headFails head ih =>
    obtain ⟨first, -⟩ := List.forall_mem_cons.1 hl
    exact ih (List.forall_mem_singleton.2 first) hr failed
  | rest head tail ihHead ihTail =>
    obtain rfl := map_eq_error.1 failed
    obtain ⟨first, hl⟩ := List.forall_mem_cons.1 hl
    exact ihTail hl (head.forall_mem keeps (List.forall_mem_singleton.2 first) hr rfl).2 rfl
  | firstFails crossed =>
    obtain rfl := Except.error.inj failed
    obtain ⟨first, -⟩ := List.forall_mem_cons.1 hr
    exact ⟨_, _, hl _ (List.mem_singleton_self _), first, crossed⟩
  | next crossed tail ih =>
    obtain rfl := map_eq_error.1 failed
    obtain ⟨first, hr⟩ := List.forall_mem_cons.1 hr
    exact ih (keeps crossed (hl _ (List.mem_singleton_self _)) first).1 hr rfl

end Diamond

namespace Algebra

variable {σ op : Type} {a : Algebra σ op} {left right : List op}
  {result : Except OpError (Diamond op)}

/-- The recursion that crosses the two lists, without those operations that do nothing, ends, and
this is its result. -/
def Ends (a : Algebra σ op) (left right : List op) (result : Except OpError (Diamond op)) : Prop :=
  Diamond.Computes a.isEmpty (fun l r crossed => a.cross l r = crossed)
    (left.filter (!a.isEmpty ·)) (right.filter (!a.isEmpty ·)) result

theorem ends_transform (finished : a.transform left right ≠ .error .unfinished) :
    a.Ends left right (a.transform left right) :=
  Diamond.computes_ofLists (fun _ _ => rfl) finished

theorem ends_iff (finished : a.transform left right ≠ .error .unfinished) :
    a.Ends left right result ↔ result = a.transform left right := by
  constructor
  · intro ended
    exact ended.unique (fun _ _ _ _ first second => first.symm.trans second)
      (ends_transform finished)
  · intro same
    subst same
    exact ends_transform finished

end Algebra

end Reconcile
