import Mathlib.Algebra.Ring.Nat
import Reconcile.Diamond

/-! What it means for two lists to cross to a diamond, whatever the order in which they are taken
apart: crossings of single operations are put side by side along either list. `Diamond.ofLists`
builds such a grid, so that facts about whole lists follow by induction on it. The last two
theorems say when the recursion comes to an end, and when it meets no error on its way. -/

namespace Reconcile

theorem ok_bind {ε α β : Type} (a : α) (f : α → Except ε β) : Except.ok a >>= f = f a := rfl

theorem error_bind {ε α β : Type} (e : ε) (f : α → Except ε β) :
    Except.error e >>= f = .error e := rfl

theorem bind_eq_ok {ε α β : Type} {x : Except ε α} {f : α → Except ε β} {b : β} :
    x >>= f = .ok b ↔ ∃ a, x = .ok a ∧ f a = .ok b := by
  cases x with
  | error e => simp [error_bind]
  | ok a => simp [ok_bind]

theorem bind_eq_error {ε α β : Type} {x : Except ε α} {f : α → Except ε β} {e : ε} :
    x >>= f = .error e ↔ x = .error e ∨ ∃ a, x = .ok a ∧ f a = .error e := by
  cases x with
  | error e' => simp [error_bind]
  | ok a => simp [ok_bind]

theorem map_eq_ok {ε α β : Type} {x : Except ε α} {f : α → β} {b : β} :
    x.map f = .ok b ↔ ∃ a, x = .ok a ∧ f a = b := by
  cases x with
  | error e => simp [Except.map]
  | ok a => simp [Except.map]

theorem map_eq_error {ε α β : Type} {x : Except ε α} {f : α → β} {e : ε} :
    x.map f = .error e ↔ x = .error e := by
  cases x with
  | error e' => simp [Except.map]
  | ok a => simp [Except.map]

theorem mapError_eq_ok {ε ε' α : Type} {x : Except ε α} {f : ε → ε'} {a : α} :
    x.mapError f = .ok a ↔ x = .ok a := by
  cases x with
  | error e =>
    change Except.error (f e) = .ok a ↔ Except.error e = .ok a
    simp
  | ok b =>
    change Except.ok b = .ok a ↔ Except.ok b = .ok a
    simp

theorem mapError_eq_error {ε ε' α : Type} {x : Except ε α} {f : ε → ε'} {e : ε'} :
    x.mapError f = .error e ↔ ∃ fault, x = .error fault ∧ f fault = e := by
  cases x with
  | error fault =>
    change Except.error (f fault) = .error e ↔ ∃ fault', Except.error fault = .error fault' ∧ _
    simp
  | ok a =>
    change Except.ok a = .error e ↔ ∃ fault, Except.ok a = .error fault ∧ _
    simp

theorem mapError_ne_error {ε ε' α : Type} {x : Except ε α} {f : ε → ε'} {e : ε'}
    (hf : ∀ fault, f fault ≠ e) : x.mapError f ≠ .error e := by
  intro h
  cases x with
  | error fault => exact hf fault (Except.error.inj h)
  | ok a => cases h

theorem bind_ne_error {ε α β : Type} {x : Except ε α} {f : α → Except ε β} {e : ε}
    (hx : x ≠ .error e) (hf : ∀ a, x = .ok a → f a ≠ .error e) : x >>= f ≠ .error e := by
  cases x with
  | error e' => exact fun h => hx (congrArg Except.error (Except.error.inj h))
  | ok a => exact hf a rfl

theorem map_ne_error {ε α β : Type} {x : Except ε α} {f : α → β} {e : ε}
    (hx : x ≠ .error e) : x.map f ≠ .error e := by
  intro h
  cases x with
  | error e' => exact hx (congrArg Except.error (Except.error.inj h))
  | ok a => cases h

def total {op : Type} (weight : op → Nat) (ops : List op) : Nat := (ops.map weight).sum

section Total

variable {op : Type} (weight : op → Nat)

@[simp] theorem total_nil : total weight [] = 0 := rfl

@[simp] theorem total_cons (o : op) (ops : List op) :
    total weight (o :: ops) = weight o + total weight ops := by
  simp [total]

@[simp] theorem total_append (xs ys : List op) :
    total weight (xs ++ ys) = total weight xs + total weight ys := by
  simp [total]

theorem total_filter_le (keep : op → Bool) (ops : List op) :
    total weight (ops.filter keep) ≤ total weight ops := by
  induction ops with
  | nil => exact Nat.le_refl 0
  | cons o ops ih =>
    rw [List.filter_cons]
    split <;> simp only [total_cons] <;> omega

theorem total_le_mul {bound : Nat} (ops : List op) (h : ∀ o, weight o ≤ bound) :
    total weight ops ≤ bound * ops.length := by
  induction ops with
  | nil => exact Nat.le_refl 0
  | cons o ops ih =>
    have := h o
    simp only [total_cons, List.length_cons, Nat.mul_add, Nat.mul_one]
    omega

end Total

namespace Diamond

variable {op : Type} {isEmpty : op → Bool} {cross : op → op → Except OpError (Diamond op)}

/-- The two lists are crossed cell by cell, and the diamond has the far sides of all the cells. -/
inductive Grid (isEmpty : op → Bool) (cross : op → op → Except OpError (Diamond op)) :
    List op → List op → Diamond op → Prop
  | noLeft (right : List op) : Grid isEmpty cross [] right ⟨[], right⟩
  | noRight (left : List op) : Grid isEmpty cross left [] ⟨left, []⟩
  | cell {l r : op} {d : Diamond op} (crossed : cross l r = .ok d) :
      Grid isEmpty cross [l] [r] (d.prune isEmpty)
  | alongLeft {first second right : List op} {head tail : Diamond op}
      (before : Grid isEmpty cross first right head)
      (after : Grid isEmpty cross second head.right tail) :
      Grid isEmpty cross (first ++ second) right ⟨head.left ++ tail.left, tail.right⟩
  | alongRight {left first second : List op} {head tail : Diamond op}
      (before : Grid isEmpty cross left first head)
      (after : Grid isEmpty cross head.left second tail) :
      Grid isEmpty cross left (first ++ second) ⟨tail.left, head.right ++ tail.right⟩

theorem grid_of_ofLists {n : Nat} {left right : List op} {d : Diamond op}
    (h : ofLists isEmpty cross n left right = .ok d) : Grid isEmpty cross left right d := by
  fun_induction ofLists isEmpty cross n left right generalizing d with
  | case1 n right =>
    obtain rfl := Except.ok.inj h
    exact .noLeft right
  | case2 n l left =>
    obtain rfl := Except.ok.inj h
    exact .noRight (l :: left)
  | case3 n l r =>
    obtain ⟨d, crossed, rfl⟩ := map_eq_ok.1 h
    exact .cell crossed
  | case4 => cases h
  | case5 n l l₂ left r right ihHead ihTail =>
    obtain ⟨head, hhead, h⟩ := bind_eq_ok.1 h
    obtain ⟨tail, htail, h⟩ := bind_eq_ok.1 h
    obtain rfl := Except.ok.inj h
    exact .alongLeft (ihHead hhead) (ihTail head htail)
  | case6 n l r r₂ right ihTail =>
    obtain ⟨head, hhead, h⟩ := bind_eq_ok.1 h
    obtain ⟨tail, htail, h⟩ := bind_eq_ok.1 h
    obtain rfl := Except.ok.inj h
    obtain ⟨d, crossed, rfl⟩ := map_eq_ok.1 hhead
    exact .alongRight (.cell crossed) (ihTail _ htail)

theorem Grid.forall_mem {P Q : op → Prop} {left right : List op} {d : Diamond op}
    (g : Grid isEmpty cross left right d)
    (cell : ∀ {l r d}, cross l r = .ok d → P l → Q r →
      (∀ o ∈ (d.prune isEmpty).left, P o) ∧ ∀ o ∈ (d.prune isEmpty).right, Q o)
    (hl : ∀ o ∈ left, P o) (hr : ∀ o ∈ right, Q o) :
    (∀ o ∈ d.left, P o) ∧ ∀ o ∈ d.right, Q o := by
  induction g with
  | noLeft right => exact ⟨hl, hr⟩
  | noRight left => exact ⟨hl, hr⟩
  | @cell l r d crossed =>
    have onLeft : P l := hl l (List.mem_singleton_self l)
    have onRight : Q r := hr r (List.mem_singleton_self r)
    exact cell crossed onLeft onRight
  | alongLeft before after ihBefore ihAfter =>
    simp only [List.mem_append, or_imp, forall_and] at hl ⊢
    obtain ⟨hhead, hright⟩ := ihBefore hl.1 hr
    obtain ⟨htail, hfar⟩ := ihAfter hl.2 hright
    exact ⟨⟨hhead, htail⟩, hfar⟩
  | alongRight before after ihBefore ihAfter =>
    simp only [List.mem_append, or_imp, forall_and] at hr ⊢
    obtain ⟨hleft, hhead⟩ := ihBefore hl hr.1
    obtain ⟨hfar, htail⟩ := ihAfter hleft hr.2
    exact ⟨hfar, hhead, htail⟩

theorem Grid.nonempty {left right : List op} {d : Diamond op}
    (g : Grid isEmpty cross left right d) (hl : ∀ o ∈ left, isEmpty o = false)
    (hr : ∀ o ∈ right, isEmpty o = false) :
    (∀ o ∈ d.left, isEmpty o = false) ∧ ∀ o ∈ d.right, isEmpty o = false :=
  g.forall_mem (fun _ _ _ => by simp [prune]) hl hr

theorem Grid.left_sublist {P : op → Prop} {left right : List op} {d : Diamond op}
    (g : Grid isEmpty cross left right d)
    (cell : ∀ {l r d}, cross l r = .ok d → P l → (d.prune isEmpty).left.Sublist [l])
    (fine : ∀ o ∈ left, P o) : d.left.Sublist left := by
  induction g with
  | noLeft right => exact .refl []
  | noRight left => exact .refl left
  | cell crossed => exact cell crossed (fine _ (List.mem_singleton_self _))
  | alongLeft before after ihBefore ihAfter =>
    obtain ⟨fineFirst, fineSecond⟩ := List.forall_mem_append.1 fine
    exact (ihBefore fineFirst).append (ihAfter fineSecond)
  | alongRight before after ihBefore ihAfter =>
    have kept := ihBefore fine
    exact (ihAfter fun o h => fine o (kept.subset h)).trans kept

theorem Grid.total_le {weight : op → Nat} {left right : List op} {d : Diamond op}
    (g : Grid isEmpty cross left right d)
    (cell : ∀ l r d, cross l r = .ok d →
      total weight d.left ≤ weight l ∧ total weight d.right ≤ weight r) :
    total weight d.left ≤ total weight left ∧ total weight d.right ≤ total weight right := by
  induction g with
  | noLeft right => exact ⟨Nat.le_refl _, Nat.le_refl _⟩
  | noRight left => exact ⟨Nat.le_refl _, Nat.le_refl _⟩
  | @cell l r d crossed =>
    have hcell := cell l r d crossed
    have hleft := total_filter_le weight (!isEmpty ·) d.left
    have hright := total_filter_le weight (!isEmpty ·) d.right
    simp only [prune, total_cons, total_nil]
    omega
  | alongLeft before after ihBefore ihAfter =>
    simp only [total_append] at *
    omega
  | alongRight before after ihBefore ihAfter =>
    simp only [total_append] at *
    omega

theorem Grid.length_le {left right : List op} {d : Diamond op}
    (g : Grid isEmpty cross left right d)
    (cell : ∀ l r d, cross l r = .ok d → d.left.length + d.right.length ≤ 2) :
    d.left.length + d.right.length ≤ left.length + right.length := by
  induction g with
  | noLeft right => exact Nat.le_refl _
  | noRight left => exact Nat.le_refl _
  | @cell l r d crossed =>
    have hcell := cell l r d crossed
    have hleft := d.left.length_filter_le (!isEmpty ·)
    have hright := d.right.length_filter_le (!isEmpty ·)
    simp only [prune, List.length_singleton]
    omega
  | alongLeft before after ihBefore ihAfter =>
    simp only [List.length_append] at *
    omega
  | alongRight before after ihBefore ihAfter =>
    simp only [List.length_append] at *
    omega

theorem Grid.read_eq {β : Type} {read : List op → List β} {P Q : op → Prop}
    {left right : List op} {d : Diamond op} (g : Grid isEmpty cross left right d)
    (append : ∀ xs ys, read (xs ++ ys) = read xs ++ read ys)
    (keeps : ∀ {l r d}, cross l r = .ok d → P l → Q r →
      (∀ o ∈ (d.prune isEmpty).left, P o) ∧ ∀ o ∈ (d.prune isEmpty).right, Q o)
    (cell : ∀ {l r d}, cross l r = .ok d → P l → Q r →
      read (d.prune isEmpty).left = read [l] ∧ read (d.prune isEmpty).right = read [r])
    (hl : ∀ o ∈ left, P o) (hr : ∀ o ∈ right, Q o) :
    read d.left = read left ∧ read d.right = read right := by
  induction g with
  | noLeft right => exact ⟨rfl, rfl⟩
  | noRight left => exact ⟨rfl, rfl⟩
  | @cell l r d crossed =>
    exact cell crossed (hl l (List.mem_singleton_self l)) (hr r (List.mem_singleton_self r))
  | alongLeft before after ihBefore ihAfter =>
    obtain ⟨hfirst, hsecond⟩ := List.forall_mem_append.1 hl
    obtain ⟨headL, headR⟩ := ihBefore hfirst hr
    obtain ⟨tailL, tailR⟩ := ihAfter hsecond (before.forall_mem keeps hfirst hr).2
    rw [append, append, headL, tailL]
    exact ⟨rfl, tailR.trans headR⟩
  | alongRight before after ihBefore ihAfter =>
    obtain ⟨hfirst, hsecond⟩ := List.forall_mem_append.1 hr
    obtain ⟨headL, headR⟩ := ihBefore hl hfirst
    obtain ⟨tailL, tailR⟩ := ihAfter (before.forall_mem keeps hl hfirst).1 hsecond
    rw [append, append, headR, tailR]
    exact ⟨tailL.trans headL, rfl⟩

theorem ofLists_ne_unfinished (μ : List op → List op → Nat)
    (cell : ∀ l r, cross l r ≠ .error .unfinished)
    (pos : ∀ l right, right ≠ [] → 0 < μ [l] right)
    (head : ∀ l left right, left ≠ [] → right ≠ [] → μ [l] right < μ (l :: left) right)
    (tail : ∀ l left right d, left ≠ [] → right ≠ [] → Grid isEmpty cross [l] right d →
      μ left d.right < μ (l :: left) right)
    (next : ∀ l r right d, right ≠ [] → cross l r = .ok d →
      μ (d.prune isEmpty).left right < μ [l] (r :: right))
    {n : Nat} {left right : List op} (enough : μ left right ≤ n) :
    ofLists isEmpty cross n left right ≠ .error .unfinished := by
  have pruned (l r : op) : (cross l r).map (prune isEmpty) ≠ .error .unfinished :=
    map_ne_error (cell l r)
  fun_induction ofLists isEmpty cross n left right with
  | case1 => simp
  | case2 => simp
  | case3 n l r => exact pruned l r
  | case4 left right hleft hright hpair =>
    rcases left with _ | ⟨l, left⟩
    · exact (hleft rfl).elim
    rcases right with _ | ⟨r, right⟩
    · exact (hright l left rfl rfl).elim
    rcases left with _ | ⟨l₂, left⟩
    · have := pos l (r :: right) (by simp)
      omega
    · have := head l (l₂ :: left) (r :: right) (by simp) (by simp)
      omega
  | case5 n l l₂ left r right ihHead ihTail =>
    have hhead := head l (l₂ :: left) (r :: right) (by simp) (by simp)
    refine bind_ne_error (ihHead (by omega)) fun d hd => ?_
    have htail := tail l (l₂ :: left) (r :: right) d (by simp) (by simp) (grid_of_ofLists hd)
    exact bind_ne_error (ihTail d (by omega)) (by simp [pure, Except.pure])
  | case6 n l r r₂ right ihTail =>
    refine bind_ne_error (pruned l r) fun head hhead => ?_
    obtain ⟨d, crossed, rfl⟩ := map_eq_ok.1 hhead
    have hnext := next l r (r₂ :: right) d (by simp) crossed
    exact bind_ne_error (ihTail _ (by omega)) (by simp [pure, Except.pure])

theorem ofLists_eq_ok_or_unfinished (Ready : List op → List op → Prop)
    (cell : ∀ l r, Ready [l] [r] → ∃ d, cross l r = .ok d)
    (head : ∀ l left right, Ready (l :: left) right → Ready [l] right)
    (tail : ∀ l left right d, Ready (l :: left) right → Grid isEmpty cross [l] right d →
      Ready left d.right)
    (first : ∀ l r right, Ready [l] (r :: right) → Ready [l] [r])
    (next : ∀ l r right d, Ready [l] (r :: right) → cross l r = .ok d →
      Ready (d.prune isEmpty).left right)
    (n : Nat) {left right : List op} (ready : Ready left right) :
    (∃ d, ofLists isEmpty cross n left right = .ok d) ∨
      ofLists isEmpty cross n left right = .error .unfinished := by
  fun_induction ofLists isEmpty cross n left right with
  | case1 => exact .inl ⟨_, rfl⟩
  | case2 => exact .inl ⟨_, rfl⟩
  | case3 n l r =>
    obtain ⟨d, crossed⟩ := cell l r ready
    exact .inl ⟨_, by rw [crossed]; rfl⟩
  | case4 => exact .inr rfl
  | case5 n l l₂ left r right ihHead ihTail =>
    rcases ihHead (head _ _ _ ready) with ⟨d, hd⟩ | hd
    · rw [hd, ok_bind]
      rcases ihTail d (tail _ _ _ d ready (grid_of_ofLists hd)) with ⟨t, ht⟩ | ht
      · exact .inl ⟨_, bind_eq_ok.2 ⟨t, ht, rfl⟩⟩
      · exact .inr (by rw [ht, error_bind])
    · exact .inr (by rw [hd, error_bind])
  | case6 n l r r₂ right ihTail =>
    obtain ⟨d, crossed⟩ := cell l r (first _ _ _ ready)
    have hhead : (cross l r).map (prune isEmpty) = .ok (d.prune isEmpty) := by rw [crossed]; rfl
    rw [hhead, ok_bind]
    rcases ihTail _ (next _ _ _ d ready crossed) with ⟨t, ht⟩ | ht
    · exact .inl ⟨_, bind_eq_ok.2 ⟨t, ht, rfl⟩⟩
    · exact .inr (by rw [ht, error_bind])

end Diamond

end Reconcile
