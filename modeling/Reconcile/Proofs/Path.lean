import Reconcile.Algebra
import Reconcile.Proofs.Grid

/-! Paths of operations from one state to another. Where two single operations can be crossed and
the diamond closes, so it does for whole lists; what is known of each operation where it is applied
is carried through the diamond. -/

namespace Reconcile.Algebra

variable {σ op : Type} {a : Algebra σ op} {good goodL goodR : σ → op → Prop}

/-- The operations apply one after the other and lead from one state to another, and each of them
is `good` where it is applied. -/
inductive Path (a : Algebra σ op) (good : σ → op → Prop) : σ → List op → σ → Prop
  | nil (s : σ) : Path a good s [] s
  | cons {s t u : σ} {o : op} {ops : List op} (applied : a.apply s o = .ok t) (fine : good s o)
      (rest : Path a good t ops u) : Path a good s (o :: ops) u

abbrev Effective (a : Algebra σ op) : σ → List op → σ → Prop :=
  a.Path fun s o => a.changes s o = true

abbrev Applies (a : Algebra σ op) : σ → List op → σ → Prop :=
  a.Path fun _ _ => True

def EmptyIdle (a : Algebra σ op) : Prop :=
  ∀ ⦃s t o⦄, a.isEmpty o = true → a.apply s o = .ok t → t = s

theorem path_cons {s u : σ} {o : op} {ops : List op} :
    a.Path good s (o :: ops) u ↔
      ∃ t, a.apply s o = .ok t ∧ good s o ∧ a.Path good t ops u := by
  constructor
  · intro h
    rcases h with _ | ⟨applied, fine, rest⟩
    exact ⟨_, applied, fine, rest⟩
  · intro h
    obtain ⟨t, applied, fine, rest⟩ := h
    exact .cons applied fine rest

theorem path_nil {s t : σ} : a.Path good s [] t ↔ t = s := by
  constructor
  · intro h
    cases h
    rfl
  · intro h
    subst h
    exact .nil t

theorem path_singleton {s t : σ} {o : op} :
    a.Path good s [o] t ↔ a.apply s o = .ok t ∧ good s o := by
  simp only [path_cons, path_nil]
  constructor
  · intro h
    obtain ⟨t, applied, fine, rfl⟩ := h
    exact ⟨applied, fine⟩
  · intro h
    obtain ⟨applied, fine⟩ := h
    exact ⟨t, applied, fine, rfl⟩

theorem path_append {s u : σ} {xs ys : List op} :
    a.Path good s (xs ++ ys) u ↔ ∃ t, a.Path good s xs t ∧ a.Path good t ys u := by
  induction xs generalizing s with
  | nil => simp [path_nil]
  | cons x xs ih =>
    simp only [List.cons_append, path_cons, ih]
    constructor
    · intro h
      obtain ⟨t, applied, fine, v, hxs, hys⟩ := h
      exact ⟨v, ⟨t, applied, fine, hxs⟩, hys⟩
    · intro h
      obtain ⟨v, ⟨t, applied, fine, hxs⟩, hys⟩ := h
      exact ⟨t, applied, fine, v, hxs, hys⟩

theorem Path.mono {good' : σ → op → Prop} {s t : σ} {ops : List op}
    (p : a.Path good s ops t) (h : ∀ s o, good s o → good' s o) : a.Path good' s ops t := by
  induction p with
  | nil s => exact .nil s
  | cons applied fine rest ih => exact .cons applied (h _ _ fine) ih

theorem Path.applies {s t : σ} {ops : List op} (p : a.Path good s ops t) : a.Applies s ops t :=
  p.mono fun _ _ _ => trivial

theorem Path.of_apply_eq {b : Algebra σ op} {s t : σ} {ops : List op} (p : a.Path good s ops t)
    (same : a.apply = b.apply) : b.Path good s ops t := by
  induction p with
  | nil s => exact .nil s
  | cons applied fine rest ih => exact .cons (same ▸ applied) fine ih

theorem Applies.path {P : op → Prop} {s t : σ} {ops : List op} (p : a.Applies s ops t)
    (h : ∀ o ∈ ops, P o) : a.Path (fun _ o => P o) s ops t := by
  induction p with
  | nil s => exact .nil s
  | cons applied fine rest ih =>
    obtain ⟨ho, hops⟩ := List.forall_mem_cons.1 h
    exact .cons applied ho (ih hops)

theorem Path.forall_mem {P : op → Prop} {s t : σ} {ops : List op} (p : a.Path good s ops t)
    (h : ∀ s o, good s o → P o) : ∀ o ∈ ops, P o := by
  induction p with
  | nil s => exact List.forall_mem_nil P
  | cons applied fine rest ih => exact List.forall_mem_cons.2 ⟨h _ _ fine, ih⟩

theorem applies_iff {s t : σ} {ops : List op} :
    a.Applies s ops t ↔ a.applyAll s ops = .ok t := by
  induction ops generalizing s with
  | nil => simp [path_nil, eq_comm]
  | cons o ops ih => simp [path_cons, applyAll_cons, bind_eq_ok, ih]

theorem Path.applyAll {s t : σ} {ops : List op} (p : a.Path good s ops t) :
    a.applyAll s ops = .ok t :=
  applies_iff.1 p.applies

theorem Path.eq_of_applyAll {s t u : σ} {ops : List op} (p : a.Path good s ops t)
    (reached : a.applyAll s ops = .ok u) : t = u :=
  Except.ok.inj (p.applyAll.symm.trans reached)

theorem Path.filter (idle : a.EmptyIdle) {s t : σ} {ops : List op} (p : a.Path good s ops t) :
    a.Path (fun s o => good s o ∧ a.isEmpty o = false) s (ops.filter (!a.isEmpty ·)) t := by
  induction p with
  | nil s => exact .nil s
  | @cons s t u o ops applied fine rest ih =>
    cases empty : a.isEmpty o with
    | false =>
      rw [List.filter_cons_of_pos (by simp [empty])]
      exact .cons applied ⟨fine, empty⟩ ih
    | true =>
      rw [List.filter_cons_of_neg (by simp [empty])]
      rw [idle empty applied] at ih
      exact ih

/-- Wherever the rule crosses two operations that apply to a state, the diamond closes. -/
def Joins (a : Algebra σ op) (goodL goodR : σ → op → Prop) : Prop :=
  ∀ ⦃s sl sr l r d⦄, a.cross l r = .ok d → a.apply s l = .ok sl → goodL s l →
    a.apply s r = .ok sr → goodR s r →
      ∃ t, a.Path goodR sl (d.prune a.isEmpty).right t ∧ a.Path goodL sr (d.prune a.isEmpty).left t

theorem Joins.grid (joins : a.Joins goodL goodR) {left right : List op} {d : Diamond op}
    (g : Diamond.Grid a.isEmpty a.cross left right d) {s sl sr : σ}
    (hl : a.Path goodL s left sl) (hr : a.Path goodR s right sr) :
    ∃ t, a.Path goodR sl d.right t ∧ a.Path goodL sr d.left t := by
  -- Crossings put side by side share the path between them: where the first one closes, the
  -- second one starts.
  induction g generalizing s sl sr with
  | noLeft right =>
    obtain rfl := path_nil.1 hl
    exact ⟨sr, hr, .nil sr⟩
  | noRight left =>
    obtain rfl := path_nil.1 hr
    exact ⟨sl, .nil sl, hl⟩
  | cell crossed =>
    obtain ⟨hl, fineL⟩ := path_singleton.1 hl
    obtain ⟨hr, fineR⟩ := path_singleton.1 hr
    exact joins crossed hl fineL hr fineR
  | alongLeft before after ihBefore ihAfter =>
    obtain ⟨u, hfirst, hsecond⟩ := path_append.1 hl
    obtain ⟨v, hright, hhead⟩ := ihBefore hfirst hr
    obtain ⟨t, hfar, htail⟩ := ihAfter hsecond hright
    exact ⟨t, hfar, path_append.2 ⟨v, hhead, htail⟩⟩
  | alongRight before after ihBefore ihAfter =>
    obtain ⟨u, hfirst, hsecond⟩ := path_append.1 hr
    obtain ⟨v, hhead, hleft⟩ := ihBefore hl hfirst
    obtain ⟨t, htail, hfar⟩ := ihAfter hleft hsecond
    exact ⟨t, path_append.2 ⟨v, hhead, htail⟩, hfar⟩

theorem grid_of_transformWithin {depth : Nat} {left right : List op} {d : Diamond op}
    (h : a.transformWithin depth left right = .ok d) :
    Diamond.Grid a.isEmpty a.cross (left.filter (!a.isEmpty ·)) (right.filter (!a.isEmpty ·)) d :=
  Diamond.grid_of_ofLists h

theorem grid_of_transform {left right : List op} {d : Diamond op}
    (h : a.transform left right = .ok d) :
    Diamond.Grid a.isEmpty a.cross (left.filter (!a.isEmpty ·)) (right.filter (!a.isEmpty ·)) d :=
  grid_of_transformWithin h

theorem transform_nil_left (a : Algebra σ op) (ops : List op) :
    a.transform [] ops = .ok ⟨[], ops.filter (!a.isEmpty ·)⟩ := by
  simp only [transform, transformWithin, List.filter_nil, Diamond.ofLists]

theorem transform_nil_right (a : Algebra σ op) (ops : List op) :
    a.transform ops [] = .ok ⟨ops.filter (!a.isEmpty ·), []⟩ := by
  simp only [transform, transformWithin, List.filter_nil]
  cases ops.filter (!a.isEmpty ·) <;> simp only [Diamond.ofLists]

theorem nonempty_of_transformWithin {depth : Nat} {left right : List op} {d : Diamond op}
    (h : a.transformWithin depth left right = .ok d) :
    (∀ o ∈ d.left, a.isEmpty o = false) ∧ ∀ o ∈ d.right, a.isEmpty o = false :=
  (grid_of_transformWithin h).nonempty (by simp) (by simp)

theorem nonempty_of_transform {left right : List op} {d : Diamond op}
    (h : a.transform left right = .ok d) :
    (∀ o ∈ d.left, a.isEmpty o = false) ∧ ∀ o ∈ d.right, a.isEmpty o = false :=
  nonempty_of_transformWithin h

theorem Joins.transformWithin (joins : a.Joins goodL goodR) (idle : a.EmptyIdle) {depth : Nat}
    {left right : List op} {d : Diamond op} (h : a.transformWithin depth left right = .ok d)
    {s sl sr : σ} (hl : a.Path goodL s left sl) (hr : a.Path goodR s right sr) :
    ∃ t, a.Path goodR sl d.right t ∧ a.Path goodL sr d.left t :=
  joins.grid (grid_of_transformWithin h) ((hl.filter idle).mono fun _ _ h => h.1)
    ((hr.filter idle).mono fun _ _ h => h.1)

theorem Joins.transform (joins : a.Joins goodL goodR) (idle : a.EmptyIdle)
    {left right : List op} {d : Diamond op} (h : a.transform left right = .ok d) {s sl sr : σ}
    (hl : a.Path goodL s left sl) (hr : a.Path goodR s right sr) :
    ∃ t, a.Path goodR sl d.right t ∧ a.Path goodL sr d.left t :=
  joins.transformWithin idle h hl hr

theorem budget_mono {m n : Nat} (h : m ≤ n) : Diamond.budget m ≤ Diamond.budget n := by
  have hpow : Nat.pow 2 m ≤ Nat.pow 2 n := Nat.pow_le_pow_right (by omega) h
  have := Nat.mul_le_mul h (Nat.add_le_add_right hpow 1)
  simp only [Diamond.budget]
  omega

def Deep (a : Algebra σ op) : Prop :=
  ∀ left right, Diamond.budget (left.length + right.length) ≤ a.depth left right

theorem Deep.transform_ne_unfinished (deep : a.Deep) (μ : List op → List op → Nat)
    (cell : ∀ l r, a.cross l r ≠ .error .unfinished)
    (pos : ∀ l right, right ≠ [] → 0 < μ [l] right)
    (head : ∀ l left right, left ≠ [] → right ≠ [] → μ [l] right < μ (l :: left) right)
    (tail : ∀ l left right d, left ≠ [] → right ≠ [] →
      Diamond.Grid a.isEmpty a.cross [l] right d → μ left d.right < μ (l :: left) right)
    (next : ∀ l r right d, right ≠ [] → a.cross l r = .ok d →
      μ (d.prune a.isEmpty).left right < μ [l] (r :: right))
    (enough : ∀ left right, μ left right ≤ Diamond.budget (left.length + right.length))
    (left right : List op) : a.transform left right ≠ .error .unfinished := by
  have hl := List.length_filter_le (fun o => !a.isEmpty o) left
  have hr := List.length_filter_le (fun o => !a.isEmpty o) right
  exact Diamond.ofLists_ne_unfinished μ cell pos head tail next
    (Nat.le_trans (enough _ _) (Nat.le_trans (budget_mono (by omega)) (deep left right)))

theorem Joins.transform_ok (joins : a.Joins goodL goodR) (Fits : σ → List op → List op → Prop)
    (cell : ∀ {s sl sr l r}, a.apply s l = .ok sl → goodL s l → a.apply s r = .ok sr → goodR s r →
      Fits s [l] [r] → ∃ d, a.cross l r = .ok d)
    (head : ∀ {s l left right}, Fits s (l :: left) right → Fits s [l] right)
    (tail : ∀ {s t l left right d}, Fits s (l :: left) right → a.apply s l = .ok t →
      Diamond.Grid a.isEmpty a.cross [l] right d → Fits t left d.right)
    (first : ∀ {s l r right}, Fits s [l] (r :: right) → Fits s [l] [r])
    (next : ∀ {s t l r right d}, Fits s [l] (r :: right) → a.apply s r = .ok t →
      a.cross l r = .ok d → Fits t (d.prune a.isEmpty).left right)
    (idle : a.EmptyIdle) {left right : List op}
    (finished : a.transform left right ≠ .error .unfinished)
    {s sl sr : σ} (hl : a.Path goodL s left sl) (hr : a.Path goodR s right sr)
    (fits : Fits s (left.filter (!a.isEmpty ·)) (right.filter (!a.isEmpty ·))) :
    ∃ d, a.transform left right = .ok d := by
  -- Lists that are still to be crossed always start from a common state, which they fit.
  refine (Diamond.ofLists_eq_ok_or_unfinished
    (fun left right => ∃ s sl sr, a.Path goodL s left sl ∧ a.Path goodR s right sr ∧
      Fits s left right) ?_ ?_ ?_ ?_ ?_ _ ⟨s, sl, sr, ?_, ?_, fits⟩).resolve_right finished
  · intro l r h
    obtain ⟨s, sl, sr, hl, hr, fits⟩ := h
    obtain ⟨hl, fineL⟩ := path_singleton.1 hl
    obtain ⟨hr, fineR⟩ := path_singleton.1 hr
    exact cell hl fineL hr fineR fits
  · intro l left right h
    obtain ⟨s, sl, sr, hl, hr, fits⟩ := h
    obtain ⟨t, applied, fine, -⟩ := path_cons.1 hl
    exact ⟨s, t, sr, path_singleton.2 ⟨applied, fine⟩, hr, head fits⟩
  · intro l left right d h g
    obtain ⟨s, sl, sr, hl, hr, fits⟩ := h
    obtain ⟨t, applied, fine, rest⟩ := path_cons.1 hl
    obtain ⟨u, hright, -⟩ := joins.grid g (path_singleton.2 ⟨applied, fine⟩) hr
    exact ⟨t, sl, u, rest, hright, tail fits applied g⟩
  · intro l r right h
    obtain ⟨s, sl, sr, hl, hr, fits⟩ := h
    obtain ⟨t, applied, fine, -⟩ := path_cons.1 hr
    exact ⟨s, sl, t, hl, path_singleton.2 ⟨applied, fine⟩, first fits⟩
  · intro l r right d h crossed
    obtain ⟨s, sl, sr, hl, hr, fits⟩ := h
    obtain ⟨hl, fineL⟩ := path_singleton.1 hl
    obtain ⟨t, applied, fineR, rest⟩ := path_cons.1 hr
    obtain ⟨u, -, hleft⟩ := joins crossed hl fineL applied fineR
    exact ⟨t, u, sr, hleft, rest, next fits applied crossed⟩
  · exact (hl.filter idle).mono fun _ _ h => h.1
  · exact (hr.filter idle).mono fun _ _ h => h.1

theorem Joins.transform_ok_of_cross (joins : a.Joins (fun _ _ => True) fun _ _ => True)
    (cell : ∀ {s sl sr l r}, a.apply s l = .ok sl → a.apply s r = .ok sr →
      ∃ d, a.cross l r = .ok d)
    (idle : a.EmptyIdle) {left right : List op}
    (finished : a.transform left right ≠ .error .unfinished)
    {s sl sr : σ} (hl : a.Applies s left sl) (hr : a.Applies s right sr) :
    ∃ d, a.transform left right = .ok d :=
  joins.transform_ok (fun _ _ _ => True) (fun hl _ hr _ _ => cell hl hr) (fun _ => trivial)
    (fun _ _ _ => trivial) (fun _ => trivial) (fun _ _ _ => trivial) idle finished hl hr trivial

theorem Joins.converge (joins : a.Joins (fun _ _ => True) fun _ _ => True) (idle : a.EmptyIdle)
    {left right : List op} {d : Diamond op} (h : a.transform left right = .ok d) {s sl sr : σ}
    (hl : a.applyAll s left = .ok sl) (hr : a.applyAll s right = .ok sr) :
    ∃ t, a.applyAll s (left ++ d.right) = .ok t ∧ a.applyAll s (right ++ d.left) = .ok t := by
  obtain ⟨t, hright, hleft⟩ := joins.transform idle h (applies_iff.2 hl) (applies_iff.2 hr)
  refine ⟨t, ?_, ?_⟩
  · rw [applyAll_append, hl, ok_bind, hright.applyAll]
  · rw [applyAll_append, hr, ok_bind, hleft.applyAll]

end Reconcile.Algebra
