import Std.Data.ExtTreeMap
import Reconcile.Proofs.Lawful

/-! Algebras over maps whose operations concern one key each. What happens to one key is an algebra
of its own, and its laws are those of the whole: operations on different keys do not meet. -/

namespace Reconcile

variable {K V : Type} [Ord K] [Std.TransOrd K]

def put (m : Std.ExtTreeMap K V) (k : K) (v : Option V) : Std.ExtTreeMap K V :=
  m.alter k fun _ => v

@[simp] theorem getElem?_put_self (m : Std.ExtTreeMap K V) (k : K) (v : Option V) :
    (put m k v)[k]? = v := by
  simp [put]

variable [Std.LawfulEqOrd K]

theorem getElem?_put_of_ne {j k : K} (h : k ≠ j) (m : Std.ExtTreeMap K V) (v : Option V) :
    (put m k v)[j]? = m[j]? := by
  have hne : compare k j ≠ .eq := fun he => h (Std.LawfulEqOrd.compare_eq_iff_eq.1 he)
  rw [put, Std.ExtTreeMap.getElem?_alter, if_neg hne]

theorem put_put (m : Std.ExtTreeMap K V) (k : K) (v w : Option V) :
    put (put m k v) k w = put m k w := by
  ext1 j
  by_cases h : k = j
  · subst h
    simp
  · simp only [getElem?_put_of_ne h]

theorem put_comm {j k : K} (h : k ≠ j) (m : Std.ExtTreeMap K V) (v w : Option V) :
    put (put m k v) j w = put (put m j w) k v := by
  ext1 i
  by_cases hk : k = i
  · subst hk
    rw [getElem?_put_of_ne (Ne.symm h), getElem?_put_self, getElem?_put_self]
  · rw [getElem?_put_of_ne hk]
    by_cases hj : j = i
    · subst hj
      simp
    · simp only [getElem?_put_of_ne hj, getElem?_put_of_ne hk]

theorem put_getElem? (m : Std.ExtTreeMap K V) (k : K) : put m k m[k]? = m := by
  ext1 j
  by_cases h : k = j
  · subst h
    simp
  · rw [getElem?_put_of_ne h]

namespace Algebra

variable {op : Type} {a : Algebra (Std.ExtTreeMap K V) op} {key : op → K}
  {one : Algebra (Option V) op} {goodL goodR : Option V → op → Prop}

/-- Each operation concerns one key, and there does what it does in the algebra `one`. -/
structure Keyed (a : Algebra (Std.ExtTreeMap K V) op) (key : op → K)
    (one : Algebra (Option V) op) : Prop where
  apply : ∀ m o, a.apply m o = (one.apply m[key o]? o).map (put m (key o))
  isEmpty : a.isEmpty = one.isEmpty
  changes : ∀ m o, a.changes m o = one.changes m[key o]? o
  invert : ∀ o, a.invert o = one.invert o ∧ key (one.invert o) = key o
  squash : ∀ {first second}, key first = key second →
    a.squash first second = one.squash first second
  squash_of_ne : ∀ {first second}, key first ≠ key second → a.squash first second = [first, second]
  key_squash : ∀ {first second}, key first = key second →
    ∀ o ∈ one.squash first second, key o = key first
  cross : ∀ {l r}, key l = key r → a.cross l r = one.cross l r
  cross_of_ne : ∀ {l r}, key l ≠ key r → a.cross l r = .ok (.unchanged l r)
  key_cross : ∀ {l r d}, key l = key r → one.cross l r = .ok d →
    (∀ o ∈ d.left, key o = key l) ∧ ∀ o ∈ d.right, key o = key l

def atKey (key : op → K) (good : Option V → op → Prop) : Std.ExtTreeMap K V → op → Prop :=
  fun m o => good m[key o]? o

omit [Std.LawfulEqOrd K] in
theorem Keyed.apply_eq_ok (k : a.Keyed key one) {m n : Std.ExtTreeMap K V} {o : op} :
    a.apply m o = .ok n ↔ ∃ v, one.apply m[key o]? o = .ok v ∧ put m (key o) v = n := by
  rw [k.apply, map_eq_ok]

theorem Keyed.path (k : a.Keyed key one) {good : Option V → op → Prop} {c : K} {v w : Option V}
    {ops : List op} (p : one.Path good v ops w) (same : ∀ o ∈ ops, key o = c)
    (m : Std.ExtTreeMap K V) : a.Path (atKey key good) (put m c v) ops (put m c w) := by
  induction p with
  | nil v => exact .nil _
  | @cons v u w o ops applied fine rest ih =>
    obtain ⟨ho, same⟩ := List.forall_mem_cons.1 same
    subst ho
    refine .cons (t := put m (key o) u) ?_ ?_ (ih same)
    · exact k.apply_eq_ok.2 ⟨u, by rwa [getElem?_put_self], put_put m (key o) v u⟩
    · rwa [atKey, getElem?_put_self]

omit [Std.LawfulEqOrd K] in
theorem Keyed.cross_cases (k : a.Keyed key one) {l r : op} {d : Diamond op}
    (crossed : a.cross l r = .ok d) :
    key l = key r ∧ one.cross l r = .ok d ∨ key l ≠ key r ∧ d = .unchanged l r := by
  by_cases same : key l = key r
  · rw [k.cross same] at crossed
    exact .inl ⟨same, crossed⟩
  · rw [k.cross_of_ne same] at crossed
    exact .inr ⟨same, (Except.ok.inj crossed).symm⟩

omit [Std.LawfulEqOrd K] in
theorem Keyed.keys_cross (k : a.Keyed key one) {l r : op} {d : Diamond op}
    (crossed : a.cross l r = .ok d) :
    (∀ o ∈ d.left, key o = key l) ∧ ∀ o ∈ d.right, key o = key r := by
  rcases k.cross_cases crossed with ⟨same, crossed⟩ | ⟨-, rfl⟩
  · rw [← same]
    exact k.key_cross same crossed
  · exact ⟨by simp [Diamond.unchanged], by simp [Diamond.unchanged]⟩

theorem Keyed.emptyIdle (k : a.Keyed key one) (idle : one.EmptyIdle) : a.EmptyIdle := by
  intro m n o empty applied
  obtain ⟨v, hv, rfl⟩ := k.apply_eq_ok.1 applied
  rw [idle (k.isEmpty ▸ empty) hv, put_getElem?]

theorem Keyed.joins (k : a.Keyed key one) (idle : one.EmptyIdle) (joins : one.Joins goodL goodR) :
    a.Joins (atKey key goodL) (atKey key goodR) := by
  intro m ml mr l r d crossed hl fineL hr fineR
  obtain ⟨v, hv, rfl⟩ := k.apply_eq_ok.1 hl
  obtain ⟨w, hw, rfl⟩ := k.apply_eq_ok.1 hr
  rcases k.cross_cases crossed with ⟨same, crossed⟩ | ⟨same, rfl⟩
  · rw [atKey, ← same] at fineR
    rw [← same] at hw ⊢
    obtain ⟨keyL, keyR⟩ := k.key_cross same crossed
    obtain ⟨u, hright, hleft⟩ := joins crossed hv fineL hw fineR
    rw [k.isEmpty]
    exact ⟨put m (key l) u, k.path hright (fun o ho => keyR o (List.mem_filter.1 ho).1) m,
      k.path hleft (fun o ho => keyL o (List.mem_filter.1 ho).1) m⟩
  · have applyL : a.apply (put m (key r) w) l = .ok (put (put m (key r) w) (key l) v) :=
      k.apply_eq_ok.2 ⟨v, by rwa [getElem?_put_of_ne (Ne.symm same)], rfl⟩
    have applyR : a.apply (put m (key l) v) r = .ok (put (put m (key r) w) (key l) v) :=
      k.apply_eq_ok.2 ⟨w, by rwa [getElem?_put_of_ne same], put_comm same m v w⟩
    have goodL' : atKey key goodL (put m (key r) w) l := by
      rwa [atKey, getElem?_put_of_ne (Ne.symm same)]
    have goodR' : atKey key goodR (put m (key l) v) r := by
      rwa [atKey, getElem?_put_of_ne same]
    exact ⟨_, ((path_singleton.2 ⟨applyR, goodR'⟩).filter (k.emptyIdle idle)).mono fun _ _ h => h.1,
      ((path_singleton.2 ⟨applyL, goodL'⟩).filter (k.emptyIdle idle)).mono fun _ _ h => h.1⟩

theorem Keyed.applyAll_at [DecidableEq K] (k : a.Keyed key one) (c : K)
    {m n : Std.ExtTreeMap K V} {ops : List op} (applied : a.applyAll m ops = .ok n) :
    one.applyAll m[c]? (ops.filter (key · = c)) = .ok n[c]? := by
  induction ops generalizing m with
  | nil =>
    obtain rfl := Except.ok.inj applied
    rfl
  | cons o ops ih =>
    obtain ⟨mid, first, rest⟩ := bind_eq_ok.1 applied
    obtain ⟨v, hv, rfl⟩ := k.apply_eq_ok.1 first
    have rest := ih rest
    by_cases same : key o = c
    · subst same
      rw [getElem?_put_self] at rest
      rw [List.filter_cons_of_pos (by simp), applyAll_cons, hv, ok_bind]
      exact rest
    · rw [getElem?_put_of_ne same] at rest
      rwa [List.filter_cons_of_neg (by simpa using same)]

omit [Std.LawfulEqOrd K] in
theorem Keyed.grid_at [DecidableEq K] (k : a.Keyed key one) (c : K) {left right : List op}
    {d : Diamond op} (g : Diamond.Grid a.isEmpty a.cross left right d)
    (hl : ∀ o ∈ left, a.isEmpty o = false) (hr : ∀ o ∈ right, a.isEmpty o = false) :
    Diamond.Grid one.isEmpty one.cross (left.filter (key · = c)) (right.filter (key · = c))
      ⟨d.left.filter (key · = c), d.right.filter (key · = c)⟩ := by
  induction g with
  | noLeft right => exact .noLeft _
  | noRight left => exact .noRight _
  | @cell l r d crossed =>
    have emptyL := hl l (List.mem_singleton_self l)
    have emptyR := hr r (List.mem_singleton_self r)
    rcases k.cross_cases crossed with ⟨same, crossed⟩ | ⟨same, rfl⟩
    · obtain ⟨keyL, keyR⟩ := k.key_cross same crossed
      -- All that is crossed here concerns one key, which is the one looked at or is not.
      have every (ops : List op) (keys : ∀ o ∈ ops, key o = key l) :
          ops.filter (key · = c) = if key l = c then ops else [] := by
        split
        · rename_i found
          exact List.filter_eq_self.2 fun o h => by simp [keys o h, found]
        · rename_i missing
          exact List.filter_eq_nil_iff.2 fun o h => by simp [keys o h, missing]
      rw [every [l] (by simp), every [r] (by simp [same]),
        every (d.prune a.isEmpty).left fun o h => keyL o (List.mem_filter.1 h).1,
        every (d.prune a.isEmpty).right fun o h => keyR o (List.mem_filter.1 h).1,
        k.isEmpty]
      split
      · exact .cell crossed
      · exact .noLeft []
    · have kept : (Diamond.unchanged l r).prune a.isEmpty = ⟨[l], [r]⟩ := by
        simp [Diamond.prune, Diamond.unchanged, emptyL, emptyR]
      rw [kept]
      by_cases found : key l = c
      · have missing : [r].filter (key · = c) = [] := by simp [← found, Ne.symm same]
        rw [missing]
        exact .noRight _
      · have missing : [l].filter (key · = c) = [] := by simp [found]
        rw [missing]
        exact .noLeft _
  | alongLeft before after ihBefore ihAfter =>
    obtain ⟨hfirst, hsecond⟩ := List.forall_mem_append.1 hl
    have between := (before.nonempty hfirst hr).2
    rw [List.filter_append, List.filter_append]
    exact (ihBefore hfirst hr).alongLeft (ihAfter hsecond between)
  | alongRight before after ihBefore ihAfter =>
    obtain ⟨hfirst, hsecond⟩ := List.forall_mem_append.1 hr
    have between := (before.nonempty hl hfirst).1
    rw [List.filter_append, List.filter_append]
    exact (ihBefore hl hfirst).alongRight (ihAfter between hsecond)

omit [Std.LawfulEqOrd K] in
theorem Keyed.atKey_changes (k : a.Keyed key one) :
    atKey key (fun v o => one.changes v o = true) = fun m o => a.changes m o = true := by
  funext m o
  rw [atKey, k.changes]

theorem Keyed.lawful (k : a.Keyed key one) (lawful : one.Lawful) : a.Lawful where
  idle := k.emptyIdle lawful.idle
  steady := by
    intro m n o applied unchanged
    obtain ⟨v, hv, rfl⟩ := k.apply_eq_ok.1 applied
    rw [lawful.steady hv (k.changes m o ▸ unchanged), put_getElem?]
  undo := by
    intro m n o applied changed
    obtain ⟨v, hv, rfl⟩ := k.apply_eq_ok.1 applied
    obtain ⟨hinvert, hkey⟩ := k.invert o
    refine k.apply_eq_ok.2 ⟨m[key o]?, ?_, ?_⟩
    · rw [hinvert, hkey, getElem?_put_self]
      exact lawful.undo hv (k.changes m o ▸ changed)
    · rw [hinvert, hkey, put_put, put_getElem?]
  squash := by
    intro m n first second path
    by_cases same : key first = key second
    · obtain ⟨u, hfirst, changedFirst, path⟩ := path_cons.1 path
      obtain ⟨hsecond, changedSecond⟩ := path_singleton.1 path
      obtain ⟨v, hv, rfl⟩ := k.apply_eq_ok.1 hfirst
      obtain ⟨w, hw, rfl⟩ := k.apply_eq_ok.1 hsecond
      rw [k.changes] at changedFirst changedSecond
      rw [← same, getElem?_put_self] at hw changedSecond
      have short := lawful.squash (path_cons.2 ⟨v, hv, changedFirst,
        path_singleton.2 ⟨hw, changedSecond⟩⟩)
      have long := k.path short
        (fun o ho => k.key_squash same o (List.mem_filter.1 ho).1) m
      rw [put_getElem?, k.atKey_changes] at long
      rwa [k.squash same, k.isEmpty, ← same, put_put]
    · rw [k.squash_of_ne same]
      exact (path.filter (k.emptyIdle lawful.idle)).mono fun _ _ h => h.1
  joins := by
    have joins := k.joins lawful.idle lawful.joins
    rwa [k.atKey_changes] at joins

end Algebra

end Reconcile
