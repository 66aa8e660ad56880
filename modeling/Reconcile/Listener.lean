/-! A registry of change listeners. A listener is registered at most once, under an identifier that
is never given out again. -/

namespace Reconcile.Listener

structure Registry (ι : Type) where
  entries : List (Nat × ι)
  nextId : Nat
  deriving Repr

namespace Registry

variable {ι : Type}

def empty : Registry ι := ⟨[], 0⟩

def add [DecidableEq ι] (r : Registry ι) (listener : ι) : Nat × Registry ι :=
  match r.entries.find? (·.2 = listener) with
  | some (id, _) => (id, r)
  | none => (r.nextId, ⟨r.entries ++ [(r.nextId, listener)], r.nextId + 1⟩)

def remove (r : Registry ι) (id : Nat) : Bool × Registry ι :=
  (r.entries.any (·.1 = id), { r with entries := r.entries.filter (·.1 ≠ id) })

def clear (r : Registry ι) : Registry ι := { r with entries := [] }

def receivers (r : Registry ι) : List ι := r.entries.map (·.2)

theorem add_cases [DecidableEq ι] (r : Registry ι) (listener : ι) :
    (∃ id, (id, listener) ∈ r.entries ∧ r.add listener = (id, r)) ∨
      listener ∉ r.receivers ∧
        r.add listener = (r.nextId, ⟨r.entries ++ [(r.nextId, listener)], r.nextId + 1⟩) := by
  unfold add
  split
  · rename_i id other found
    have same := List.find?_some found
    obtain rfl : other = listener := of_decide_eq_true same
    exact .inl ⟨id, List.mem_of_find?_eq_some found, rfl⟩
  · rename_i missing
    refine .inr ⟨fun held => ?_, rfl⟩
    obtain ⟨entry, inside, rfl⟩ := List.mem_map.1 held
    exact absurd (decide_eq_true rfl) (List.find?_eq_none.1 missing entry inside)

theorem remove_of_missing {r : Registry ι} {id : Nat}
    (missing : ∀ entry ∈ r.entries, entry.1 ≠ id) : r.remove id = (false, r) := by
  have none : r.entries.any (·.1 = id) = false := by simpa using missing
  have all : r.entries.filter (·.1 ≠ id) = r.entries :=
    List.filter_eq_self.2 fun entry inside => decide_eq_true (missing entry inside)
  rw [remove, none, all]

theorem remove_of_entries {r : Registry ι} {id : Nat} {listener : ι}
    {before after : List (Nat × ι)} (entries : r.entries = before ++ (id, listener) :: after)
    (others : ∀ entry ∈ before ++ after, entry.1 ≠ id) :
    r.remove id = (true, { r with entries := before ++ after }) := by
  have held : r.entries.any (·.1 = id) = true := by simp [entries]
  have kept : (before ++ after).filter (·.1 ≠ id) = before ++ after :=
    List.filter_eq_self.2 fun entry inside => decide_eq_true (others entry inside)
  have rest : r.entries.filter (·.1 ≠ id) = before ++ after := by
    rw [← kept, entries]
    simp
  rw [remove, held, rest]

theorem nodup_add [DecidableEq ι] {r : Registry ι} (nodup : r.receivers.Nodup) (listener : ι) :
    (r.add listener).2.receivers.Nodup := by
  rcases r.add_cases listener with ⟨id, -, same⟩ | ⟨missing, added⟩
  · rwa [same]
  · simp only [added, receivers, List.map_append, List.map_cons, List.map_nil]
    refine List.nodup_append.2 ⟨nodup, List.pairwise_singleton _ _, ?_⟩
    rintro other earlier _ new rfl
    exact missing (List.mem_singleton.1 new ▸ earlier)

theorem nodup_remove {r : Registry ι} (nodup : r.receivers.Nodup) (id : Nat) :
    (r.remove id).2.receivers.Nodup :=
  nodup.sublist (List.filter_sublist.map _)

end Registry

end Reconcile.Listener
