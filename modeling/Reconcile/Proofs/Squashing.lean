import Reconcile.Proofs.Domain

/-! Squashing a list of operations keeps what the list does. It drops what is empty and folds every
other operation into the last one kept, so that what two operations squash to decides about lists of
any length. Redundant room changes are not empty by themselves, so for rooms the list may not have
any; then the squashed list has none either. -/

namespace Reconcile

namespace Algebra

variable {σ op : Type} {a : Algebra σ op}

/-- The squashed operations lead where the operations lead, each of them changes the state, and there
are no more of them. -/
structure Squashed (a : Algebra σ op) (s : σ) (ops : List op) (t : σ) : Prop where
  applied : a.applyAll s (a.squashAll ops) = .ok t
  nonempty : ∀ o ∈ a.squashAll ops, a.isEmpty o = false
  length_le : (a.squashAll ops).length ≤ ops.length
  effective : a.Effective s (a.squashAll ops) t

theorem nonempty_squashInto {kept : List op} (h : ∀ x ∈ kept, a.isEmpty x = false) (o : op) :
    ∀ x ∈ a.squashInto kept o, a.isEmpty x = false := by
  simp only [Algebra.squashInto]
  split
  · exact h
  · rename_i filled
    split
    · simpa using filled
    · intro x hx
      rcases List.mem_append.1 hx with before | squashed
      · exact h x (List.dropLast_subset kept before)
      · simpa using (List.mem_filter.1 squashed).2

theorem nonempty_squashAll (ops : List op) : ∀ o ∈ a.squashAll ops, a.isEmpty o = false := by
  induction ops using List.reverseRecOn with
  | nil => exact List.forall_mem_nil _
  | append_singleton ops o ih =>
    rw [squashAll_append]
    exact nonempty_squashInto ih o

theorem length_squashInto_le (short : ∀ first second, (a.squash first second).length ≤ 2)
    (kept : List op) (o : op) : (a.squashInto kept o).length ≤ kept.length + 1 := by
  simp only [Algebra.squashInto]
  split
  · exact Nat.le_succ _
  · split
    · exact Nat.le_add_left 1 _
    · rename_i last some
      have pair := short last o
      have filtered := List.length_filter_le (!a.isEmpty ·) (a.squash last o)
      have popped := congrArg List.length (List.dropLast_append_getLast? last some)
      simp only [List.length_append, List.length_singleton] at popped ⊢
      omega

theorem length_squashAll_le (short : ∀ first second, (a.squash first second).length ≤ 2)
    (ops : List op) : (a.squashAll ops).length ≤ ops.length := by
  induction ops using List.reverseRecOn with
  | nil => exact Nat.le_refl 0
  | append_singleton ops o ih =>
    have pushed := length_squashInto_le short (a.squashAll ops) o
    rw [squashAll_append, List.length_append]
    exact Nat.le_trans pushed (Nat.add_le_add_right ih 1)

theorem squashAll_filter (ops : List op) :
    a.squashAll (ops.filter (!a.isEmpty ·)) = a.squashAll ops := by
  have skips (kept : List op) (o : op) :
      (if (!a.isEmpty o) = true then a.squashInto kept o else kept) = a.squashInto kept o := by
    cases empty : a.isEmpty o <;> simp [Algebra.squashInto, empty]
  simp only [squashAll, List.foldl_filter, skips]

theorem Lawful.squashed (lawful : a.Lawful)
    (short : ∀ first second, (a.squash first second).length ≤ 2) {s t : σ} {ops : List op}
    (path : a.Path (fun s o => a.isEmpty o = true ∨ a.changes s o = true) s ops t) :
    a.Squashed s ops t := by
  have filled : a.Effective s (ops.filter (!a.isEmpty ·)) t :=
    (path.filter lawful.idle).mono fun s o h => h.1.resolve_left (by simp [h.2])
  have effective := lawful.squashAll filled
  rw [squashAll_filter] at effective
  exact ⟨effective.applyAll, nonempty_squashAll ops, length_squashAll_le short ops, effective⟩

theorem Lawful.squashed_of_applyAll (lawful : a.Lawful)
    (short : ∀ first second, (a.squash first second).length ≤ 2)
    (changes : ∀ s o, a.changes s o = !a.isEmpty o) {s t : σ} {ops : List op}
    (applied : a.applyAll s ops = .ok t) : a.Squashed s ops t := by
  refine lawful.squashed short ((applies_iff.2 applied).mono fun s o _ => ?_)
  rw [changes]
  cases a.isEmpty o <;> simp

end Algebra

theorem Text.Edit.length_squash_le (first second : Edit) : (first.squash second).length ≤ 2 := by
  have insert (pos : Nat) (text : List Char) : (insertIfAny pos text).length ≤ 2 := by
    simp only [insertIfAny]
    split <;> simp
  have replace (pos : Nat) (old new : List Char) : (replaceIfNew pos old new).length ≤ 2 := by
    simp only [replaceIfNew]
    split <;> simp
  cases first <;> cases second <;> simp only [squash] <;> (repeat' split) <;>
    first | exact insert _ _ | exact replace _ _ _ | simp

theorem Register.Write.length_squash_le {K V : Type} [DecidableEq K] [DecidableEq V]
    (first second : Write K V) : (first.squash second).length ≤ 2 := by
  simp only [squash]
  split
  · have kept := List.length_filter_le (!·.isEmpty)
      [(⟨first.key, first.before, second.after⟩ : Write K V)]
    exact Nat.le_trans kept (by simp)
  · simp

theorem Room.Change.length_squash_le (first second : Change) :
    (first.squash second).length ≤ 2 := by
  simp only [squash]
  split
  · cases first <;> cases second <;> simp only [squashSame] <;> (try split) <;> simp
  · simp

section

variable (K V : Type) [Ord K] [Std.TransOrd K] [Std.LawfulEqOrd K] [DecidableEq K]
  [Text.Quoted K] [Ord V] [DecidableEq V] [Text.Quoted V]

/-- Squashing keeps what edits and writes that apply do, and what room changes do that each have an
effect. -/
theorem squashing_keeps_effect :
    (∀ {doc doc' : Text.Document} {edits : List Text.Edit},
      Text.algebra.applyAll doc edits = .ok doc' → Text.algebra.Squashed doc edits doc') ∧
    (∀ {held held' : Register.Registers K V} {writes : List (Register.Write K V)},
      (Register.algebra K V).applyAll held writes = .ok held' →
        (Register.algebra K V).Squashed held writes held') ∧
    ∀ {dir dir' : Room.Directory} {changes : List Room.Change},
      Room.algebra.Effective dir changes dir' → Room.algebra.Squashed dir changes dir' := by
  refine ⟨fun applied => ?_, fun applied => ?_, fun effective => ?_⟩
  · exact Text.lawful.squashed_of_applyAll Text.Edit.length_squash_le (fun _ _ => rfl) applied
  · exact Register.lawful.squashed_of_applyAll Register.Write.length_squash_le (fun _ _ => rfl)
      applied
  · exact Room.lawful.squashed Room.Change.length_squash_le
      (effective.mono fun _ _ changed => .inr changed)

end

theorem squashing_keeps_effect_on_corrections :
    let edits : List Text.Edit :=
      [.insert 0 ['h', 'e'], .insert 2 ['l'], .delete 1 ['e'], .insert 1 ['a']]
    let writes : List (Register.Write String Int) :=
      [⟨"a", none, some 1⟩, ⟨"a", some 1, some 2⟩, ⟨"b", none, some 3⟩]
    let changes : List Room.Change :=
      [.add "lobby" ∅, .delete "lobby", .restore "lobby", .withdraw "lobby" ∅]
    Text.algebra.Squashed [] edits ['h', 'a', 'l'] ∧
      (Register.algebra String Int).Squashed ∅ writes (put (put ∅ "a" (some 2)) "b" (some 3)) ∧
      Room.algebra.Squashed ∅ changes ∅ := by
  intro edits writes changes
  have typed : Text.algebra.applyAll [] edits = .ok ['h', 'a', 'l'] := by rfl
  have written : (Register.algebra String Int).applyAll ∅ writes =
      .ok (put (put ∅ "a" (some 2)) "b" (some 3)) := by decide +kernel
  have changed : Room.algebra.Effective ∅ changes ∅ := Room.lawful.offer ∅ changes
  obtain ⟨onText, onRegisters, onRooms⟩ := squashing_keeps_effect String Int
  exact ⟨onText typed, onRegisters written, onRooms changed⟩

end Reconcile
