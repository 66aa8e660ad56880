import Mathlib
import Reconcile.Counter
import Reconcile.Proofs.Manager.Sound
import Reconcile.Proofs.Weight

/-! What a counter does with operations as long as no sum leaves the 64 bits that hold it: nothing
is rejected, and neither squashing nor crossing changes what the operations add up to. -/

namespace Reconcile.Counter

open Width (Signed64)

variable {s sum o : Int} {ops xs ys left right : List Int} {ι : Type} {m : Manager Int Int ι}

/-- Adding the operations one by one, no sum on the way leaves the range. -/
def Contained : Int → List Int → Prop
  | _, [] => True
  | s, o :: ops => Signed64 (s + o) ∧ Contained (s + o) ops

def decideContained : (s : Int) → (ops : List Int) → Decidable (Contained s ops)
  | _, [] => isTrue trivial
  | s, o :: ops =>
    have := decideContained (s + o) ops
    inferInstanceAs (Decidable (_ ∧ _))

instance (s : Int) (ops : List Int) : Decidable (Contained s ops) := decideContained s ops

theorem contained_append :
    Contained s (xs ++ ys) ↔ Contained s xs ∧ Contained (s + xs.sum) ys := by
  induction xs generalizing s with
  | nil => simp [Contained]
  | cons x xs ih => simp [Contained, ih, and_assoc, Int.add_assoc]

theorem Contained.filter (h : Contained s ops) : Contained s (ops.filter (!algebra.isEmpty ·)) := by
  induction ops generalizing s with
  | nil => exact h
  | cons o ops ih =>
    obtain ⟨fits, rest⟩ := h
    by_cases zero : o = 0
    · subst zero
      rw [Int.add_zero] at rest
      exact ih rest
    · have kept : (!algebra.isEmpty o) = true := by simp [algebra, zero]
      rw [List.filter_cons, if_pos kept]
      exact ⟨fits, ih rest⟩

theorem sum_filter (ops : List Int) : (ops.filter (!algebra.isEmpty ·)).sum = ops.sum := by
  induction ops with
  | nil => rfl
  | cons o ops ih =>
    by_cases zero : o = 0
    · subst zero
      rw [List.sum_cons, Int.zero_add]
      exact ih
    · have kept : (!algebra.isEmpty o) = true := by simp [algebra, zero]
      rw [List.filter_cons, if_pos kept, List.sum_cons, List.sum_cons, ih]

theorem apply_of_signed (fits : Signed64 (s + o)) : algebra.apply s o = .ok (s + o) :=
  if_pos fits

theorem Contained.applyAll (h : Contained s ops) : algebra.applyAll s ops = .ok (s + ops.sum) := by
  induction ops generalizing s with
  | nil => rw [List.sum_nil, Int.add_zero, Algebra.applyAll_nil]
  | cons o ops ih =>
    obtain ⟨fits, rest⟩ := h
    rw [Algebra.applyAll_cons, apply_of_signed fits, ok_bind, ih rest, List.sum_cons, Int.add_assoc]

theorem Contained.offer (h : Contained s ops) :
    algebra.offer s ops = ⟨s + ops.sum, ops.filter (!algebra.isEmpty ·), []⟩ := by
  induction ops using List.reverseRecOn with
  | nil => simp [Algebra.offer]
  | append_singleton ops o ih =>
    obtain ⟨before, fits, -⟩ := contained_append.1 h
    rw [Algebra.offer_concat, ih before, apply_of_signed fits, List.sum_append, List.sum_singleton,
      ← Int.add_assoc, List.filter_append]
    by_cases zero : o = 0 <;> simp [algebra, zero]

theorem sum_squashInto (kept : List Int) (o : Int) :
    (algebra.squashInto kept o).sum = kept.sum + o := by
  simp only [Algebra.squashInto]
  split
  · rename_i empty
    have zero : o = 0 := by simpa [algebra] using empty
    rw [zero, Int.add_zero]
  · split
    · rename_i none
      obtain rfl := List.getLast?_eq_none_iff.1 none
      simp
    · rename_i last some
      have squashed : algebra.squash last o = [last + o] := rfl
      rw [List.sum_append, sum_filter, squashed, List.sum_singleton, ← Int.add_assoc]
      conv_rhs => rw [← List.dropLast_append_getLast? last some, List.sum_append]
      rw [List.sum_singleton]

theorem sum_squashAll (ops : List Int) : (algebra.squashAll ops).sum = ops.sum := by
  induction ops using List.reverseRecOn with
  | nil => rfl
  | append_singleton ops o ih =>
    rw [Algebra.squashAll_append, List.sum_append, List.sum_singleton, ← ih]
    exact sum_squashInto _ o

theorem grid_unchanged {d : Diamond Int}
    (g : Diamond.Grid algebra.isEmpty algebra.cross left right d)
    (hl : ∀ o ∈ left, algebra.isEmpty o = false) (hr : ∀ o ∈ right, algebra.isEmpty o = false) :
    d = ⟨left, right⟩ := by
  induction g with
  | noLeft right => rfl
  | noRight left => rfl
  | @cell l r d crossed =>
    obtain rfl := Except.ok.inj crossed
    simp [Diamond.prune, Diamond.unchanged, hl, hr]
  | alongLeft before after ihBefore ihAfter =>
    obtain ⟨hfirst, hsecond⟩ := List.forall_mem_append.1 hl
    obtain rfl := ihBefore hfirst hr
    obtain rfl := ihAfter hsecond hr
    rfl
  | alongRight before after ihBefore ihAfter =>
    obtain ⟨hfirst, hsecond⟩ := List.forall_mem_append.1 hr
    obtain rfl := ihBefore hl hfirst
    obtain rfl := ihAfter hl hsecond
    rfl

theorem transform_eq (left right : List Int) : algebra.transform left right =
    .ok ⟨left.filter (!algebra.isEmpty ·), right.filter (!algebra.isEmpty ·)⟩ := by
  have unchanged (l r : Int) (d : Diamond Int) (crossed : algebra.cross l r = .ok d) :
      Lighter (fun _ => 1) [l] [r] d := .inr (Except.ok.inj crossed).symm
  have deep : algebra.Deep := fun _ _ => Nat.le_refl _
  have finished : algebra.transform left right ≠ .error .unfinished :=
    deep.transform_ne_unfinished_of_lighter (fun _ => Nat.one_pos) (fun _ => by omega) unchanged
      (by simp [algebra]) left right
  have crosses : (∃ d, algebra.transform left right = .ok d) ∨
      algebra.transform left right = .error .unfinished :=
    Diamond.ofLists_eq_ok_or_unfinished (fun _ _ => True) (fun l r _ => ⟨.unchanged l r, rfl⟩)
      (fun _ _ _ _ => trivial) (fun _ _ _ _ _ _ => trivial) (fun _ _ _ _ => trivial)
      (fun _ _ _ _ _ _ => trivial) _ trivial
  obtain ⟨d, crossed⟩ := crosses.resolve_right finished
  have nonempty (ops : List Int) :
      ∀ o ∈ ops.filter (!algebra.isEmpty ·), algebra.isEmpty o = false := by simp
  rw [crossed, grid_unchanged (Algebra.grid_of_transform crossed) (nonempty left) (nonempty right)]

theorem transformQueues_eq (committed : List Int) : m.transformQueues algebra committed =
    .ok (m.inflight.filter (!algebra.isEmpty ·), m.pending.filter (!algebra.isEmpty ·)) := by
  rw [Manager.transformQueues, transform_eq, ok_bind, transform_eq, ok_bind]
  rfl

theorem sum_rebase {committed : List Int}
    (h : Contained m.base (committed ++ (m.inflight ++ m.pending))) (revision : Revision) :
    ((m.rebase algebra committed revision).2.inflight ++
      (m.rebase algebra committed revision).2.pending).sum = (m.inflight ++ m.pending).sum := by
  obtain ⟨hcommitted, hqueues⟩ := contained_append.1 h
  have applies := hcommitted.applyAll
  have rebased := Manager.rebases (a := algebra) (m := m) committed revision
  generalize m.rebase algebra committed revision = result at rebased ⊢
  cases rebased with
  | halted fails => cases applies.symm.trans fails
  | moved applied crossed reached =>
    rw [transformQueues_eq] at crossed
    obtain ⟨rfl, rfl⟩ := Prod.mk.inj (Except.ok.inj crossed)
    simp only [← List.filter_append, sum_filter]
  | discarded applied stuck =>
    obtain rfl := Except.ok.inj (applies.symm.trans applied)
    have reached := hqueues.filter.applyAll
    rw [List.filter_append] at reached
    exact absurd reached (stuck _ _ _ (transformQueues_eq committed))

theorem sum_checkedOutWith {pulled : Pulled Int} (h : m.ensureOpen = .ok () →
      Contained m.base (pulled.operations ++ (m.inflight ++ m.pending))) :
    ((m.checkedOutWith algebra pulled).manager.inflight ++
      (m.checkedOutWith algebra pulled).manager.pending).sum = (m.inflight ++ m.pending).sum := by
  simp only [Manager.checkedOutWith]
  split
  · rfl
  · rename_i isOpen
    exact sum_rebase (h isOpen) pulled.revision

theorem sum_pulledSince {pulled : Pulled Int}
    (h : Contained m.base (pulled.operations ++ (m.inflight ++ m.pending))) (since : Revision) :
    ((m.pulledSince algebra since pulled).manager.inflight ++
      (m.pulledSince algebra since pulled).manager.pending).sum =
        (m.inflight ++ m.pending).sum := by
  simp only [Manager.pulledSince]
  split
  · rfl
  · exact sum_rebase h pulled.revision

theorem queues_accepted (h : Contained m.base m.inflight) (revision : Revision) :
    (m.pushedWith algebra (.accepted revision)).manager.inflight = [] ∧
      (m.pushedWith algebra (.accepted revision)).manager.pending = m.pending := by
  have acknowledged : m.acknowledge algebra revision = .ok _ :=
    Manager.acknowledge_eq_ok.2 ⟨_, h.applyAll, rfl⟩
  simp only [Manager.pushedWith]
  rw [acknowledged]
  exact ⟨rfl, rfl⟩

end Reconcile.Counter
