import Reconcile.Proofs.Keyed
import Reconcile.Register

/-! Writes of registers have the laws on which a manager relies. They concern one key each, and at
one key a write leads from the value that it records to another one. -/

namespace Reconcile.Register

open Reconcile.Algebra (Path atKey path_cons path_nil path_singleton)
open Text (Quoted)

variable {K V : Type}

def Write.rekey (k : K) (w : Write K V) : Write K V := { w with key := k }

theorem rekey_of_eq {l r : Write K V} (same : l.key = r.key) : r.rekey l.key = r := by
  rw [same]
  rfl

variable [DecidableEq K] [DecidableEq V]

theorem key_squash {first second : Write K V} (same : first.key = second.key) :
    ∀ w ∈ first.squash second, w.key = first.key := by
  simp only [Write.squash]
  split
  · intro w hw
    simp only [List.mem_filter, List.mem_singleton] at hw
    rw [hw.1]
  · simp [same]

variable [Ord V]

theorem key_cross {l r : Write K V} {d : Diamond (Write K V)} (same : l.key = r.key)
    (crossed : l.cross r = .ok d) :
    (∀ w ∈ d.left, w.key = l.key) ∧ ∀ w ∈ d.right, w.key = l.key := by
  simp only [Write.cross] at crossed
  rw [if_neg (not_not_intro same)] at crossed
  split at crossed
  · cases crossed
  · split at crossed
    · cases crossed
      simp
    · split at crossed <;> cases crossed <;> simp

variable [Quoted K] [Quoted V]

def single (K V : Type) [DecidableEq K] [Quoted K] [Ord V] [DecidableEq V] [Quoted V] :
    Algebra (Option V) (Write K V) where
  apply held w :=
    if held = w.before then .ok w.after
    else .error (Fault.unexpected w.key held w.before).toOpError
  isEmpty := Write.isEmpty
  invert := Write.invert
  squash first second := first.squash (second.rekey first.key)
  cross l r := (l.cross (r.rekey l.key)).mapError Fault.toOpError

theorem single_apply {held after : Option V} {w : Write K V} :
    (single K V).apply held w = .ok after ↔ held = w.before ∧ w.after = after := by
  simp only [single]
  split
  · rename_i same
    simp [same]
  · rename_i different
    simp [different]

theorem single_idle : (single K V).EmptyIdle := by
  intro held after w empty applied
  obtain ⟨rfl, rfl⟩ := single_apply.1 applied
  simp only [single, Write.isEmpty, beq_iff_eq] at empty
  exact empty.symm

theorem single_squash {held after : Option V} {first second : Write K V}
    (path : (single K V).Applies held [first, second] after) :
    (single K V).Applies held ((single K V).squash first second) after := by
  obtain ⟨mid, hfirst, -, rest⟩ := path_cons.1 path
  obtain ⟨rfl, rfl⟩ := single_apply.1 hfirst
  obtain ⟨chained, rfl⟩ := single_apply.1 (path_singleton.1 rest).1
  have merged : (single K V).Applies first.before [⟨first.key, first.before, second.after⟩]
      second.after := path_singleton.2 ⟨single_apply.2 ⟨rfl, rfl⟩, trivial⟩
  simp only [single, Write.squash]
  rw [if_pos ⟨rfl, chained⟩]
  exact (merged.filter single_idle).applies

theorem single_closes {held heldL heldR : Option V} {l r : Write K V} {d : Diamond (Write K V)}
    (crossed : (single K V).cross l r = .ok d) (hl : (single K V).apply held l = .ok heldL)
    (hr : (single K V).apply held r = .ok heldR) :
    ∃ merged, (single K V).Applies heldL d.right merged ∧
      (single K V).Applies heldR d.left merged := by
  obtain ⟨rfl, rfl⟩ := single_apply.1 hl
  obtain ⟨before, rfl⟩ := single_apply.1 hr
  have crossed := mapError_eq_ok.1 crossed
  have key : l.key = (r.rekey l.key).key := rfl
  have before : l.before = (r.rekey l.key).before := before
  simp only [Write.cross] at crossed
  rw [if_neg (not_not_intro key), if_neg (not_not_intro before)] at crossed
  split at crossed
  · rename_i same
    obtain rfl := Except.ok.inj crossed
    exact ⟨l.after, .nil _, path_nil.2 same⟩
  · split at crossed
    · obtain rfl := Except.ok.inj crossed
      exact ⟨l.after, .nil _, path_singleton.2 ⟨single_apply.2 ⟨rfl, rfl⟩, trivial⟩⟩
    · obtain rfl := Except.ok.inj crossed
      exact ⟨r.after, path_singleton.2 ⟨single_apply.2 ⟨rfl, rfl⟩, trivial⟩, .nil _⟩

theorem single_changes {held : Option V} {w : Write K V} :
    (single K V).changes held w = true ↔ (single K V).isEmpty w = false := by
  simp [single]

theorem single_lawful : (single K V).Lawful where
  idle := single_idle
  steady {held after w} applied unchanged := by
    have empty : (single K V).isEmpty w = true := by simpa [single] using unchanged
    exact single_idle empty applied
  undo {held after w} applied _ := by
    obtain ⟨rfl, rfl⟩ := single_apply.1 applied
    exact single_apply.2 ⟨rfl, rfl⟩
  squash path := ((single_squash path.applies).filter single_idle).mono
    fun _ _ h => single_changes.2 h.2
  joins := by
    intro held heldL heldR l r d crossed hl _ hr _
    obtain ⟨merged, hright, hleft⟩ := single_closes crossed hl hr
    exact ⟨merged, (hright.filter single_idle).applies,
      (hleft.filter single_idle).mono fun _ _ h => single_changes.2 h.2⟩

variable [Ord K] [Std.TransOrd K]

theorem keyed : (algebra K V).Keyed Write.key (single K V) where
  apply held w := by
    simp only [algebra, single, Write.apply]
    split <;> rfl
  isEmpty := rfl
  changes _ _ := rfl
  invert _ := ⟨rfl, rfl⟩
  squash same := by
    simp only [algebra, single, rekey_of_eq same]
  squash_of_ne different := by
    simp only [algebra, Write.squash]
    rw [if_neg fun h => different h.1]
  key_squash same := by
    simp only [single, rekey_of_eq same]
    exact key_squash same
  cross same := by
    simp only [algebra, single, rekey_of_eq same]
  cross_of_ne different := by
    simp only [algebra, Write.cross]
    rw [if_pos different]
    rfl
  key_cross same crossed := by
    simp only [single, rekey_of_eq same] at crossed
    exact key_cross same (mapError_eq_ok.1 crossed)

variable [Std.LawfulEqOrd K]

theorem lawful : (algebra K V).Lawful := keyed.lawful single_lawful

theorem joins : (algebra K V).Joins (fun _ _ => True) fun _ _ => True := by
  show (algebra K V).Joins (atKey Write.key fun _ _ => True) (atKey Write.key fun _ _ => True)
  refine keyed.joins single_idle ?_
  intro held heldL heldR l r d crossed hl _ hr _
  obtain ⟨merged, hright, hleft⟩ := single_closes crossed hl hr
  exact ⟨merged, (hright.filter single_idle).applies, (hleft.filter single_idle).applies⟩

end Reconcile.Register
