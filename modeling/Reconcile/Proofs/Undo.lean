import Reconcile.Proofs.Domain

/-! Undoing is exact. Operations are offered one by one, some fail, some change nothing, and those
that change the state are kept; whether an operation belongs to them is told without comparing the
states. Undoing all that is kept, the last one first, leads back to where it started. -/

namespace Reconcile

namespace Algebra

variable {σ op : Type} {a : Algebra σ op}

/-- What becomes of operations that are tried one after the other. -/
inductive Attempts (a : Algebra σ op) (s : σ) : List op → Offer σ op → Prop
  | nil : Attempts a s [] ⟨s, [], []⟩
  | failed {ops : List op} {done : Offer σ op} {o : op} {e : OpError} (before : Attempts a s ops done)
      (refused : a.apply done.state o = .error e) :
      Attempts a s (ops ++ [o]) ⟨done.state, done.kept, done.rejected ++ [e]⟩
  | unchanged {ops : List op} {done : Offer σ op} {o : op} (before : Attempts a s ops done)
      (applied : a.apply done.state o = .ok done.state) : Attempts a s (ops ++ [o]) done
  | changed {ops : List op} {done : Offer σ op} {o : op} {t : σ} (before : Attempts a s ops done)
      (applied : a.apply done.state o = .ok t) (different : t ≠ done.state) :
      Attempts a s (ops ++ [o]) ⟨t, done.kept ++ [o], done.rejected⟩

/-- An operation that applies is said to change the state exactly when it does. -/
def Reports (a : Algebra σ op) : Prop :=
  ∀ ⦃s t o⦄, a.apply s o = .ok t → (a.changes s o = true ↔ t ≠ s)

theorem Reports.attempts (reports : a.Reports) (s : σ) (ops : List op) :
    a.Attempts s ops (a.offer s ops) := by
  induction ops using List.reverseRecOn with
  | nil => exact .nil
  | append_singleton ops o ih =>
    rw [offer_concat]
    cases applied : a.apply (a.offer s ops).state o with
    | error e => exact .failed ih applied
    | ok t =>
      by_cases same : t = (a.offer s ops).state
      · have quiet : a.changes (a.offer s ops).state o = false :=
          Bool.eq_false_iff.2 fun changed => (reports applied).1 changed same
        simp only [quiet, Bool.false_eq_true, if_false]
        subst same
        exact .unchanged ih applied
      · have told : a.changes (a.offer s ops).state o = true := (reports applied).2 same
        simp only [told, if_true]
        exact .changed ih applied same

section

variable {K V : Type} [Ord K] [Std.TransOrd K] [Std.LawfulEqOrd K]
  {b : Algebra (Std.ExtTreeMap K V) op} {key : op → K} {one : Algebra (Option V) op}

theorem Keyed.reports (k : b.Keyed key one) (reports : one.Reports) : b.Reports := by
  intro m n o applied
  obtain ⟨v, hv, rfl⟩ := k.apply_eq_ok.1 applied
  rw [k.changes, reports hv, ne_eq, ne_eq, not_iff_not]
  constructor
  · intro same
    rw [same, put_getElem?]
  · intro same
    have held := congrArg (·[key o]?) same
    simpa using held

end

end Algebra

theorem Text.reports : Text.algebra.Reports := by
  intro doc doc' e applied
  obtain ⟨before, after, -, rfl, rfl⟩ := Edit.simple_apply.1 applied
  have empty : e.isEmpty = false ↔ e.inserted ≠ e.removed := by
    cases e with
    | insert pos text => simp [Edit.isEmpty, Edit.inserted, Edit.removed]
    | delete pos text => simp [Edit.isEmpty, Edit.inserted, Edit.removed, eq_comm (a := [])]
    | replace pos old new => simp [Edit.isEmpty, Edit.inserted, Edit.removed, eq_comm (a := new)]
  rw [changes_eq_true, empty, ne_eq, ne_eq, not_iff_not, List.append_cancel_left_eq,
    List.append_cancel_right_eq]

theorem Room.single_reports : Room.single.Reports := by
  intro room after c applied
  rw [single_apply] at applied
  rcases room with _ | ⟨p, _ | _⟩ <;> cases c <;> simp_all [single, Change.changesAt, isLive]

theorem Register.single_reports {K V : Type} [DecidableEq K] [DecidableEq V] [Ord V]
    [Text.Quoted K] [Text.Quoted V] : (Register.single K V).Reports := by
  intro held after w applied
  obtain ⟨rfl, rfl⟩ := single_apply.1 applied
  rw [single_changes]
  simp [single, Write.isEmpty, eq_comm (a := w.after)]

theorem Domain.reports {σ op : Type} {a : Algebra σ op} (domain : Domain a) : a.Reports := by
  cases domain with
  | text => exact Text.reports
  | rooms => exact Room.keyed.reports Room.single_reports
  | registers K V => exact Register.keyed.reports Register.single_reports

/-- Operations that fail leave the state as it is, those that apply are kept exactly when they change
it, and undoing what is kept leads back to where it started. -/
theorem undo_is_exact {σ op : Type} {a : Algebra σ op} (domain : Domain a) (s : σ)
    (ops : List op) :
    a.Attempts s ops (a.offer s ops) ∧
      (∀ t u o, a.apply t o = .ok u → (a.changes t o = true ↔ u ≠ t)) ∧
      a.applyAll (a.offer s ops).state (a.invertAll (a.offer s ops).kept) = .ok s := by
  have path := domain.lawful.offer s ops
  have reports : a.Reports := domain.reports
  exact ⟨reports.attempts s ops, reports, domain.lawful.invertAll path⟩

theorem undo_is_exact_on_redundant_changes :
    let dir : Room.Directory := put ∅ "hall" (some ⟨∅, false⟩)
    let changes : List Room.Change :=
      [.add "hall" ∅, .delete "hall", .add "hall" ∅, .delete "hall", .add "lobby" {"ada"}]
    let done := Room.algebra.offer dir changes
    done.kept = [.delete "hall", .add "lobby" {"ada"}] ∧ done.rejected.length = 1 ∧
      Room.algebra.Attempts dir changes done ∧
      (∀ t u o, Room.algebra.apply t o = .ok u → (Room.algebra.changes t o = true ↔ u ≠ t)) ∧
      Room.algebra.applyAll done.state (Room.algebra.invertAll done.kept) = .ok dir := by
  intro dir changes done
  have kept : done.kept = [.delete "hall", .add "lobby" {"ada"}] := by rfl
  have rejected : done.rejected.length = 1 := by rfl
  exact ⟨kept, rejected, undo_is_exact .rooms dir changes⟩

end Reconcile
