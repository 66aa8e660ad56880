import Reconcile.Manager.Stage
import Reconcile.Proofs.Lawful

/-! What a manager says to a call that is begun. It turns the call away, tells it that there is
nothing to do, or lets it ask the server; the last only while no other call is outstanding. -/

namespace Reconcile.Manager

variable {σ op ι : Type} {a : Algebra σ op} {m : Manager σ op ι} {action : Action} {e : SyncError}

theorem ensureOpen_eq_ok : m.ensureOpen = .ok () ↔ m.closed = false ∧ m.halted = false := by
  simp only [ensureOpen]
  cases m.closed <;> cases m.halted <;> simp

theorem ensureCheckedOut_eq_ok : m.ensureCheckedOut = .ok () ↔
    m.ensureOpen = .ok () ∧ m.checkedOut = true := by
  simp only [ensureCheckedOut]
  cases m.ensureOpen with
  | error e => simp [error_bind]
  | ok u => cases m.checkedOut <;> simp [ok_bind]

theorem ensureOpen_eq_error : m.ensureOpen = .error e ↔
    m.closed = true ∧ e = .closed ∨ m.closed = false ∧ m.halted = true ∧ e = .halted := by
  simp only [ensureOpen]
  cases m.closed <;> cases m.halted <;> simp [eq_comm]

theorem ensureOpen_ne_invalid (cause : OpError) :
    m.ensureOpen ≠ .error (.invalidOperation cause) := by
  intro h
  rcases ensureOpen_eq_error.1 h with ⟨-, h⟩ | ⟨-, -, h⟩ <;> cases h

theorem ensureCheckedOut_of_shut (shut : m.ensureOpen = .error e) :
    m.ensureCheckedOut = .error e := by
  rw [ensureCheckedOut, shut, error_bind]

inductive Starts (a : Algebra σ op) (m : Manager σ op ι) :
    Action → Manager σ op ι × Start op → Prop
  | shut {action : Action} {e : SyncError} (shut : m.ensureOpen = .error e) :
    Starts a m action (m, .ended (.error e))
  | unknown {action : Action} (unknown : m.checkedOut = false) :
    Starts a m action (m, .ended (.error .notCheckedOut))
  | busy (active : m.activity.isSome = true) : Starts a m .checkout (m, .ended (.error .busy))
  | reports {first : OpError} {rest : List OpError} (rejected : m.rejected = first :: rest) :
    Starts a m .sync ({ m with rejected := [] }, .ended (.error (.invalidOperation first)))
  | coalesces {action : Action} (networked : action ≠ .checkout)
      (active : m.activity.isSome = true) : Starts a m action (m, .ended (.ok 0))
  | done (free : m.activity = none) : Starts a m .checkout (m, .ended (.ok 0))
  | vanishes (free : m.activity = none) (idle : m.inflight = [])
      (empty : a.squashAll m.pending = []) :
    Starts a m .sync
      ({ m with inflight := a.squashAll m.pending, pending := [] }, .ended (.ok 0))
  | checkout (free : m.activity = none) (unknown : m.checkedOut = false) :
    Starts a m .checkout
      ({ m with activity := some .checkingOut }, .asking (.first .checkout))
  | pull (free : m.activity = none) (known : m.checkedOut = true) :
    Starts a m .pull
      ({ m with activity := some .syncing }, .asking (.first (.pull m.revision)))
  | push (free : m.activity = none) (known : m.checkedOut = true) :
    Starts a m .sync ({ m with activity := some .syncing }, .asking m.pushInflight)
  | squash (free : m.activity = none) (known : m.checkedOut = true) (idle : m.inflight = []) :
    Starts a m .sync ({ m with
        inflight := a.squashAll m.pending
        pending := []
        activity := some .syncing },
      .asking (.first (.push m.revision (a.squashAll m.pending))))

theorem starts_needing_checkout {e : SyncError} (refused : m.ensureCheckedOut = .error e)
    (action : Action) : Starts a m action (m, .ended (.error e)) := by
  cases shut : m.ensureOpen with
  | error e' =>
    obtain rfl := Except.error.inj ((ensureCheckedOut_of_shut shut).symm.trans refused)
    exact .shut shut
  | ok u =>
    rw [ensureCheckedOut, shut, ok_bind] at refused
    split at refused
    · cases refused
    · rename_i unknown
      obtain rfl := Except.error.inj refused
      exact .unknown (by simpa using unknown)

theorem starts (action : Action) : Starts a m action (m.start a action) := by
  cases action with
  | checkout =>
    simp only [start, beginCheckout]
    split
    · rename_i e shut
      exact .shut shut
    · split
      · rename_i active
        exact .busy active
      · rename_i free
        have free : m.activity = none := by simpa using free
        split
        · exact .done free
        · rename_i unknown
          exact .checkout free (by simpa using unknown)
  | sync =>
    simp only [start, beginSync]
    split
    · rename_i e refused
      exact starts_needing_checkout refused .sync
    · rename_i known
      have known := (ensureCheckedOut_eq_ok.1 known).2
      split
      · rename_i first rest rejected
        exact .reports rejected
      · split
        · rename_i active
          exact .coalesces (by simp) active
        · rename_i free
          have free : m.activity = none := by simpa using free
          by_cases idle : m.inflight = []
          · simp only [idle, List.isEmpty_nil, if_true]
            split
            · rename_i empty
              exact .vanishes free idle (List.isEmpty_iff.1 empty)
            · exact .squash free known idle
          · have busy : m.inflight.isEmpty = false := by simpa using idle
            simp only [busy, if_false, Bool.false_eq_true]
            exact .push free known
  | pull =>
    simp only [start, beginPull]
    split
    · rename_i e refused
      exact starts_needing_checkout refused .pull
    · rename_i known
      split
      · rename_i active
        exact .coalesces (by simp) active
      · rename_i free
        exact .pull (by simpa using free) (ensureCheckedOut_eq_ok.1 known).2

/-- What beginning a call does: it is over at once, or it is the only call and asks for what the
manager has. -/
inductive Begins (a : Algebra σ op) (m : Manager σ op ι) : Manager σ op ι × Start op → Prop
  | ended (rejected : List OpError) (result : Except SyncError Nat) :
    Begins a m ({ m with rejected }, .ended result)
  | vanished (idle : m.inflight = []) (empty : a.squashAll m.pending = []) :
    Begins a m ({ m with inflight := a.squashAll m.pending, pending := [] }, .ended (.ok 0))
  | checkout (free : m.activity = none) (unknown : m.checkedOut = false) :
    Begins a m ({ m with activity := some .checkingOut }, .asking (.first .checkout))
  | pull (free : m.activity = none) (known : m.checkedOut = true) :
    Begins a m ({ m with activity := some .syncing }, .asking (.first (.pull m.revision)))
  | push (free : m.activity = none) (known : m.checkedOut = true) :
    Begins a m ({ m with activity := some .syncing }, .asking m.pushInflight)
  | squash (free : m.activity = none) (known : m.checkedOut = true) (idle : m.inflight = []) :
    Begins a m ({ m with
        inflight := a.squashAll m.pending
        pending := []
        activity := some .syncing },
      .asking (.first (.push m.revision (a.squashAll m.pending))))

theorem Starts.begins {begun : Manager σ op ι × Start op} (h : Starts a m action begun) :
    Begins a m begun := by
  cases h with
  | shut shut => exact .ended m.rejected _
  | unknown unknown => exact .ended m.rejected _
  | busy active => exact .ended m.rejected _
  | reports rejected => exact .ended [] _
  | coalesces networked active => exact .ended m.rejected _
  | done free => exact .ended m.rejected _
  | vanishes free idle empty => exact .vanished idle empty
  | checkout free unknown => exact .checkout free unknown
  | pull free known => exact .pull free known
  | push free known => exact .push free known
  | squash free known idle => exact .squash free known idle

theorem begins (action : Action) : Begins a m (m.start a action) := (starts action).begins

theorem start_invalid {cause : OpError}
    (h : (m.start a action).2 = .ended (.error (.invalidOperation cause))) :
    action = .sync ∧ cause ∈ m.rejected := by
  have started := starts (a := a) (m := m) action
  generalize m.start a action = result at started h
  cases started with
  | shut shut =>
    obtain rfl := Except.error.inj (Start.ended.inj h)
    exact absurd shut (ensureOpen_ne_invalid cause)
  | reports rejected =>
    obtain rfl := SyncError.invalidOperation.inj (Except.error.inj (Start.ended.inj h))
    rw [rejected]
    exact ⟨rfl, List.mem_cons_self⟩
  | _ => cases h

theorem start_busy (active : m.activity.isSome = true) (action : Action) : ∃ rejected result,
    m.start a action = ({ m with rejected }, .ended result) ∧
      (action = .checkout → ∃ e, result = .error e) := by
  have started := starts (a := a) (m := m) action
  generalize m.start a action = begun at started
  cases started with
  | shut shut => exact ⟨m.rejected, _, rfl, fun _ => ⟨_, rfl⟩⟩
  | unknown unknown => exact ⟨m.rejected, _, rfl, fun _ => ⟨_, rfl⟩⟩
  | busy active => exact ⟨m.rejected, _, rfl, fun _ => ⟨_, rfl⟩⟩
  | reports rejected => exact ⟨[], _, rfl, fun _ => ⟨_, rfl⟩⟩
  | coalesces networked active => exact ⟨m.rejected, _, rfl, fun h => absurd h networked⟩
  | done free | vanishes free _ _ | checkout free _ | pull free _ | push free _ | squash free _ _ =>
    simp [free] at active

theorem rejected_start (action : Action) : (m.start a action).1.rejected ⊆ m.rejected := by
  have started := starts (a := a) (m := m) action
  generalize m.start a action = result at started
  cases started with
  | reports rejected => exact List.nil_subset _
  | _ => exact List.Subset.refl _

theorem rejected_reset : (m.reset a).2.1.rejected ⊆ m.rejected := by
  unfold reset
  split
  · exact List.Subset.refl _
  · dsimp only
    split
    · exact List.nil_subset _
    · split <;> exact List.nil_subset _

theorem rejected_close : m.close.rejected = m.rejected := by
  simp only [close]
  split <;> rfl

end Reconcile.Manager
