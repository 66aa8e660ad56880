import Reconcile.Proofs.Manager.Shared

/-! Managers that are halted or closed. Nothing takes either back, so no call asks the server any
more, not even one that was waiting to ask again: whatever needs an open manager is turned away.
Operations can still be added to a halted manager and undone there, as if it were running; a closed
one ignores them. -/

namespace Reconcile

open Manager (Action Call Next Purpose Stage)
open Text (Edit)

namespace Manager

variable {σ op ι : Type} {a : Algebra σ op} {m n : Manager σ op ι} {e : SyncError}

structure Lasting (m n : Manager σ op ι) : Prop where
  halted : m.halted = true → n.halted = true
  closed : m.closed = true → n.closed = true

theorem Lasting.refl (m : Manager σ op ι) : Lasting m m := ⟨id, id⟩

theorem Lasting.trans {p : Manager σ op ι} (first : Lasting m n) (second : Lasting n p) :
    Lasting m p :=
  ⟨fun h => second.halted (first.halted h), fun h => second.closed (first.closed h)⟩

theorem lasting_add (ops : List op) : Lasting m (m.add a ops).1 := by
  obtain ⟨state, pending, rejected, added⟩ := add_with (a := a) (m := m) ops
  rw [added]
  exact ⟨id, id⟩

theorem lasting_reset : Lasting m (m.reset a).2.1 := by
  obtain ⟨state, pending, rejected, undone⟩ := reset_with (a := a) (m := m)
  rw [undone]
  exact ⟨id, id⟩

theorem lasting_close : Lasting m m.close := by
  simp only [close]
  split
  · exact .refl m
  · exact ⟨id, fun _ => rfl⟩

theorem lasting_restore (snapshot : Snapshot σ op) : Lasting m (m.restore a snapshot).2.1 := by
  rcases m.restore_cases (a := a) snapshot with same | ⟨state, -, -, restored⟩
  · rw [same]
    exact .refl m
  · rw [restored]
    exact ⟨id, id⟩

theorem lasting_start (action : Action) : Lasting m (m.start a action).1 := by
  have begun := begins (a := a) (m := m) action
  generalize m.start a action = started at begun ⊢
  cases begun <;> exact ⟨id, id⟩

theorem lasting_rebase (committed : List op) (revision : Revision) :
    Lasting m (m.rebase a committed revision).2 := by
  have moved := rebases (a := a) (m := m) committed revision
  generalize m.rebase a committed revision = rebased at moved ⊢
  cases moved with
  | halted fails => exact ⟨fun _ => rfl, id⟩
  | moved applied crossed reached => exact ⟨id, id⟩
  | discarded applied stuck => exact ⟨id, id⟩

theorem lasting_failed (policy : Retry.Policy) (call : Call op) (fault : TransportFault) :
    Lasting m (m.failed policy call fault).manager := by
  cases fault with
  | network reason =>
    simp only [failed]
    split <;> exact ⟨id, id⟩
  | auth reason => exact ⟨fun _ => rfl, id⟩
  | protocol reason => exact .refl m

theorem lasting_checkedOutWith (pulled : Pulled op) :
    Lasting m (m.checkedOutWith a pulled).manager := by
  have rebased := lasting_rebase (a := a) (m := m) pulled.operations pulled.revision
  simp only [checkedOutWith]
  split
  · exact .refl m
  · exact ⟨rebased.halted, rebased.closed⟩

theorem lasting_pulledSince (since : Revision) (pulled : Pulled op) :
    Lasting m (m.pulledSince a since pulled).manager := by
  simp only [pulledSince]
  split
  · exact .refl m
  · exact lasting_rebase pulled.operations pulled.revision

theorem lasting_pushedWith (outcome : PushOutcome op) :
    Lasting m (m.pushedWith a outcome).manager := by
  cases outcome with
  | accepted revision =>
    simp only [pushedWith]
    split
    · exact .refl m
    · rename_i acknowledged
      obtain ⟨base, -, rfl⟩ := acknowledge_eq_ok.1 acknowledged
      exact ⟨id, id⟩
  | conflict operations revision => exact lasting_rebase operations revision

theorem lasting_answered (policy : Retry.Policy) (call : Call op)
    (answer : Except TransportFault call.purpose.Response) :
    Lasting m (m.answered a policy call answer).manager := by
  have awake : Lasting m { m with retrying := false } := ⟨id, id⟩
  cases answer with
  | error fault => exact lasting_failed policy call fault
  | ok response =>
    match call, response with
    | ⟨.checkout, failures⟩, pulled => exact awake.trans (lasting_checkedOutWith pulled)
    | ⟨.pull since, failures⟩, pulled => exact awake.trans (lasting_pulledSince since pulled)
    | ⟨.push made batch, failures⟩, outcome => exact awake.trans (lasting_pushedWith outcome)

theorem lasting_proceed (policy : Retry.Policy) (stage : Stage op) :
    Lasting m (m.proceed a policy stage).1 := by
  cases stage with
  | asking call =>
    simp only [proceed]
    split <;> exact .refl m
  | sent call => exact .refl m
  | heard call answer => exact lasting_answered policy call answer
  | settled next => cases next <;> exact .refl m

theorem status_eq_closed : m.status = .closed ↔ m.closed = true := by
  grind [status]

theorem status_eq_halted : m.status = .halted ↔ m.closed = false ∧ m.halted = true := by
  grind [status]

/-- The error with which a manager that is halted or closed turns calls away. -/
inductive Shut (m : Manager σ op ι) : SyncError → Prop
  | halted (status : m.status = .halted) : Shut m .halted
  | closed (status : m.status = .closed) : Shut m .closed

theorem shut_iff : m.Shut e ↔ m.ensureOpen = .error e := by
  rw [ensureOpen_eq_error]
  constructor
  · intro shut
    cases shut with
    | halted status =>
      obtain ⟨isOpen, halted⟩ := status_eq_halted.1 status
      exact .inr ⟨isOpen, halted, rfl⟩
    | closed status => exact .inl ⟨status_eq_closed.1 status, rfl⟩
  · intro h
    rcases h with ⟨closed, rfl⟩ | ⟨isOpen, halted, rfl⟩
    · exact .closed (status_eq_closed.2 closed)
    · exact .halted (status_eq_halted.2 ⟨isOpen, halted⟩)

theorem Lasting.shut (lasting : Lasting m n) (shut : m.Shut e) :
    n.Shut .closed ∨ n.Shut e ∧ e = .halted := by
  cases shut with
  | halted status =>
    have halted := lasting.halted (status_eq_halted.1 status).2
    cases closed : n.closed with
    | true => exact .inl (.closed (status_eq_closed.2 closed))
    | false => exact .inr ⟨.halted (status_eq_halted.2 ⟨closed, halted⟩), rfl⟩
  | closed status =>
    exact .inl (.closed (status_eq_closed.2 (lasting.closed (status_eq_closed.1 status))))

theorem Shut.start (shut : m.Shut e) (action : Action) :
    m.start a action = (m, .ended (.error e)) := by
  have shut := shut_iff.1 shut
  have unknown := ensureCheckedOut_of_shut shut
  cases action with
  | checkout => simp only [Manager.start, beginCheckout, shut]
  | sync => simp only [Manager.start, beginSync, unknown]
  | pull => simp only [Manager.start, beginPull, unknown]

theorem Shut.snapshot (shut : m.Shut e) : m.snapshot = .error e := by
  rw [Manager.snapshot, ensureCheckedOut_of_shut (shut_iff.1 shut), error_bind]

theorem Shut.restore (shut : m.Shut e) (snapshot : Snapshot σ op) :
    m.restore a snapshot = (.error e, m, none) := by
  simp only [Manager.restore, shut_iff.1 shut]

theorem Shut.proceed (shut : m.Shut e) (policy : Retry.Policy) (call : Call op) :
    m.proceed a policy (.asking call) = (m, none, .settled (.ended (.error e))) := by
  simp only [Manager.proceed, shut_iff.1 shut]

theorem Shut.stops (shut : m.Shut e) (policy : Retry.Policy) (next : Next op) :
    ∃ stage result, m.proceed a policy (.settled next) = (m, none, stage) ∧
      m.proceed a policy stage = (m, none, .settled (.ended result)) := by
  cases next with
  | ended result => exact ⟨.settled (.ended result), result, rfl, rfl⟩
  | wait delay call => exact ⟨.asking call, .error e, rfl, shut.proceed policy call⟩
  | pushAgain => exact ⟨.asking m.pushInflight, .error e, rfl, shut.proceed policy _⟩

end Manager

namespace Shared

open Manager (Lasting)

variable {σ op ι : Type} [DecidableEq ι] {a : Algebra σ op} {s : Shared σ op ι}

theorem lasting_step (e : Event σ op ι) : Lasting s.manager (s.step a e).manager := by
  cases e with
  | add ops => exact Manager.lasting_add ops
  | reset => exact Manager.lasting_reset
  | close => exact Manager.lasting_close
  | restore snapshot => exact Manager.lasting_restore snapshot
  | listen listener => exact ⟨id, id⟩
  | unlisten id => exact ⟨fun h => h, fun h => h⟩
  | start action =>
    have lasting := Manager.lasting_start (a := a) (m := s.manager) action
    simp only [step]
    generalize s.manager.start a action = started at lasting ⊢
    obtain ⟨m, result⟩ := started
    cases result <;> exact lasting
  | proceed slot policy =>
    simp only [step]
    split
    · exact Manager.lasting_proceed policy _
    · exact .refl s.manager
  | hear slot answer =>
    simp only [step]
    split <;> exact .refl s.manager
  | release slot =>
    simp only [step]
    split <;> exact ⟨id, id⟩

theorem lasting_run (events : List (Event σ op ι)) :
    Lasting s.manager (s.run a events).manager := by
  induction events generalizing s with
  | nil => exact .refl s.manager
  | cons e events ih => exact (lasting_step e).trans ih

theorem requests_of_shut {e : SyncError} (shut : s.manager.Shut e)
    (events : List (Event σ op ι)) : s.requests a events = [] := by
  induction events generalizing s e with
  | nil => rfl
  | cons event events ih =>
    have silent : s.sends a event = [] := by
      refine List.eq_nil_iff_forall_not_mem.2 fun call sent => ?_
      obtain ⟨slot, policy, -, -, isOpen⟩ := sends_cases sent
      cases (Manager.shut_iff.1 shut).symm.trans isOpen
    -- The manager stays shut, but it may be closed where it was halted before.
    have rest : (s.step a event).requests a events = [] := by
      rcases (lasting_step (a := a) event).shut shut with closed | ⟨halted, -⟩
      · exact ih closed
      · exact ih halted
    rw [requests, silent, rest, List.nil_append]

end Shared

end Reconcile
