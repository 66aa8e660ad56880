import Reconcile.Counter
import Reconcile.Proofs.Manager.Depth
import Reconcile.Proofs.Manager.Fatal

/-! A rebase that fails is all or nothing, whatever the algebra. Committed operations that do not
apply halt the manager and change nothing else; queues that cannot follow are given up as a whole,
on top of what was committed. Then there is nothing left to push, and the next sync finds so. All
this is said of recursions that come to an end, however deep that is. -/

namespace Reconcile

open Manager (Action Call Next Purpose Stage)

namespace Manager

variable {σ op ι : Type} {a : Algebra σ op} {m n : Manager σ op ι} {call : Call op}
  {base state : σ} {committed inflight pending : List op} {revision : Revision} {e : OpError}
  {p : Pulled op}

def follow (a : Algebra σ op) (m : Manager σ op ι) (base : σ) (committed : List op) :
    Except OpError (List op × List op × σ) := do
  let (inflight, pending) ← m.transformQueues a committed
  let state ← a.applyAll base (inflight ++ pending)
  return (inflight, pending, state)

/-- The manager after it has rebased, and how the call goes on: nothing has moved and the manager is
halted, or it has moved without its queues, or with them. -/
def Rebased (a : Algebra σ op) (m : Manager σ op ι) (p : Pulled op) (next : Next op)
    (n : Manager σ op ι) : Prop :=
  match a.applyAll m.base p.operations with
  | .error _ =>
    (∃ reason, next = .ended (.error (.protocol reason))) ∧
      n = { m with halted := true, retrying := false, checkedOut := n.checkedOut }
  | .ok base =>
    match m.follow a base p.operations with
    | .error e =>
      next = .ended (.error (.invalidOperation e)) ∧
        n = { m with
          base, state := base, revision := p.revision, inflight := [], pending := []
          retrying := false, checkedOut := n.checkedOut }
    | .ok (inflight, pending, state) =>
      (next = .pushAgain ∨ ∃ count, next = .ended (.ok count)) ∧
        a.applyAll base (inflight ++ pending) = .ok state ∧
        n = { m with
          base, state, revision := p.revision, inflight, pending
          retrying := false, checkedOut := n.checkedOut }

theorem Rebased.of_retrying {next : Next op} (h : Rebased a { m with retrying := false } p next n) :
    Rebased a m p next n := h

instance [DecidableEq op] : (purpose : Purpose op) → DecidableEq purpose.Response
  | .checkout | .pull _ => inferInstanceAs (DecidableEq (Pulled op))
  | .push _ _ => inferInstanceAs (DecidableEq (PushOutcome op))

deriving instance DecidableEq for Stage

def Stage.IsOver : Stage op → Prop
  | .settled (.ended _) => True
  | _ => False

theorem halted_add (ops : List op) : (m.add a ops).1.halted = m.halted := by
  obtain ⟨state, pending, rejected, added⟩ := add_with (a := a) (m := m) ops
  rw [added]

theorem halted_reset : (m.reset a).2.1.halted = m.halted := by
  obtain ⟨state, pending, rejected, undone⟩ := reset_with (a := a) (m := m)
  rw [undone]

theorem halted_close : m.close.halted = m.halted := by
  simp only [close]
  split <;> rfl

theorem halted_restore (snapshot : Snapshot σ op) :
    (m.restore a snapshot).2.1.halted = m.halted := by
  rcases m.restore_cases (a := a) snapshot with same | ⟨state, -, -, restored⟩
  · rw [same]
  · rw [restored]

theorem halted_start (action : Action) : (m.start a action).1.halted = m.halted := by
  have begun := begins (a := a) (m := m) action
  generalize m.start a action = started at begun ⊢
  cases begun <;> rfl

theorem running_of_asking {action : Action} (asked : (m.start a action).2 = .asking call) :
    m.halted = false := by
  cases halted : m.halted with
  | false => rfl
  | true =>
    obtain ⟨e, shut⟩ := shut_of_halted halted
    rw [shut.start] at asked
    cases asked

theorem halted_rebase (done : (m.rebase a committed revision).1 = .ok ()) :
    (m.rebase a committed revision).2.halted = m.halted := by
  have moved := rebases (a := a) (m := m) committed revision
  generalize m.rebase a committed revision = rebased at moved done ⊢
  cases moved with
  | halted fails => cases done
  | moved applied crossed reached => rfl
  | discarded applied stuck => cases done

theorem halted_checkedOutWith (pulled : Pulled op) :
    (∃ e, (m.checkedOutWith a pulled).next = .ended (.error e)) ∨
      (m.checkedOutWith a pulled).manager.halted = m.halted := by
  simp only [checkedOutWith]
  split
  · exact .inl ⟨_, rfl⟩
  · cases done : (m.rebase a pulled.operations pulled.revision).1 with
    | error e => exact .inl ⟨e, rfl⟩
    | ok u => exact .inr (halted_rebase done)

theorem halted_pulledSince (since : Revision) (pulled : Pulled op) :
    (∃ e, (m.pulledSince a since pulled).next = .ended (.error e)) ∨
      (m.pulledSince a since pulled).manager.halted = m.halted := by
  simp only [pulledSince]
  split
  · exact .inr rfl
  · cases done : (m.rebase a pulled.operations pulled.revision).1 with
    | error e => exact .inl ⟨e, rfl⟩
    | ok u => exact .inr (halted_rebase done)

theorem halted_pushedWith (outcome : PushOutcome op) :
    (∃ e, (m.pushedWith a outcome).next = .ended (.error e)) ∨
      (m.pushedWith a outcome).manager.halted = m.halted := by
  cases outcome with
  | accepted revision =>
    simp only [pushedWith]
    split
    · exact .inl ⟨_, rfl⟩
    · rename_i acknowledged
      obtain ⟨base, -, rfl⟩ := acknowledge_eq_ok.1 acknowledged
      exact .inr rfl
  | conflict operations revision =>
    simp only [pushedWith]
    cases done : (m.rebase a operations revision).1 with
    | error e => exact .inl ⟨e, rfl⟩
    | ok u => exact .inr (halted_rebase done)

theorem halted_failed (policy : Retry.Policy) (fault : TransportFault) :
    (∃ e, (m.failed policy call fault).next = .ended (.error e)) ∨
      (m.failed policy call fault).manager.halted = m.halted := by
  cases fault with
  | network reason =>
    simp only [failed]
    split <;> exact .inr rfl
  | auth reason => exact .inl ⟨_, rfl⟩
  | protocol reason => exact .inl ⟨_, rfl⟩

theorem halted_answered (policy : Retry.Policy)
    (answer : Except TransportFault call.purpose.Response) :
    (∃ e, (m.answered a policy call answer).next = .ended (.error e)) ∨
      (m.answered a policy call answer).manager.halted = m.halted := by
  cases answer with
  | error fault => exact halted_failed policy fault
  | ok response =>
    let n := { m with retrying := false }
    match call, response with
    | ⟨.checkout, failures⟩, pulled => exact halted_checkedOutWith (m := n) pulled
    | ⟨.pull since, failures⟩, pulled => exact halted_pulledSince (m := n) since pulled
    | ⟨.push made batch, failures⟩, outcome => exact halted_pushedWith (m := n) outcome

theorem halted_proceed (policy : Retry.Policy) (stage : Stage op) :
    (∃ e, (m.proceed a policy stage).2.2 = .settled (.ended (.error e))) ∨
      (m.proceed a policy stage).1.halted = m.halted := by
  cases stage with
  | asking call =>
    simp only [proceed]
    split <;> exact .inr rfl
  | sent call => exact .inr rfl
  | heard call answer =>
    refine (halted_answered (m := m) (a := a) policy answer).imp_left ?_
    rintro ⟨e, ended⟩
    exact ⟨e, congrArg Stage.settled ended⟩
  | settled next => cases next <;> exact .inr rfl

theorem running_proceed (policy : Retry.Policy) {stage : Stage op}
    (running : stage.IsOver ∨ m.halted = false) :
    (m.proceed a policy stage).2.2.IsOver ∨ (m.proceed a policy stage).1.halted = false := by
  rcases running with final | awake
  · match stage, final with
    | .settled (.ended result), final => exact .inl final
  · rcases halted_proceed (m := m) (a := a) policy stage with ⟨e, ended⟩ | same
    · rw [ended]
      exact .inl trivial
    · exact .inr (same.trans awake)

structure Cleared (m : Manager σ op ι) : Prop where
  inflight : m.inflight = []
  pending : m.pending = []
  rejected : m.rejected = []
  known : m.checkedOut = true

theorem transformQueues_of_empty (inflightEmpty : m.inflight = []) (pendingEmpty : m.pending = [])
    (committed : List op) : m.transformQueues a committed = .ok ([], []) := by
  simp only [transformQueues, inflightEmpty, pendingEmpty, Algebra.transform_nil_left]
  rfl

theorem Requeues.of_empty (inflightEmpty : m.inflight = []) (pendingEmpty : m.pending = [])
    {purpose : Purpose op} {response : purpose.Response}
    (h : Requeues a m base purpose response inflight pending state) :
    inflight = [] ∧ pending = [] := by
  cases h with
  | accepted => exact ⟨rfl, pendingEmpty⟩
  | rebased crossed reached =>
    rw [transformQueues_of_empty inflightEmpty pendingEmpty] at crossed
    obtain ⟨rfl, rfl⟩ := Prod.mk.inj (Except.ok.inj crossed)
    exact ⟨rfl, rfl⟩
  | discarded => exact ⟨rfl, rfl⟩

theorem Cleared.proceed (cleared : m.Cleared) {stage : Stage op} (attends : m.Attends stage)
    (policy : Retry.Policy) : (m.proceed a policy stage).1.Cleared := by
  have proceeded := proceeds (a := a) policy attends
  generalize m.proceed a policy stage = after at proceeded ⊢
  obtain ⟨n, notice, next⟩ := after
  cases proceeded with
  | stays attends unheard => exact cleared
  | settles heard settles =>
    cases settles with
    | still goesOn => exact ⟨cleared.inflight, cleared.pending, cleared.rejected, cleared.known⟩
    | moved heard applied requeued goesOn =>
      obtain ⟨inflight, pending⟩ := requeued.of_empty cleared.inflight cleared.pending
      exact ⟨inflight, pending, cleared.rejected, rfl⟩

end Manager

namespace Shared

open Manager (Cleared Rebased)

variable {σ op ι : Type} {a : Algebra σ op} {s t : Shared σ op ι} {stage : Stage op}

def Event.given : Event σ op ι → List op
  | .add ops => ops
  | .restore snapshot => snapshot.inflight ++ snapshot.pending
  | _ => []

def Running (s : Shared σ op ι) : Prop :=
  ∀ stage ∈ s.calls, stage.IsOver ∨ s.manager.halted = false

theorem Running.of_halted (running : s.Running) (calls : t.calls = s.calls)
    (same : t.manager.halted = s.manager.halted) : t.Running := by
  intro stage present
  rw [same]
  exact running stage (calls ▸ present)

variable [DecidableEq ι]

theorem Sole.running_step (sole : s.Sole) (running : s.Running) (e : Event σ op ι) :
    (s.step a e).Running := by
  cases e with
  | add ops => exact running.of_halted rfl (Manager.halted_add ops)
  | reset => exact running.of_halted rfl Manager.halted_reset
  | close => exact running.of_halted rfl Manager.halted_close
  | restore snapshot => exact running.of_halted rfl (Manager.halted_restore snapshot)
  | listen listener => exact running.of_halted rfl rfl
  | unlisten id => exact running.of_halted rfl rfl
  | start action =>
    have same := Manager.halted_start (a := a) (m := s.manager) action
    have asked (call : Call op) (h : (s.manager.start a action).2 = .asking call) :=
      Manager.running_of_asking h
    simp only [Shared.step]
    generalize s.manager.start a action = started at same asked ⊢
    obtain ⟨m, result⟩ := started
    cases result with
    | ended result => exact running.of_halted rfl same
    | asking call => exact fun _ _ => .inr (same.trans (asked call rfl))
  | proceed slot policy =>
    rcases sole.cases with calls | ⟨stage, calls⟩
    · simpa [Shared.step, calls] using running
    · cases slot with
      | zero =>
        have moved := Manager.running_proceed (a := a) policy
          (running stage (by simp [calls]))
        simpa [Shared.step, calls, Running] using moved
      | succ slot => simpa [Shared.step, calls] using running
  | hear slot answer =>
    simp only [Shared.step]
    split
    · rename_i call sent
      intro stage present
      rcases List.mem_or_eq_of_mem_set present with present | heard
      · exact running stage present
      · exact .inr ((running _ (List.mem_of_getElem? sent)).resolve_left id)
    · exact running
  | release slot =>
    simp only [Shared.step]
    split
    · rename_i present
      exact fun stage kept => running stage (List.mem_of_mem_eraseIdx kept)
    · exact running

theorem run_append (first second : List (Event σ op ι)) :
    s.run a (first ++ second) = (s.run a first).run a second :=
  List.foldl_append

theorem running_run (initial : σ) (events : List (Event σ op ι)) :
    ((new initial).run a events).Running := by
  induction events using List.reverseRecOn with
  | nil => exact fun stage present => nomatch present
  | append_singleton events e ih =>
    have sole : ((new initial).run a events).Sole := (sole_new initial).run events
    rw [run, List.foldl_append]
    exact sole.running_step ih e

end Shared

end Reconcile
