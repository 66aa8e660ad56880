import Reconcile.Proofs.Domain
import Reconcile.Proofs.Manager.CatchUp
import Reconcile.Proofs.Manager.Shared

/-! Resuming from a snapshot. What a snapshot leaves out can be worked out from what it holds, or
has the value that it has in a new manager, or concerns the listeners. Those only hear of what
happens: which ones are registered changes nothing else, in any run. -/

namespace Reconcile

open Manager (Action Call Purpose Stage)
open Text (Edit)

namespace Manager

variable {σ op ι : Type} {a : Algebra σ op} {m : Manager σ op ι} {l : Listener.Registry ι}

def withListeners (m : Manager σ op ι) (listeners : Listener.Registry ι) : Manager σ op ι :=
  { m with listeners }

theorem ensureOpen_withListeners : (m.withListeners l).ensureOpen = m.ensureOpen := rfl

theorem ensureCheckedOut_withListeners :
    (m.withListeners l).ensureCheckedOut = m.ensureCheckedOut := rfl

theorem add_withListeners (ops : List op) :
    ((m.withListeners l).add a ops).1 = (m.add a ops).1.withListeners l := by
  cases closed : m.closed <;> simp [add, withListeners, closed]

theorem reset_withListeners : ((m.withListeners l).reset a).1 = (m.reset a).1 ∧
    ((m.withListeners l).reset a).2.1 = (m.reset a).2.1.withListeners l := by
  by_cases closed : m.closed = true
  · simp [reset, withListeners, closed]
  · by_cases empty : m.pending.isEmpty = true
    · simp [reset, withListeners, closed, empty]
    · simp only [reset, withListeners, closed, empty]
      cases a.applyAll m.state (a.invertAll m.pending) <;> exact ⟨rfl, rfl⟩

theorem close_withListeners :
    ∃ l', (m.withListeners l).close = m.close.withListeners l' := by
  cases closed : m.closed with
  | true => exact ⟨l, by simp [close, withListeners, closed]⟩
  | false => exact ⟨l.clear, by simp [close, withListeners, closed]⟩

theorem resetTo_withListeners (base : σ) (inflight pending : List op) :
    (m.withListeners l).resetTo a base inflight pending =
      (m.resetTo a base inflight pending).map (·.withListeners l) := by
  simp only [resetTo]
  cases a.applyAll base inflight with
  | error e => rfl
  | ok mid =>
    simp only [ok_bind]
    cases a.applyAll mid pending <;> rfl

theorem restore_withListeners (snapshot : Snapshot σ op) :
    ((m.withListeners l).restore a snapshot).1 = (m.restore a snapshot).1 ∧
      ((m.withListeners l).restore a snapshot).2.1 =
        (m.restore a snapshot).2.1.withListeners l := by
  simp only [restore, ensureOpen_withListeners, resetTo_withListeners]
  cases m.ensureOpen with
  | error e => exact ⟨rfl, rfl⟩
  | ok u =>
    cases active : m.activity with
    | some activity => simp [withListeners, active]
    | none =>
      cases m.resetTo a snapshot.base snapshot.inflight snapshot.pending <;>
        simp [withListeners, active, Except.map]

theorem start_withListeners (action : Action) : (m.withListeners l).start a action =
    (m.start a action).map (·.withListeners l) id := by
  cases action with
  | checkout =>
    simp only [start, beginCheckout, ensureOpen_withListeners]
    cases m.ensureOpen with
    | error e => rfl
    | ok u =>
      by_cases active : m.activity.isSome = true <;> by_cases known : m.checkedOut = true <;>
        simp [withListeners, active, known]
  | sync =>
    simp only [start, beginSync, ensureCheckedOut_withListeners]
    cases m.ensureCheckedOut with
    | error e => rfl
    | ok u =>
      cases rejected : m.rejected with
      | cons first rest => simp [withListeners, rejected]
      | nil =>
        by_cases active : m.activity.isSome = true <;> by_cases idle : m.inflight = [] <;>
          by_cases empty : a.squashAll m.pending = [] <;>
            simp [withListeners, pushInflight, rejected, active, idle, empty]
  | pull =>
    simp only [start, beginPull, ensureCheckedOut_withListeners]
    cases m.ensureCheckedOut with
    | error e => rfl
    | ok u => by_cases active : m.activity.isSome = true <;> simp [withListeners, active]

theorem rebase_withListeners (committed : List op) (revision : Revision) :
    (m.withListeners l).rebase a committed revision =
      (m.rebase a committed revision).map id (·.withListeners l) :=
  rebase_map id id (fun _ => l) committed revision

def Settled.Matches (l : Listener.Registry ι) (settled other : Settled σ op ι) : Prop :=
  other.manager = settled.manager.withListeners l ∧ other.next = settled.next

theorem failed_matches (policy : Retry.Policy) (call : Call op) (fault : TransportFault) :
    (m.failed policy call fault).Matches l ((m.withListeners l).failed policy call fault) := by
  cases fault with
  | network reason =>
    simp only [failed]
    split <;> exact ⟨rfl, rfl⟩
  | auth reason => exact ⟨rfl, rfl⟩
  | protocol reason => exact ⟨rfl, rfl⟩

theorem checkedOutWith_matches (pulled : Pulled op) :
    (m.checkedOutWith a pulled).Matches l ((m.withListeners l).checkedOutWith a pulled) := by
  simp only [checkedOutWith, ensureOpen_withListeners, rebase_withListeners]
  split <;> exact ⟨rfl, rfl⟩

theorem pulledSince_matches (since : Revision) (pulled : Pulled op) :
    (m.pulledSince a since pulled).Matches l ((m.withListeners l).pulledSince a since pulled) := by
  simp only [pulledSince, rebase_withListeners]
  split <;> exact ⟨rfl, rfl⟩

theorem pushedWith_matches (outcome : PushOutcome op) :
    (m.pushedWith a outcome).Matches l ((m.withListeners l).pushedWith a outcome) := by
  cases outcome with
  | accepted revision =>
    simp only [pushedWith, acknowledge, withListeners]
    cases a.applyAll m.base m.inflight <;> exact ⟨rfl, rfl⟩
  | conflict operations revision =>
    simp only [pushedWith, rebase_withListeners]
    generalize m.rebase a operations revision = rebased
    obtain ⟨result, n⟩ := rebased
    cases result <;> exact ⟨rfl, rfl⟩

theorem answered_matches (policy : Retry.Policy) (call : Call op)
    (answer : Except TransportFault call.purpose.Response) :
    (m.answered a policy call answer).Matches l
      ((m.withListeners l).answered a policy call answer) := by
  cases answer with
  | error fault => exact failed_matches policy call fault
  | ok response =>
    match call, response with
    | ⟨.checkout, failures⟩, pulled => exact checkedOutWith_matches pulled
    | ⟨.pull since, failures⟩, pulled => exact pulledSince_matches since pulled
    | ⟨.push made batch, failures⟩, outcome => exact pushedWith_matches outcome

theorem proceed_withListeners (policy : Retry.Policy) (stage : Stage op) :
    ((m.withListeners l).proceed a policy stage).1 =
        (m.proceed a policy stage).1.withListeners l ∧
      ((m.withListeners l).proceed a policy stage).2.2 = (m.proceed a policy stage).2.2 := by
  cases stage with
  | asking call =>
    simp only [proceed, ensureOpen_withListeners]
    split <;> exact ⟨rfl, rfl⟩
  | sent call => exact ⟨rfl, rfl⟩
  | heard call answer =>
    obtain ⟨manager, next⟩ := answered_matches (a := a) (m := m) (l := l) policy call answer
    exact ⟨manager, congrArg Stage.settled next⟩
  | settled next => cases next <;> exact ⟨rfl, rfl⟩

theorem Sound.restore_snapshot (sound : m.Sound a) (known : m.ensureCheckedOut = .ok ())
    (idle : m.activity = none) (calm : m.retrying = false) (clean : m.rejected = [])
    (initial : σ) (l : Listener.Registry ι) :
    ((Manager.new initial).withListeners l).restore a
        ⟨m.revision, m.base, m.inflight, m.pending⟩ =
      (.ok (), m.withListeners l, some (m.withListeners l).notice) := by
  obtain ⟨isOpen, checkedOut⟩ := ensureCheckedOut_eq_ok.1 known
  obtain ⟨running, unhalted⟩ := ensureOpen_eq_ok.1 isOpen
  have moved := resetTo_eq_ok (m := (Manager.new initial).withListeners l).2
    ⟨m.state, sound.applyAll, rfl⟩
  have fresh : ((Manager.new initial : Manager σ op ι).withListeners l).ensureOpen = .ok () := rfl
  have free : ((Manager.new initial : Manager σ op ι).withListeners l).activity = none := rfl
  simp only [Manager.restore, fresh, free, moved]
  simp [withListeners, Manager.new, idle, calm, clean, checkedOut, running, unhalted]

end Manager

namespace Session

variable {σ op ι : Type} {a : Algebra σ op} {s : Session σ op ι}

def Calm (s : Session σ op ι) : Prop := s.manager.activity = none → s.manager.retrying = false

theorem Calm.close (calm : s.Calm) : (s.step a .close).Calm := by
  by_cases closed : s.manager.closed = true
  · simp only [Session.step, Manager.close, if_pos closed]
    exact calm
  · simp only [Session.step, Manager.close, if_neg closed]
    exact calm

theorem Calm.start (calm : s.Calm) (action : Action) : (s.step a (.start action)).Calm := by
  have begun := Manager.begins (a := a) (m := s.manager) action
  simp only [Calm, Session.step]
  generalize s.manager.start a action = started at begun ⊢
  cases begun with
  | ended rejected result => exact calm
  | vanished free empty => exact calm
  | _ =>
    intro idle
    cases idle

theorem Calm.proceed (attentive : s.Attentive) (calm : s.Calm) (policy : Retry.Policy) :
    (s.step a (.proceed policy)).Calm := by
  intro idle
  have gone := (attentive.proceed (a := a) policy).idle idle
  cases outstanding : s.stage with
  | none =>
    simp only [Session.step, outstanding] at idle ⊢
    exact calm idle
  | some stage => simp [Session.step, outstanding] at gone

theorem Calm.step (attentive : s.Attentive) (calm : s.Calm) (e : Event op) :
    (s.step a e).Calm := by
  cases e with
  | add ops =>
    obtain ⟨state, pending, rejected, added⟩ := Manager.add_with (a := a) (m := s.manager) ops
    simp only [Session.step, added]
    exact calm
  | reset =>
    obtain ⟨state, pending, rejected, undone⟩ := Manager.reset_with (a := a) (m := s.manager)
    simp only [Session.step, undone]
    exact calm
  | close => exact calm.close
  | start action => exact calm.start action
  | proceed policy => exact calm.proceed attentive policy
  | release => exact fun _ => rfl

theorem Calm.restore (calm : s.Calm) (snapshot : Snapshot σ op) : (s.restore a snapshot).Calm := by
  simp only [Calm, Session.restore]
  rcases s.manager.restore_cases (a := a) snapshot with same | ⟨state, -, -, restored⟩
  · rw [same]
    exact calm
  · rw [restored]
    exact calm

theorem Reachable.calm (reached : s.Reachable a) : s.Calm := by
  induction reached with
  | new initial => exact fun _ => rfl
  | step reached e ih => exact ih.step reached.attentive e
  | hear reached answer ih =>
    rw [Calm, hear_manager]
    exact ih
  | restore reached source taken ih _ => exact ih.restore _

end Session

namespace Shared

variable {σ op ι : Type} {a : Algebra σ op} {s : Shared σ op ι} {l : Listener.Registry ι}

def withListeners (s : Shared σ op ι) (listeners : Listener.Registry ι) : Shared σ op ι :=
  { s with manager := s.manager.withListeners listeners }

/-- The same in all that can be asked of a manager, and in all that its calls are about to do. -/
structure Resembles (a : Algebra σ op) (s t : Shared σ op ι) : Prop where
  status : t.manager.status = s.manager.status
  revision : t.manager.revision = s.manager.revision
  state : t.manager.state = s.manager.state
  pending : t.manager.pending = s.manager.pending
  inflight : t.manager.inflight = s.manager.inflight
  calls : t.calls = s.calls
  snapshot : t.manager.snapshot = s.manager.snapshot
  reset : (t.manager.reset a).1 = (s.manager.reset a).1
  restore : ∀ snapshot, (t.manager.restore a snapshot).1 = (s.manager.restore a snapshot).1
  returns : ∀ e, t.returns a e = s.returns a e
  sends : ∀ e, t.sends a e = s.sends a e

theorem returns_withListeners (e : Event σ op ι) :
    (s.withListeners l).returns a e = s.returns a e := by
  cases e with
  | start action =>
    simp only [returns, withListeners, Manager.start_withListeners]
    rfl
  | _ => rfl

theorem sends_withListeners (e : Event σ op ι) :
    (s.withListeners l).sends a e = s.sends a e := by
  cases e with
  | proceed slot policy =>
    have same (stage : Stage op) :=
      (Manager.proceed_withListeners (a := a) (m := s.manager) (l := l) policy stage).2
    simp only [sends, withListeners, same]
  | _ => rfl

theorem resembles_withListeners : Resembles a s (s.withListeners l) where
  status := rfl
  revision := rfl
  state := rfl
  pending := rfl
  inflight := rfl
  calls := rfl
  snapshot := rfl
  reset := Manager.reset_withListeners.1
  restore snapshot := (Manager.restore_withListeners snapshot).1
  returns := returns_withListeners
  sends := sends_withListeners

variable [DecidableEq ι]

theorem step_withListeners (e : Event σ op ι) :
    ∃ l', (s.withListeners l).step a e = (s.step a e).withListeners l' := by
  cases e with
  | add ops => exact ⟨l, by simp only [step, withListeners, Manager.add_withListeners]⟩
  | reset => exact ⟨l, by simp only [step, withListeners, Manager.reset_withListeners.2]⟩
  | close =>
    obtain ⟨l', closed⟩ := Manager.close_withListeners (m := s.manager) (l := l)
    exact ⟨l', by simp only [step, withListeners, closed]⟩
  | restore snapshot =>
    have restored := (Manager.restore_withListeners (a := a) (m := s.manager) (l := l) snapshot).2
    exact ⟨l, by simp only [step, withListeners, restored]⟩
  | listen listener => exact ⟨(l.add listener).2, rfl⟩
  | unlisten id => exact ⟨(l.remove id).2, rfl⟩
  | start action =>
    refine ⟨l, ?_⟩
    simp only [step, withListeners, Manager.start_withListeners]
    generalize s.manager.start a action = started
    obtain ⟨m, result⟩ := started
    cases result <;> rfl
  | proceed slot policy =>
    refine ⟨l, ?_⟩
    simp only [step, withListeners]
    cases s.calls[slot]? with
    | none => rfl
    | some stage =>
      obtain ⟨manager, next⟩ :=
        Manager.proceed_withListeners (a := a) (m := s.manager) (l := l) policy stage
      simp only [manager, next]
  | hear slot answer =>
    refine ⟨l, ?_⟩
    simp only [step, withListeners]
    split <;> rfl
  | release slot =>
    refine ⟨l, ?_⟩
    by_cases present : slot < s.calls.length
    · have same : slot < (s.withListeners l).calls.length := present
      simp only [step, if_pos present, if_pos same]
      rfl
    · have same : ¬slot < (s.withListeners l).calls.length := present
      simp only [step, if_neg present, if_neg same]

theorem run_withListeners (events : List (Event σ op ι)) :
    ∃ l', (s.withListeners l).run a events = (s.run a events).withListeners l' := by
  induction events generalizing s l with
  | nil => exact ⟨l, rfl⟩
  | cons e events ih =>
    obtain ⟨l', stepped⟩ := step_withListeners (a := a) (s := s) (l := l) e
    obtain ⟨l'', rest⟩ := ih (s := s.step a e) (l := l')
    refine ⟨l'', ?_⟩
    rw [run, List.foldl_cons, stepped]
    exact rest

theorem requests_withListeners (events : List (Event σ op ι)) :
    (s.withListeners l).requests a events = s.requests a events := by
  induction events generalizing s l with
  | nil => rfl
  | cons e events ih =>
    obtain ⟨l', stepped⟩ := step_withListeners (a := a) (s := s) (l := l) e
    rw [requests, requests, sends_withListeners, stepped, ih]

/-- In every state that a client can reach, whatever its transport answers, a manager that is open
and checked out, with no call outstanding and no rejected operation to report, can be resumed: its
snapshot is restored in a new manager, whatever that was made from and whoever listens to either,
and from then on the two cannot be told apart. Whatever happens to both of them, they return the
same results, make the same requests, and are in the same state with the same queues. -/
theorem resuming_changes_nothing (domain : Domain a) {m : Session σ op ι} (reached : m.Reachable a)
    (known : m.manager.ensureCheckedOut = .ok ()) (idle : m.manager.activity = none)
    (clean : m.manager.rejected = []) (listeners others : Listener.Registry ι) (initial : σ) :
    let s : Shared σ op ι := ⟨m.manager.withListeners listeners, []⟩
    let fresh := (Manager.new initial).withListeners others
    ∃ snapshot restored, s.manager.snapshot = .ok snapshot ∧
      fresh.restore a snapshot = (.ok (), restored, some restored.notice) ∧
      ∀ events : List (Event σ op ι),
        Resembles a (s.run a events) (run a ⟨restored, []⟩ events) ∧
          requests a ⟨restored, []⟩ events = s.requests a events := by
  intro s fresh
  have sound := (reached.steady domain.lawful).sound
  refine ⟨_, m.manager.withListeners others, bind_eq_ok.2 ⟨(), known, rfl⟩, ?_, fun events => ?_⟩
  · exact sound.restore_snapshot known idle (reached.calm idle) clean initial others
  · have same : (⟨m.manager.withListeners others, []⟩ : Shared σ op ι) = s.withListeners others :=
      rfl
    obtain ⟨l, ran⟩ := run_withListeners (a := a) (s := s) (l := others) events
    rw [same, ran]
    exact ⟨resembles_withListeners, requests_withListeners events⟩

theorem resuming_changes_nothing_after_release :
    let policy : Retry.Policy := fun _ => none
    let answer : (purpose : Purpose Edit) → Except TransportFault purpose.Response
      | .checkout | .pull _ => .ok ⟨⟨3⟩, []⟩
      | .push _ _ => .ok (.conflict [.delete 2 ['c', 'd']] ⟨2⟩)
    let events : List (Event Text.Document Edit String) :=
      [.start .sync, .proceed 0 policy, .hear 0 answer, .proceed 0 policy, .proceed 0 policy,
        .add [.insert 0 ['q']], .reset, .proceed 0 policy]
    let m := (Session.outstandingPush.step Text.algebra .release).step Text.algebra (.start .sync)
    let s : Shared Text.Document Edit String := ⟨m.manager.withListeners ⟨[(0, "first")], 1⟩, []⟩
    ∃ snapshot restored, s.manager.snapshot = .ok snapshot ∧
      ((Manager.new ['?']).withListeners .empty).restore Text.algebra snapshot =
        (.ok (), restored, some restored.notice) ∧
      Resembles Text.algebra (s.run Text.algebra events)
        (run Text.algebra ⟨restored, []⟩ events) ∧
      requests Text.algebra ⟨restored, []⟩ events =
        [⟨.push ⟨1⟩ [.replace 1 ['b', 'c'] ['x', 'y']], 0⟩,
          ⟨.push ⟨2⟩ [.delete 1 ['b'], .insert 1 ['x', 'y']], 0⟩] := by
  intro policy answer events m s
  have reached : m.Reachable Text.algebra :=
    .step (.step Session.reachable_outstandingPush .release) (.start .sync)
  have known : m.manager.ensureCheckedOut = .ok () := by decide +kernel
  have clean : m.manager.rejected = [] := by decide +kernel
  obtain ⟨snapshot, restored, taken, resumed, onwards⟩ := resuming_changes_nothing .text reached
    known rfl clean ⟨[(0, "first")], 1⟩ .empty ['?']
  obtain ⟨resembles, requested⟩ := onwards events
  refine ⟨snapshot, restored, taken, resumed, resembles, requested.trans ?_⟩
  decide +kernel

end Shared

end Reconcile
