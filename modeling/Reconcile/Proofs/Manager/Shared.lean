import Reconcile.Proofs.Manager.Session
import Reconcile.Text.Cross

/-! A manager that several handles share, with any number of calls begun on it. At most one of them
is ever in progress: while it is, others end where they begin, and all that they and everything else
at the client can do is to add operations, to undo them, and to shut the manager. So a call finds
the manager where it left it whenever its answer comes. -/

namespace Reconcile

open Manager (Action Call Purpose Stage Undisturbed)
open Text (Edit)

namespace Manager

variable {σ op ι : Type} {a : Algebra σ op} {m : Manager σ op ι}

theorem restore_busy (active : m.activity.isSome = true) (snapshot : Snapshot σ op) :
    ∃ e, m.restore a snapshot = (.error e, m, none) := by
  simp only [restore, active, if_true]
  split
  · rename_i e shut
    exact ⟨e, rfl⟩
  · exact ⟨.busy, rfl⟩

theorem undisturbed_listen [DecidableEq ι] (listener : ι) : Undisturbed m (m.listen listener).2 :=
  ⟨rfl, rfl, rfl, rfl, rfl⟩

theorem undisturbed_unlisten (id : Nat) : Undisturbed m (m.unlisten id).2 :=
  ⟨rfl, rfl, rfl, rfl, rfl⟩

end Manager

/-- A manager and the calls in progress on it, in the order in which they were begun. -/
structure Shared (σ op ι : Type) where
  manager : Manager σ op ι
  calls : List (Stage op)

namespace Shared

variable {σ op ι : Type} {a : Algebra σ op} {s t u : Shared σ op ι} {stage : Stage op}

def new (initial : σ) : Shared σ op ι := ⟨.new initial, []⟩

def session (s : Shared σ op ι) : Session σ op ι := ⟨s.manager, s.calls.head?⟩

/-- At most one call is in progress; the manager says so, and is where that call left it. -/
structure Sole (s : Shared σ op ι) : Prop where
  single : s.calls.length ≤ 1
  idle : s.calls = [] → s.manager.activity = none
  attentive : s.session.Attentive

theorem sole_new (initial : σ) : (new initial : Shared σ op ι).Sole where
  single := Nat.zero_le 1
  idle _ := rfl
  attentive := Session.attentive_new initial

theorem Sole.cases (sole : s.Sole) : s.calls = [] ∨ ∃ stage, s.calls = [stage] := by
  match calls : s.calls with
  | [] => exact .inl rfl
  | [stage] => exact .inr ⟨stage, rfl⟩
  | _ :: _ :: _ =>
    have single := sole.single
    rw [calls] at single
    simp at single

theorem Sole.attends (sole : s.Sole) (calls : s.calls = [stage]) : s.manager.Attends stage :=
  sole.attentive.attends stage (by rw [session, calls]; rfl)

theorem Sole.nil_iff (sole : s.Sole) : s.calls = [] ↔ s.manager.activity = none := by
  refine ⟨sole.idle, fun free => ?_⟩
  rcases sole.cases with calls | ⟨stage, calls⟩
  · exact calls
  · have active := (sole.attends calls).active
    rw [free] at active
    cases active

theorem Sole.undisturbed (sole : s.Sole) {m : Manager σ op ι} (u : Undisturbed s.manager m) :
    Sole { s with manager := m } where
  single := sole.single
  idle none := u.activity.trans (sole.idle none)
  attentive := sole.attentive.undisturbed u

structure Meanwhile (s t : Shared σ op ι) : Prop where
  undisturbed : Undisturbed s.manager t.manager
  calls : t.calls = s.calls ∨
    ∃ call answer, s.calls = [.sent call] ∧ t.calls = [.heard call answer]

theorem Meanwhile.trans (first : Meanwhile s t) (second : Meanwhile t u) : Meanwhile s u := by
  refine ⟨first.undisturbed.trans second.undisturbed, ?_⟩
  rcases second.calls with same | ⟨call, answer, sent, heard⟩
  · rw [same]
    exact first.calls
  · rcases first.calls with same | ⟨call', answer', -, heard'⟩
    · exact .inr ⟨call, answer, same ▸ sent, heard⟩
    · cases heard'.symm.trans sent

/-- What can happen to a manager through any of its handles, and to the calls in progress on it. -/
inductive Event (σ op ι : Type)
  | add (ops : List op)
  | reset
  | close
  | restore (snapshot : Snapshot σ op)
  | listen (listener : ι)
  | unlisten (id : Nat)
  | start (action : Action)
  | proceed (slot : Nat) (policy : Retry.Policy)
  | hear (slot : Nat) (answer : (purpose : Purpose op) → Except TransportFault purpose.Response)
  | release (slot : Nat)

def Event.Drives (slot : Nat) : Event σ op ι → Prop
  | .proceed i _ | .release i => i = slot
  | _ => False

def sends (a : Algebra σ op) (s : Shared σ op ι) : Event σ op ι → List (Call op)
  | .proceed slot policy =>
    match s.calls[slot]? with
    | some (.asking call) =>
      match (s.manager.proceed a policy (.asking call)).2.2 with
      | .sent call => [call]
      | _ => []
    | _ => []
  | _ => []

def returns (a : Algebra σ op) (s : Shared σ op ι) :
    Event σ op ι → Option (Except SyncError Nat)
  | .start action =>
    match (s.manager.start a action).2 with
    | .ended result => some result
    | .asking _ => none
  | .release slot =>
    match s.calls[slot]? with
    | some (.settled (.ended result)) => some result
    | _ => none
  | _ => none

theorem sends_cases {call : Call op} {e : Event σ op ι} (sent : call ∈ s.sends a e) :
    ∃ slot policy, e = .proceed slot policy ∧ s.calls[slot]? = some (.asking call) ∧
      s.manager.ensureOpen = .ok () := by
  cases e with
  | proceed slot policy =>
    simp only [sends] at sent
    split at sent
    · rename_i asked asking
      simp only [Manager.proceed] at sent
      cases isOpen : s.manager.ensureOpen with
      | error e => simp [isOpen] at sent
      | ok u =>
        simp only [isOpen, List.mem_singleton] at sent
        subst sent
        exact ⟨slot, policy, rfl, asking, rfl⟩
    · cases sent
  | _ => cases sent

theorem sends_eq_nil (calls : s.calls = [stage]) {e : Event σ op ι} (others : ¬e.Drives 0) :
    s.sends a e = [] := by
  refine List.eq_nil_iff_forall_not_mem.2 fun call sent => ?_
  obtain ⟨slot, policy, rfl, asking, -⟩ := sends_cases sent
  cases slot with
  | zero => exact others rfl
  | succ slot => simp [calls] at asking

variable [DecidableEq ι]

def step (a : Algebra σ op) (s : Shared σ op ι) : Event σ op ι → Shared σ op ι
  | .add ops => { s with manager := (s.manager.add a ops).1 }
  | .reset => { s with manager := (s.manager.reset a).2.1 }
  | .close => { s with manager := s.manager.close }
  | .restore snapshot => { s with manager := (s.manager.restore a snapshot).2.1 }
  | .listen listener => { s with manager := (s.manager.listen listener).2 }
  | .unlisten id => { s with manager := (s.manager.unlisten id).2 }
  | .start action =>
    match s.manager.start a action with
    | (m, .ended _) => { s with manager := m }
    | (m, .asking call) => ⟨m, s.calls ++ [.asking call]⟩
  | .proceed slot policy =>
    match s.calls[slot]? with
    | some stage =>
      let (m, _, stage) := s.manager.proceed a policy stage
      ⟨m, s.calls.set slot stage⟩
    | none => s
  | .hear slot answer =>
    match s.calls[slot]? with
    | some (.sent call) => { s with calls := s.calls.set slot (.heard call (answer call.purpose)) }
    | _ => s
  | .release slot =>
    if slot < s.calls.length then ⟨s.manager.release, s.calls.eraseIdx slot⟩ else s

def run (a : Algebra σ op) (s : Shared σ op ι) (events : List (Event σ op ι)) : Shared σ op ι :=
  events.foldl (step a) s

def requests (a : Algebra σ op) : Shared σ op ι → List (Event σ op ι) → List (Call op)
  | _, [] => []
  | s, e :: events => s.sends a e ++ requests a (s.step a e) events

theorem Sole.start (sole : s.Sole) (action : Action) : (s.step a (.start action)).Sole := by
  -- With no call in progress this is what a session does; otherwise the action is turned away.
  rcases sole.cases with calls | ⟨stage, calls⟩
  · have attentive := sole.attentive.start (a := a) action
    have free := sole.idle calls
    have begun := Manager.begins (a := a) (m := s.manager) action
    simp only [Session.step, session] at attentive
    simp only [step]
    generalize s.manager.start a action = started at attentive begun ⊢
    obtain ⟨m, result⟩ := started
    cases result with
    | ended result =>
      refine ⟨sole.single, fun _ => ?_, attentive⟩
      cases begun <;> exact free
    | asking call =>
      dsimp only at attentive ⊢
      rw [calls]
      exact ⟨Nat.le_refl 1, (fun none => absurd none (List.cons_ne_nil _ _)), attentive⟩
  · obtain ⟨rejected, result, ended, -⟩ :=
      Manager.start_busy (a := a) (sole.attends calls).active action
    simp only [step, ended]
    exact sole.undisturbed ⟨rfl, rfl, rfl, rfl, rfl⟩

theorem Sole.restore (sole : s.Sole) (snapshot : Snapshot σ op) :
    (s.step a (.restore snapshot)).Sole where
  single := sole.single
  idle none := by
    have free := sole.idle none
    simp only [step]
    rcases s.manager.restore_cases (a := a) snapshot with same | ⟨state, -, -, same⟩
    · rw [same]
      exact free
    · rw [same]
      exact free
  attentive := sole.attentive.restore snapshot

theorem Sole.proceed (sole : s.Sole) (slot : Nat) (policy : Retry.Policy) :
    (s.step a (.proceed slot policy)).Sole := by
  rcases sole.cases with calls | ⟨stage, calls⟩
  · simpa [step, calls] using sole
  · cases slot with
    | zero =>
      have attentive := sole.attentive.proceed (a := a) policy
      simp only [Session.step, session, calls, List.head?_cons] at attentive
      simp only [step, calls, List.getElem?_cons_zero, List.set_cons_zero]
      exact ⟨Nat.le_refl 1, (fun none => absurd none (List.cons_ne_nil _ _)), attentive⟩
    | succ slot => simpa [step, calls] using sole

theorem Sole.hear (sole : s.Sole) (slot : Nat)
    (answer : (purpose : Purpose op) → Except TransportFault purpose.Response) :
    (s.step a (.hear slot answer)).Sole := by
  rcases sole.cases with calls | ⟨stage, calls⟩
  · simpa [step, calls] using sole
  · cases slot with
    | zero =>
      have attentive := sole.attentive.hear answer
      simp only [Session.hear, session, calls, List.head?_cons] at attentive
      simp only [step, calls, List.getElem?_cons_zero, List.set_cons_zero]
      cases stage with
      | sent call =>
        exact ⟨Nat.le_refl 1, (fun none => absurd none (List.cons_ne_nil _ _)), attentive⟩
      | asking call => exact sole
      | heard call answer => exact sole
      | settled next => exact sole
    | succ slot => simpa [step, calls] using sole

theorem Sole.release (sole : s.Sole) (slot : Nat) : (s.step a (.release slot)).Sole := by
  rcases sole.cases with calls | ⟨stage, calls⟩
  · simpa [step, calls] using sole
  · cases slot with
    | zero =>
      have attentive := sole.attentive.step (a := a) .release
      simp only [step, calls, List.length_singleton, Nat.zero_lt_one, if_true,
        List.eraseIdx_cons_zero]
      exact ⟨Nat.zero_le 1, fun _ => rfl, attentive⟩
    | succ slot => simpa [step, calls] using sole

theorem Sole.step (sole : s.Sole) (e : Event σ op ι) : (s.step a e).Sole := by
  cases e with
  | add ops => exact sole.undisturbed (Manager.undisturbed_add ops)
  | reset => exact sole.undisturbed Manager.undisturbed_reset
  | close => exact sole.undisturbed Manager.undisturbed_close
  | restore snapshot => exact sole.restore snapshot
  | listen listener => exact sole.undisturbed (Manager.undisturbed_listen listener)
  | unlisten id => exact sole.undisturbed (Manager.undisturbed_unlisten id)
  | start action => exact sole.start action
  | proceed slot policy => exact sole.proceed slot policy
  | hear slot answer => exact sole.hear slot answer
  | release slot => exact sole.release slot

theorem Sole.run (sole : s.Sole) (events : List (Event σ op ι)) : (s.run a events).Sole := by
  induction events generalizing s with
  | nil => exact sole
  | cons e events ih => exact ih (sole.step e)

theorem Sole.meanwhile_step (sole : s.Sole) (calls : s.calls = [stage]) {e : Event σ op ι}
    (others : ¬e.Drives 0) : Meanwhile s (s.step a e) := by
  have active := (sole.attends calls).active
  cases e with
  | add ops => exact ⟨Manager.undisturbed_add ops, .inl rfl⟩
  | reset => exact ⟨Manager.undisturbed_reset, .inl rfl⟩
  | close => exact ⟨Manager.undisturbed_close, .inl rfl⟩
  | restore snapshot =>
    obtain ⟨e, refused⟩ := Manager.restore_busy (a := a) active snapshot
    simp only [Shared.step, refused]
    exact ⟨.refl s.manager, .inl rfl⟩
  | listen listener => exact ⟨Manager.undisturbed_listen listener, .inl rfl⟩
  | unlisten id => exact ⟨Manager.undisturbed_unlisten id, .inl rfl⟩
  | start action =>
    obtain ⟨rejected, result, ended, -⟩ := Manager.start_busy (a := a) active action
    simp only [Shared.step, ended]
    exact ⟨⟨rfl, rfl, rfl, rfl, rfl⟩, .inl rfl⟩
  | proceed slot policy =>
    cases slot with
    | zero => exact absurd rfl others
    | succ slot =>
      simp only [Shared.step, calls, List.getElem?_cons_succ, List.getElem?_nil]
      exact ⟨.refl s.manager, .inl rfl⟩
  | hear slot answer =>
    have hearing : (s.step a (.hear slot answer)).manager = s.manager := by
      simp only [Shared.step]
      split <;> rfl
    refine ⟨hearing ▸ .refl s.manager, ?_⟩
    simp only [Shared.step]
    split
    · rename_i call sent
      cases slot with
      | zero =>
        simp only [calls, List.getElem?_cons_zero, Option.some.injEq] at sent
        subst sent
        exact .inr ⟨call, answer call.purpose, calls, by rw [calls, List.set_cons_zero]⟩
      | succ slot => simp [calls] at sent
    · exact .inl rfl
  | release slot =>
    cases slot with
    | zero => exact absurd rfl others
    | succ slot =>
      simp only [Shared.step, calls, List.length_singleton]
      exact ⟨.refl s.manager, .inl rfl⟩

theorem Sole.meanwhile_run (sole : s.Sole) (calls : s.calls = [stage])
    {events : List (Event σ op ι)} (others : ∀ e ∈ events, ¬e.Drives 0) :
    Meanwhile s (s.run a events) ∧ s.requests a events = [] := by
  induction events generalizing s stage with
  | nil => exact ⟨⟨.refl s.manager, .inl rfl⟩, rfl⟩
  | cons e events ih =>
    obtain ⟨now, afterwards⟩ := List.forall_mem_cons.1 others
    have first := sole.meanwhile_step (a := a) calls now
    have next : ∃ stage, (s.step a e).calls = [stage] := by
      rcases first.calls with same | ⟨call, answer, -, heard⟩
      · exact ⟨stage, same.trans calls⟩
      · exact ⟨_, heard⟩
    obtain ⟨stage', next⟩ := next
    obtain ⟨rest, silent⟩ := ih (sole.step e) next afterwards
    exact ⟨first.trans rest, by rw [requests, sends_eq_nil calls now, silent, List.nil_append]⟩

theorem Sole.lasts_step (sole : s.Sole) (calls : s.calls = [stage]) {e : Event σ op ι}
    (kept : e ≠ .release 0) : ∃ later, (s.step a e).calls = [later] := by
  by_cases drives : e.Drives 0
  · cases e with
    | proceed slot policy =>
      obtain rfl : slot = 0 := drives
      simp only [Shared.step, calls, List.getElem?_cons_zero, List.set_cons_zero]
      exact ⟨_, rfl⟩
    | release slot =>
      obtain rfl : slot = 0 := drives
      exact absurd rfl kept
    | _ => exact drives.elim
  · rcases (sole.meanwhile_step (a := a) calls drives).calls with same | ⟨call, answer, -, heard⟩
    · exact ⟨stage, same.trans calls⟩
    · exact ⟨_, heard⟩

theorem Sole.lasts (sole : s.Sole) (calls : s.calls = [stage]) {events : List (Event σ op ι)}
    (kept : ∀ e ∈ events, e ≠ .release 0) : ∃ later, (s.run a events).calls = [later] := by
  induction events generalizing s stage with
  | nil => exact ⟨stage, calls⟩
  | cons e events ih =>
    obtain ⟨now, afterwards⟩ := List.forall_mem_cons.1 kept
    obtain ⟨later, next⟩ := sole.lasts_step (a := a) calls now
    exact ih (sole.step e) next afterwards

theorem step_of_sends {call : Call op} {e : Event σ op ι} (sole : s.Sole)
    (sent : call ∈ s.sends a e) :
    s.calls = [.asking call] ∧ s.step a e = ⟨s.manager, [.sent call]⟩ := by
  obtain ⟨slot, policy, rfl, asking, isOpen⟩ := sends_cases sent
  rcases sole.cases with calls | ⟨stage, calls⟩
  · simp [calls] at asking
  · cases slot with
    | zero =>
      simp only [calls, List.getElem?_cons_zero, Option.some.injEq] at asking
      subst asking
      exact ⟨calls, by simp [Shared.step, calls, Manager.proceed, isOpen]⟩
    | succ slot => simp [calls] at asking

/-- However the handles of a manager are used, and whatever its transport answers at which time, one
call at most is in progress on it. Until that is released, other calls end where they begin, and
nothing but the call itself moves the base, the revision and the inflight batch, or asks the server;
so the answer to a push meets the very batch that was sent, on the base it was made from. -/
theorem one_activity_at_a_time (a : Algebra σ op) (initial : σ) (events : List (Event σ op ι)) :
    let s := (new initial).run a events
    s.calls.length ≤ 1 ∧ (s.calls = [] ↔ s.manager.activity = none) ∧
      (∀ stage, s.calls = [stage] →
        (∀ action, ∃ rejected result,
          s.manager.start a action = ({ s.manager with rejected }, .ended result) ∧
            (action = .checkout → ∃ e, result = .error e)) ∧
        (∀ snapshot, ∃ e, s.manager.restore a snapshot = (.error e, s.manager, none)) ∧
        (∀ ops, ∃ state pending rejected,
          (s.manager.add a ops).1 = { s.manager with state, pending, rejected }) ∧
        (∃ state pending rejected,
          (s.manager.reset a).2.1 = { s.manager with state, pending, rejected }) ∧
        (∀ onward, (∀ e ∈ onward, e ≠ .release 0) → ∃ later, (s.run a onward).calls = [later]) ∧
        ∀ others, (∀ e ∈ others, ¬e.Drives 0) →
          Meanwhile s (s.run a others) ∧ s.requests a others = []) ∧
      ∀ e made batch failures, ⟨.push made batch, failures⟩ ∈ s.sends a e →
        s.manager.revision = made ∧ s.manager.inflight = batch ∧
          ∀ others, (∀ e ∈ others, ¬e.Drives 0) →
            let t := (s.step a e).run a others
            t.manager.base = s.manager.base ∧ t.manager.revision = made ∧
              t.manager.inflight = batch := by
  intro s
  have sole : s.Sole := (sole_new initial).run events
  refine ⟨sole.single, sole.nil_iff, ?_, ?_⟩
  · intro stage calls
    have active := (sole.attends calls).active
    exact ⟨Manager.start_busy active, Manager.restore_busy active, Manager.add_with,
      Manager.reset_with, fun onward kept => sole.lasts calls kept,
      fun others drives => sole.meanwhile_run calls drives⟩
  · intro e made batch failures sent
    obtain ⟨calls, asked⟩ := step_of_sends sole sent
    obtain ⟨-, -, revision, inflight⟩ := sole.attends calls
    refine ⟨revision, inflight, fun others drives => ?_⟩
    have between := ((sole.step (a := a) e).meanwhile_run (a := a) (by rw [asked]) drives).1
    rw [asked] at between ⊢
    exact ⟨between.undisturbed.base, between.undisturbed.revision.trans revision,
      between.undisturbed.inflight.trans inflight⟩

theorem one_activity_at_a_time_during_push :
    let policy : Retry.Policy := fun _ => none
    let answer : (purpose : Purpose Edit) → Except TransportFault purpose.Response
      | .checkout | .pull _ => .ok ⟨⟨1⟩, [.insert 0 ['b']]⟩
      | .push _ _ => .ok (.accepted ⟨2⟩)
    let events : List (Event Text.Document Edit String) :=
      [.start .checkout, .proceed 0 policy, .hear 0 answer, .proceed 0 policy, .release 0,
        .add [.insert 0 ['a']], .start .sync]
    let others : List (Event Text.Document Edit String) :=
      [.add [.insert 2 ['c'], .delete 0 ['z']], .reset, .add [.insert 0 ['d']], .start .sync,
        .hear 0 answer, .start .pull, .start .checkout]
    let s := (new [] : Shared Text.Document Edit String).run Text.algebra events
    let t := (s.step Text.algebra (.proceed 0 policy)).run Text.algebra others
    s.sends Text.algebra (.proceed 0 policy) = [⟨.push ⟨1⟩ [.insert 0 ['a']], 0⟩] ∧
      (∀ e ∈ others, ¬e.Drives 0) ∧ t.manager.base = s.manager.base ∧
      t.manager.revision = ⟨1⟩ ∧ t.manager.inflight = [.insert 0 ['a']] := by
  intro policy answer events others
  have sent : ((new [] : Shared Text.Document Edit String).run Text.algebra events).sends
      Text.algebra (.proceed 0 policy) = [⟨.push ⟨1⟩ [.insert 0 ['a']], 0⟩] := by
    decide +kernel
  have drives : ∀ e ∈ others, ¬e.Drives 0 := by simp [others, Event.Drives]
  obtain ⟨-, -, -, pushed⟩ := one_activity_at_a_time Text.algebra ([] : Text.Document) events
  have pushed := pushed (.proceed 0 policy) ⟨1⟩ [.insert 0 ['a']] 0
    (by rw [sent]; exact List.mem_singleton_self _)
  exact ⟨sent, drives, pushed.2.2 others drives⟩

end Shared

end Reconcile
