import Reconcile.Proofs.Manager.Shut

/-! Fatal errors. A call that ends with one leaves a manager that is shut, so that none of its calls
asks the server again: credentials that were refused and a history that does not apply halt it, and
whatever is turned away for good found it shut before. The exception is a violation that the
transport reports: it is passed on to the caller, and the manager stays as it was. -/

namespace Reconcile

open Manager (Action Call Next Purpose Stage)
open Text (Edit)

namespace Manager

variable {σ op ι : Type} {a : Algebra σ op} {m n : Manager σ op ι} {error : SyncError}
  {committed : List op} {revision : Revision}

theorem shut_of_halted (halted : m.halted = true) : ∃ e, m.Shut e := by
  cases closed : m.closed with
  | true => exact ⟨.closed, .closed (status_eq_closed.2 closed)⟩
  | false => exact ⟨.halted, .halted (status_eq_halted.2 ⟨closed, halted⟩)⟩

theorem Lasting.exists_shut (lasting : Lasting m n) (shut : ∃ e, m.Shut e) : ∃ e, n.Shut e := by
  obtain ⟨e, shut⟩ := shut
  rcases lasting.shut shut with closed | ⟨halted, -⟩
  · exact ⟨.closed, closed⟩
  · exact ⟨e, halted⟩

theorem rebase_fatal (failed : (m.rebase a committed revision).1 = .error error)
    (fatal : error.isFatal = true) : (m.rebase a committed revision).2.halted = true := by
  simp only [rebase] at failed ⊢
  split at failed
  · rfl
  · split at failed
    · cases failed
    · obtain rfl := Except.error.inj failed
      cases fatal

theorem checkedOutWith_fatal {pulled : Pulled op}
    (ended : (m.checkedOutWith a pulled).next = .ended (.error error))
    (fatal : error.isFatal = true) : ∃ e, (m.checkedOutWith a pulled).manager.Shut e := by
  simp only [checkedOutWith] at ended ⊢
  split at ended
  · rename_i e shut
    exact ⟨e, shut_iff.2 shut⟩
  · have failed := map_eq_error.1 (Next.ended.inj ended)
    exact shut_of_halted (rebase_fatal failed fatal)

theorem pulledSince_fatal {since : Revision} {pulled : Pulled op}
    (ended : (m.pulledSince a since pulled).next = .ended (.error error))
    (fatal : error.isFatal = true) : ∃ e, (m.pulledSince a since pulled).manager.Shut e := by
  simp only [pulledSince] at ended ⊢
  split at ended
  · cases ended
  · have failed := map_eq_error.1 (Next.ended.inj ended)
    rename_i news
    rw [if_neg news]
    exact shut_of_halted (rebase_fatal failed fatal)

theorem pushedWith_fatal {outcome : PushOutcome op}
    (ended : (m.pushedWith a outcome).next = .ended (.error error))
    (fatal : error.isFatal = true) : ∃ e, (m.pushedWith a outcome).manager.Shut e := by
  cases outcome with
  | accepted revision =>
    simp only [pushedWith] at ended
    split at ended
    · obtain rfl := Except.error.inj (Next.ended.inj ended)
      cases fatal
    · cases ended
  | conflict operations revision =>
    simp only [pushedWith] at ended ⊢
    split at ended
    · rename_i e failed
      obtain rfl := Except.error.inj (Next.ended.inj ended)
      exact shut_of_halted (rebase_fatal failed fatal)
    · split at ended <;> cases ended

theorem failed_fatal {policy : Retry.Policy} {call : Call op} {fault : TransportFault}
    (ended : (m.failed policy call fault).next = .ended (.error error))
    (fatal : error.isFatal = true) :
    (∃ reason, fault = .protocol reason ∧ error = .protocol reason) ∨
      ∃ e, (m.failed policy call fault).manager.Shut e := by
  cases fault with
  | network reason =>
    simp only [failed] at ended
    split at ended
    · cases ended
    · obtain rfl := Except.error.inj (Next.ended.inj ended)
      cases fatal
  | auth reason => exact .inr (shut_of_halted rfl)
  | protocol reason => exact .inl ⟨reason, rfl, (Except.error.inj (Next.ended.inj ended)).symm⟩

theorem answered_fatal {policy : Retry.Policy} {call : Call op}
    {answer : Except TransportFault call.purpose.Response}
    (ended : (m.answered a policy call answer).next = .ended (.error error))
    (fatal : error.isFatal = true) :
    (∃ reason, answer = .error (.protocol reason) ∧ error = .protocol reason) ∨
      ∃ e, (m.answered a policy call answer).manager.Shut e := by
  cases answer with
  | error fault =>
    rcases failed_fatal ended fatal with ⟨reason, rfl, violation⟩ | shut
    · exact .inl ⟨reason, rfl, violation⟩
    · exact .inr shut
  | ok response =>
    refine .inr ?_
    match call, response, ended with
    | ⟨.checkout, failures⟩, pulled, ended => exact checkedOutWith_fatal ended fatal
    | ⟨.pull since, failures⟩, pulled, ended => exact pulledSince_fatal ended fatal
    | ⟨.push made batch, failures⟩, outcome, ended => exact pushedWith_fatal ended fatal

theorem proceed_fatal {policy : Retry.Policy} {stage : Stage op}
    (ended : (m.proceed a policy stage).2.2 = .settled (.ended (.error error)))
    (fatal : error.isFatal = true) :
    stage = .settled (.ended (.error error)) ∨
      (∃ call reason, stage = .heard call (.error (.protocol reason)) ∧
        error = .protocol reason) ∨
      ∃ e, (m.proceed a policy stage).1.Shut e := by
  cases stage with
  | asking call =>
    simp only [proceed] at ended ⊢
    split at ended
    · rename_i e shut
      exact .inr (.inr ⟨e, shut_iff.2 shut⟩)
    · cases ended
  | sent call => cases ended
  | heard call answer =>
    have ended := Stage.settled.inj ended
    rcases answered_fatal ended fatal with ⟨reason, rfl, violation⟩ | shut
    · exact .inr (.inl ⟨call, reason, rfl, violation⟩)
    · exact .inr (.inr shut)
  | settled next =>
    cases next with
    | ended result => exact .inl ended
    | wait delay call => cases ended
    | pushAgain => cases ended

theorem proceed_ne_heard {policy : Retry.Policy} {stage : Stage op} {call : Call op}
    {answer : Except TransportFault call.purpose.Response} :
    (m.proceed a policy stage).2.2 ≠ .heard call answer := by
  cases stage with
  | asking call =>
    simp only [proceed]
    split <;> simp
  | sent call => simp [proceed]
  | heard call answer => simp [proceed]
  | settled next => cases next <;> simp [proceed]

theorem start_fatal {action : Action} (ended : (m.start a action).2 = .ended (.error error))
    (fatal : error.isFatal = true) : ∃ e, (m.start a action).1.Shut e := by
  have started := starts (a := a) (m := m) action
  generalize m.start a action = result at started ended ⊢
  cases started with
  | shut shut => exact ⟨_, shut_iff.2 shut⟩
  | unknown _ | busy _ | reports _ =>
    obtain rfl := Except.error.inj (Start.ended.inj ended)
    cases fatal
  | _ => cases ended

end Manager

namespace Shared

variable {σ op ι : Type} {a : Algebra σ op} {s : Shared σ op ι} {error : SyncError}

def Event.Reports (reason : String) : Event σ op ι → Prop
  | .hear _ answer => ∃ purpose, answer purpose = .error (.protocol reason)
  | _ => False

/-- What the calls in progress know of: violations that were reported in the run so far, and fatal
errors that are such violations or have shut the manager. -/
structure Accounted (events : List (Event σ op ι)) (s : Shared σ op ι) : Prop where
  heard : ∀ {call reason}, .heard call (.error (.protocol reason)) ∈ s.calls →
    ∃ e ∈ events, e.Reports reason
  ended : ∀ {error}, .settled (.ended (.error error)) ∈ s.calls → error.isFatal = true →
    (∃ reason, error = .protocol reason ∧ ∃ e ∈ events, e.Reports reason) ∨
      ∃ e, s.manager.Shut e

theorem accounted_new (initial : σ) : Accounted [] (new initial : Shared σ op ι) where
  heard present := nomatch present
  ended present := nomatch present

variable [DecidableEq ι]

theorem calls_step {e : Event σ op ι} {stage : Stage op} (present : stage ∈ (s.step a e).calls) :
    stage ∈ s.calls ∨ (∃ call, stage = .asking call) ∨
      (∃ policy before, before ∈ s.calls ∧ (s.step a e).manager =
        (s.manager.proceed a policy before).1 ∧
        stage = (s.manager.proceed a policy before).2.2) ∨
      ∃ slot answer call, e = .hear slot answer ∧ stage = .heard call (answer call.purpose) := by
  cases e with
  | start action =>
    simp only [step] at present
    split at present
    · exact .inl present
    · rcases List.mem_append.1 present with present | present
      · exact .inl present
      · exact .inr (.inl ⟨_, List.mem_singleton.1 present⟩)
  | proceed slot policy =>
    simp only [step] at present ⊢
    cases found : s.calls[slot]? with
    | none =>
      rw [found] at present
      exact .inl present
    | some before =>
      rw [found] at present
      rcases List.mem_or_eq_of_mem_set present with present | moved
      · exact .inl present
      · exact .inr (.inr (.inl ⟨policy, before, List.mem_of_getElem? found, rfl, moved⟩))
  | hear slot answer =>
    simp only [step] at present
    split at present
    · rename_i call sent
      rcases List.mem_or_eq_of_mem_set present with present | heard
      · exact .inl present
      · exact .inr (.inr (.inr ⟨slot, answer, call, rfl, heard⟩))
    · exact .inl present
  | release slot =>
    simp only [step] at present
    split at present
    · exact .inl (List.mem_of_mem_eraseIdx present)
    · exact .inl present
  | _ => exact .inl present

theorem Accounted.step {events : List (Event σ op ι)} (accounted : Accounted events s)
    (e : Event σ op ι) : Accounted (events ++ [e]) (s.step a e) := by
  have lasting := lasting_step (a := a) (s := s) e
  have earlier {reason : String} (reported : ∃ e ∈ events, e.Reports reason) :
      ∃ e' ∈ events ++ [e], e'.Reports reason := by
    obtain ⟨e', before, reports⟩ := reported
    exact ⟨e', List.mem_append_left _ before, reports⟩
  have kept {error : SyncError} (present : .settled (.ended (.error error)) ∈ s.calls)
      (fatal : error.isFatal = true) :
      (∃ reason, error = .protocol reason ∧ ∃ e' ∈ events ++ [e], e'.Reports reason) ∨
        ∃ e', (s.step a e).manager.Shut e' := by
    rcases accounted.ended present fatal with ⟨reason, violation, reported⟩ | shut
    · exact .inl ⟨reason, violation, earlier reported⟩
    · exact .inr (lasting.exists_shut shut)
  refine ⟨?_, ?_⟩
  · intro call reason present
    rcases calls_step present with
        present | ⟨_, asking⟩ | ⟨policy, before, -, -, moved⟩ | ⟨slot, answer, asked, rfl, heard⟩
    · exact earlier (accounted.heard present)
    · cases asking
    · exact absurd moved.symm Manager.proceed_ne_heard
    · injection heard with same answered
      subst same
      exact ⟨_, List.mem_append_right _ (List.mem_singleton_self _), call.purpose,
        (eq_of_heq answered).symm⟩
  · intro error present fatal
    rcases calls_step present with
        present | ⟨_, asking⟩ | ⟨policy, before, present, moved, ended⟩ | ⟨_, _, _, -, heard⟩
    · exact kept present fatal
    · cases asking
    · rcases Manager.proceed_fatal ended.symm fatal with
          rfl | ⟨call, reason, rfl, violation⟩ | shut
      · exact kept present fatal
      · exact .inl ⟨reason, violation, earlier (accounted.heard present)⟩
      · exact .inr (moved ▸ shut)
    · cases heard

theorem accounted_run (initial : σ) (events : List (Event σ op ι)) :
    Accounted events ((new initial).run a events) := by
  induction events using List.reverseRecOn with
  | nil => exact accounted_new initial
  | append_singleton events e ih =>
    rw [run, List.foldl_append]
    exact ih.step e

/-- However a manager is used: once a checkout, a sync or a pull has returned a fatal error, none of
its calls asks the server again, unless the error is a violation that the transport reported. -/
theorem fatal_errors_stop (a : Algebra σ op) (initial : σ) (events : List (Event σ op ι))
    (e : Event σ op ι) (returned : ((new initial).run a events).returns a e = some (.error error))
    (fatal : error.isFatal = true)
    (own : ∀ reason, error = .protocol reason → ∀ e ∈ events, ¬e.Reports reason)
    (onward : List (Event σ op ι)) :
    (((new initial).run a events).step a e).requests a onward = [] := by
  have accounted := accounted_run (a := a) initial events
  generalize (new initial).run a events = s at accounted returned ⊢
  have lasting := lasting_step (a := a) (s := s) e
  have shut : ∃ e', (s.step a e).manager.Shut e' := by
    cases e with
    | start action =>
      simp only [returns] at returned
      split at returned
      · rename_i result ended
        obtain rfl := Option.some.inj returned
        have shut := Manager.start_fatal ended fatal
        simp only [step]
        generalize s.manager.start a action = started at shut ⊢
        obtain ⟨m, begun⟩ := started
        cases begun <;> exact shut
      · cases returned
    | release slot =>
      simp only [returns] at returned
      split at returned
      · rename_i result ended
        obtain rfl := Option.some.inj returned
        rcases accounted.ended (List.mem_of_getElem? ended) fatal with
            ⟨reason, violation, e', before, reports⟩ | shut
        · exact absurd reports (own reason violation e' before)
        · exact lasting.exists_shut shut
      · cases returned
    | _ => cases returned
  obtain ⟨e', shut⟩ := shut
  exact requests_of_shut shut onward

theorem fatal_errors_stop_after_refusal :
    let policy : Retry.Policy := fun _ => some 5
    let answer : (purpose : Purpose Edit) → Except TransportFault purpose.Response
      | .checkout | .pull _ => .ok ⟨⟨1⟩, [.insert 0 ['b']]⟩
      | .push _ _ => .error (.auth "expired")
    let events : List (Event Text.Document Edit String) :=
      [.start .checkout, .proceed 0 policy, .hear 0 answer, .proceed 0 policy, .release 0,
        .add [.insert 0 ['a']], .start .sync, .proceed 0 policy, .hear 0 answer, .proceed 0 policy]
    let onward : List (Event Text.Document Edit String) :=
      [.start .sync, .proceed 0 policy, .start .pull, .proceed 0 policy, .start .checkout,
        .proceed 0 policy]
    let s := (new [] : Shared Text.Document Edit String).run Text.algebra events
    s.returns Text.algebra (.release 0) = some (.error (.auth "expired")) ∧
      (SyncError.auth "expired").isFatal = true ∧
      (s.step Text.algebra (.release 0)).requests Text.algebra onward = [] := by
  intro policy answer events onward s
  have returned : s.returns Text.algebra (.release 0) = some (.error (.auth "expired")) := by
    decide +kernel
  exact ⟨returned, rfl,
    fatal_errors_stop Text.algebra [] events (.release 0) returned rfl (by simp) onward⟩

/-- A violation that the transport reports does not stop anything: the next pull asks again. -/
theorem reported_violation_is_asked_again :
    let policy : Retry.Policy := fun _ => none
    let found : (purpose : Purpose Edit) → Except TransportFault purpose.Response
      | .checkout | .pull _ => .ok ⟨⟨0⟩, []⟩
      | .push _ _ => .ok (.accepted ⟨0⟩)
    let answer : (purpose : Purpose Edit) → Except TransportFault purpose.Response
      | .checkout | .pull _ | .push _ _ => .error (.protocol "bad request")
    let events : List (Event Text.Document Edit String) :=
      [.start .checkout, .proceed 0 policy, .hear 0 found, .proceed 0 policy, .release 0,
        .start .pull, .proceed 0 policy, .hear 0 answer, .proceed 0 policy]
    let s := (new [] : Shared Text.Document Edit String).run Text.algebra events
    s.returns Text.algebra (.release 0) = some (.error (.protocol "bad request")) ∧
      (SyncError.protocol "bad request").isFatal = true ∧
      (s.step Text.algebra (.release 0)).requests Text.algebra [.start .pull, .proceed 0 policy] =
        [.first (.pull ⟨0⟩)] := by
  decide +kernel

end Shared

end Reconcile
