import Reconcile.Proofs.Lawful
import Reconcile.Proofs.Manager.Shared

/-! What a manager tells its listeners. They are told of every change of the working state, and of
the state after it; so a listener that is told nothing has not missed anything. -/

namespace Reconcile

def Algebra.Candid {σ op : Type} (a : Algebra σ op) : Prop :=
  ∀ {s t o}, a.apply s o = .ok t → a.changes s o = false → t = s

theorem Algebra.Lawful.candid {σ op : Type} {a : Algebra σ op} (lawful : a.Lawful) : a.Candid :=
  lawful.steady

theorem Algebra.Candid.offer {σ op : Type} {a : Algebra σ op} (candid : a.Candid) {s : σ}
    {ops : List op} (nothing : (a.offer s ops).kept = []) : (a.offer s ops).state = s := by
  induction ops using List.reverseRecOn with
  | nil => rfl
  | append_singleton ops o ih =>
    rw [offer_concat] at nothing ⊢
    split
    · rename_i t applied
      rw [applied] at nothing
      cases changed : a.changes (a.offer s ops).state o with
      | true => simp [changed] at nothing
      | false =>
        simp only [changed, Bool.false_eq_true, if_false] at nothing
        exact (candid applied changed).trans (ih nothing)
    · rename_i e failed
      rw [failed] at nothing
      exact ih nothing

namespace Manager

variable {σ op ι : Type} {a : Algebra σ op} {m n : Manager σ op ι} {notice : Option (Notice σ ι)}

structure Tells (m n : Manager σ op ι) (notice : Option (Notice σ ι)) : Prop where
  listeners : n.listeners = m.listeners
  notice : notice = some n.notice ∨ notice = none ∧ n.state = m.state

theorem Tells.nothing (listeners : n.listeners = m.listeners) (state : n.state = m.state) :
    Tells m n none :=
  ⟨listeners, .inr ⟨rfl, state⟩⟩

theorem tells_add (candid : a.Candid) (ops : List op) :
    Tells m (m.add a ops).1 (m.add a ops).2 := by
  simp only [add]
  split
  · exact .nothing rfl rfl
  · refine ⟨rfl, ?_⟩
    dsimp only
    split
    · rename_i nothing
      exact .inr ⟨rfl, candid.offer (List.isEmpty_iff.1 nothing)⟩
    · exact .inl rfl

theorem tells_reset : Tells m (m.reset a).2.1 (m.reset a).2.2 := by
  unfold reset
  split
  · exact .nothing rfl rfl
  · dsimp only
    split
    · exact .nothing rfl rfl
    · split
      · exact .nothing rfl rfl
      · exact ⟨rfl, .inl rfl⟩

theorem tells_restore (snapshot : Snapshot σ op) :
    Tells m (m.restore a snapshot).2.1 (m.restore a snapshot).2.2 := by
  simp only [restore]
  split
  · exact .nothing rfl rfl
  · split
    · exact .nothing rfl rfl
    · split
      · exact .nothing rfl rfl
      · rename_i restored moved
        obtain ⟨state, -, rfl⟩ := resetTo_eq_ok.1 moved
        exact ⟨rfl, .inl rfl⟩

theorem listeners_rebase (committed : List op) (revision : Revision) :
    (m.rebase a committed revision).2.listeners = m.listeners := by
  have rebased := rebases (a := a) (m := m) committed revision
  generalize m.rebase a committed revision = result at rebased ⊢
  cases rebased <;> rfl

theorem tells_failed (policy : Retry.Policy) (call : Call op) (fault : TransportFault) :
    Tells m (m.failed policy call fault).manager (m.failed policy call fault).notice := by
  cases fault with
  | network reason =>
    simp only [failed]
    split <;> exact .nothing rfl rfl
  | auth reason => exact .nothing rfl rfl
  | protocol reason => exact .nothing rfl rfl

theorem tells_checkedOutWith (pulled : Pulled op) :
    Tells m (m.checkedOutWith a pulled).manager (m.checkedOutWith a pulled).notice := by
  simp only [checkedOutWith]
  split
  · exact .nothing rfl rfl
  · exact ⟨listeners_rebase pulled.operations pulled.revision, .inl rfl⟩

theorem tells_pulledSince (since : Revision) (pulled : Pulled op) :
    Tells m (m.pulledSince a since pulled).manager (m.pulledSince a since pulled).notice := by
  simp only [pulledSince]
  split
  · exact .nothing rfl rfl
  · exact ⟨listeners_rebase pulled.operations pulled.revision, .inl rfl⟩

theorem tells_pushedWith (outcome : PushOutcome op) :
    Tells m (m.pushedWith a outcome).manager (m.pushedWith a outcome).notice := by
  cases outcome with
  | accepted revision =>
    simp only [pushedWith]
    split
    · exact .nothing rfl rfl
    · rename_i acknowledged
      obtain ⟨base, -, rfl⟩ := acknowledge_eq_ok.1 acknowledged
      exact ⟨rfl, .inl rfl⟩
  | conflict operations revision => exact ⟨listeners_rebase operations revision, .inl rfl⟩

theorem tells_answered (policy : Retry.Policy) (call : Call op)
    (answer : Except TransportFault call.purpose.Response) :
    Tells m (m.answered a policy call answer).manager (m.answered a policy call answer).notice := by
  have awake {n : Manager σ op ι} {notice : Option (Notice σ ι)}
      (tells : Tells { m with retrying := false } n notice) : Tells m n notice :=
    ⟨tells.listeners, tells.notice⟩
  cases answer with
  | error fault => exact tells_failed policy call fault
  | ok response =>
    match call, response with
    | ⟨.checkout, failures⟩, pulled => exact awake (tells_checkedOutWith pulled)
    | ⟨.pull since, failures⟩, pulled => exact awake (tells_pulledSince since pulled)
    | ⟨.push made batch, failures⟩, outcome => exact awake (tells_pushedWith outcome)

theorem tells_proceed (policy : Retry.Policy) (stage : Stage op) :
    Tells m (m.proceed a policy stage).1 (m.proceed a policy stage).2.1 := by
  cases stage with
  | asking call =>
    simp only [proceed]
    split <;> exact .nothing rfl rfl
  | sent call => exact .nothing rfl rfl
  | heard call answer => exact tells_answered policy call answer
  | settled next => cases next <;> exact .nothing rfl rfl

theorem tells_start (action : Action) : Tells m (m.start a action).1 none := by
  have begun := begins (a := a) (m := m) action
  generalize m.start a action = started at begun ⊢
  cases begun <;> exact .nothing rfl rfl

end Manager

namespace Shared

open Manager (Tells)

variable {σ op ι : Type} [DecidableEq ι] {a : Algebra σ op} {s : Shared σ op ι}

def notice (a : Algebra σ op) (s : Shared σ op ι) : Event σ op ι → Option (Notice σ ι)
  | .add ops => (s.manager.add a ops).2
  | .reset => (s.manager.reset a).2.2
  | .restore snapshot => (s.manager.restore a snapshot).2.2
  | .proceed slot policy =>
    match s.calls[slot]? with
    | some stage => (s.manager.proceed a policy stage).2.1
    | none => none
  | _ => none

theorem tells_step (candid : a.Candid) (e : Event σ op ι) :
    Tells s.manager (s.step a e).manager (s.notice a e) ∨
      s.notice a e = none ∧ (s.step a e).manager.state = s.manager.state ∧
        (s.manager.listeners.receivers.Nodup →
          (s.step a e).manager.listeners.receivers.Nodup) := by
  cases e with
  | add ops => exact .inl (Manager.tells_add candid ops)
  | reset => exact .inl Manager.tells_reset
  | restore snapshot => exact .inl (Manager.tells_restore snapshot)
  | close =>
    refine .inr ⟨rfl, ?_⟩
    simp only [step, Manager.close]
    split
    · exact ⟨rfl, id⟩
    · exact ⟨rfl, fun _ => List.nodup_nil⟩
  | listen listener =>
    exact .inr ⟨rfl, rfl, fun nodup => Listener.Registry.nodup_add nodup listener⟩
  | unlisten id => exact .inr ⟨rfl, rfl, fun nodup => Listener.Registry.nodup_remove nodup id⟩
  | start action =>
    have tells := Manager.tells_start (a := a) (m := s.manager) action
    simp only [step, notice]
    generalize s.manager.start a action = started at tells ⊢
    obtain ⟨m, result⟩ := started
    cases result <;> exact .inl tells
  | proceed slot policy =>
    simp only [step, notice]
    cases s.calls[slot]? with
    | none => exact .inl (.nothing rfl rfl)
    | some stage => exact .inl (Manager.tells_proceed policy stage)
  | hear slot answer =>
    simp only [step, notice]
    split <;> exact .inl (.nothing rfl rfl)
  | release slot =>
    simp only [step, notice]
    split <;> exact .inl (.nothing rfl rfl)

end Shared

end Reconcile
