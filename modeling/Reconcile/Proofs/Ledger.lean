import Reconcile.Proofs.Network

/-! A ledger of operations: what clients add and discard along a run, and what is queued and not
in the log. A batch that the history has taken is in the log and, until its client deals with the
answer, in its queue as well; in between it is counted as part of the log only. -/

namespace Reconcile

open Manager (Call Purpose Stage)

namespace Manager

variable {σ op ι : Type} {a : Algebra σ op} {m : Manager σ op ι}

def Stage.isPushing : Stage op → Bool
  | .sent ⟨.push _ _, _⟩ | .heard ⟨.push _ _, _⟩ _ => true
  | _ => false

/-- The history has taken the batch of a push, and the answer has not been dealt with. -/
def Stage.isTaken : Stage op → Bool
  | .heard ⟨.push _ _, _⟩ (.ok (.accepted _)) => true
  | _ => false

theorem Stage.isPushing_of_isTaken {stage : Stage op} (taken : stage.isTaken = true) :
    stage.isPushing = true := by
  unfold isTaken at taken
  split at taken
  · rfl
  · cases taken

def heeds (m : Manager σ op ι) : Purpose op → Bool
  | .checkout => !(m.closed || m.halted)
  | _ => true

theorem reset_queues : (m.reset a).2.1.inflight = m.inflight ∧
    (m.reset a).2.1.pending = match (m.reset a).1 with
      | .ok _ => []
      | .error _ => m.pending := by
  unfold Manager.reset
  split
  · exact ⟨rfl, rfl⟩
  · dsimp only
    split
    · rename_i empty
      exact ⟨rfl, List.isEmpty_iff.1 empty⟩
    · split <;> exact ⟨rfl, rfl⟩

theorem queues_answered_error (policy : Retry.Policy) (call : Call op) (fault : TransportFault) :
    (m.answered a policy call (.error fault)).manager.inflight = m.inflight ∧
      (m.answered a policy call (.error fault)).manager.pending = m.pending := by
  have settled : Settles a m call (.error fault) (m.answered a policy call (.error fault)) :=
    settles_failed policy fault
  generalize m.answered a policy call (.error fault) = after at settled ⊢
  cases settled with
  | still goesOn => exact ⟨rfl, rfl⟩
  | moved heard applied requeued goesOn => cases heard

end Manager

namespace History

variable {op : Type}

theorem taken_cases (h : History op) (call : Call op) :
    (Stage.heard call (h.answer call.purpose).1).isTaken = false ∧
        (h.answer call.purpose).2.operations = h.operations ∨
      (Stage.heard call (h.answer call.purpose).1).isTaken = true ∧
        ∃ batch, call.purpose = .push h.revision batch ∧
          (h.answer call.purpose).2.operations = h.operations ++ batch := by
  match call with
  | ⟨.checkout, failures⟩ => exact .inl ⟨rfl, rfl⟩
  | ⟨.pull since, failures⟩ => exact .inl ⟨rfl, rfl⟩
  | ⟨.push made batch, failures⟩ =>
    by_cases latest : made = h.revision
    · subst latest
      have pushed := h.push_revision batch
      exact .inr ⟨by simp [answer, pushed, Stage.isTaken], batch, rfl, by simp [answer, pushed]⟩
    · left
      have stale : h.push made batch = ((h.since made).map (.conflict · h.revision), h) :=
        if_neg latest
      refine ⟨?_, by simp [answer, stale]⟩
      cases missed : h.since made <;> simp [answer, stale, missed, Except.map, Stage.isTaken]

end History

namespace Session

variable {σ op ι : Type} {s : Session σ op ι}

def IsPushing (s : Session σ op ι) : Prop := s.stage.any Stage.isPushing = true

instance (s : Session σ op ι) : Decidable s.IsPushing := inferInstanceAs (Decidable (_ = true))

def uncommitted (s : Session σ op ι) : List op :=
  if s.stage.any Stage.isTaken then s.manager.pending else s.manager.inflight ++ s.manager.pending

theorem uncommitted_of_not_taken (h : s.stage.any Stage.isTaken = false) :
    s.uncommitted = s.manager.inflight ++ s.manager.pending :=
  if_neg (by simp [h])

theorem uncommitted_of_not_pushing (h : ¬s.IsPushing) :
    s.uncommitted = s.manager.inflight ++ s.manager.pending := by
  apply uncommitted_of_not_taken
  cases outstanding : s.stage with
  | none => rfl
  | some stage =>
    simp only [IsPushing, outstanding, Option.any_some, Bool.not_eq_true] at h ⊢
    cases taken : stage.isTaken with
    | false => rfl
    | true =>
      rw [Stage.isPushing_of_isTaken taken] at h
      exact h

/-- What an event adds to a manager that is open. -/
def added (s : Session σ op ι) : Event op → List op
  | .add ops => if s.manager.closed then [] else ops
  | _ => []

/-- What a reset that succeeds discards. -/
def discarded (a : Algebra σ op) (s : Session σ op ι) : Event op → List op
  | .reset => match (s.manager.reset a).1 with
    | .ok _ => s.manager.pending
    | .error _ => []
  | _ => []

def news (s : Session σ op ι) : Option (List op) :=
  match s.stage with
  | some (.heard call (.ok response)) =>
    if s.manager.heeds call.purpose then some (call.purpose.news response).operations else none
  | _ => none

theorem uncommitted_hear
    {answer : (purpose : Purpose op) → Except TransportFault purpose.Response}
    (refused : ∀ call, s.stage = some (.sent call) →
      (Stage.heard call (answer call.purpose)).isTaken = false) :
    (s.hear answer).uncommitted = s.uncommitted := by
  simp only [hear]
  split
  · rename_i call sent
    rw [uncommitted_of_not_taken (s := s) (by rw [sent]; rfl)]
    exact uncommitted_of_not_taken (refused call sent)
  · rfl

theorem uncommitted_fail (fault : TransportFault) :
    (s.hear fun _ => .error fault).uncommitted = s.uncommitted :=
  uncommitted_hear fun call _ => by simp [Stage.isTaken]

theorem Attentive.taken (attentive : s.Attentive) (h : History op) :
    ∃ batch, (Network.serve h s).operations = h.operations ++ batch ∧
      s.uncommitted = batch ++ (s.hear fun purpose => (h.answer purpose).1).uncommitted := by
  by_cases sent : ∃ call, s.stage = some (.sent call)
  · obtain ⟨call, sent⟩ := sent
    have served : Network.serve h s = (h.answer call.purpose).2 := by rw [Network.serve, sent]
    rcases h.taken_cases call with ⟨refused, same⟩ | ⟨taken, batch, purpose, grown⟩
    · refine ⟨[], by rw [served, same, List.append_nil], ?_⟩
      rw [List.nil_append, uncommitted_hear]
      intro other sentOther
      obtain rfl := Stage.sent.inj (Option.some.inj (sent.symm.trans sentOther))
      exact refused
    · have current := (attentive.attends _ sent).2
      rw [purpose] at current
      obtain ⟨-, -, rfl⟩ := current
      refine ⟨s.manager.inflight, served ▸ grown, ?_⟩
      have heard : (s.hear fun purpose => (h.answer purpose).1).uncommitted = s.manager.pending := by
        simp [uncommitted, Session.hear, sent, taken]
      rw [heard, uncommitted_of_not_taken (by rw [sent]; rfl)]
  · have idle (call : Call op) : s.stage ≠ some (.sent call) := fun h => sent ⟨call, h⟩
    refine ⟨[], ?_, ?_⟩
    · rw [List.append_nil, Network.serve]
      split
      · rename_i call outstanding
        exact absurd outstanding (idle call)
      · rfl
    · rw [List.nil_append, uncommitted_hear fun call outstanding => absurd outstanding (idle call)]

end Session

namespace Network

variable {κ σ op ι : Type} {a : Algebra σ op}

def added (net : Network κ σ op ι) : Event κ op → List op
  | .act client event => (net.sessions client).added event
  | _ => []

def discarded (a : Algebra σ op) (net : Network κ σ op ι) : Event κ op → List op
  | .act client event => (net.sessions client).discarded a event
  | _ => []

/-- No call is given up between its push and the answer, and no snapshot is restored. -/
def Orderly (net : Network κ σ op ι) : Event κ op → Prop
  | .act client .release => ¬(net.sessions client).IsPushing
  | .restore _ _ => False
  | _ => True

instance (net : Network κ σ op ι) : (e : Event κ op) → Decidable (net.Orderly e)
  | .act _ .release => inferInstanceAs (Decidable (¬_))
  | .restore _ _ => isFalse id
  | .act _ (.add _) | .act _ .reset | .act _ .close | .act _ (.start _) | .act _ (.proceed _)
  | .deliver _ | .fail _ _ | .keep _ => isTrue trivial

variable [DecidableEq κ]

def Along (a : Algebra σ op) (P : Network κ σ op ι → Event κ op → Prop) :
    Network κ σ op ι → List (Event κ op) → Prop
  | _, [] => True
  | net, e :: events => P net e ∧ Along a P (net.step a e) events

def decideAlong (a : Algebra σ op) (P : Network κ σ op ι → Event κ op → Prop)
    [∀ net e, Decidable (P net e)] : (net : Network κ σ op ι) → (events : List (Event κ op)) →
      Decidable (net.Along a P events)
  | _, [] => isTrue trivial
  | net, e :: events =>
    have := decideAlong a P (net.step a e) events
    inferInstanceAs (Decidable (_ ∧ _))

instance (P : Network κ σ op ι → Event κ op → Prop) [∀ net e, Decidable (P net e)]
    (net : Network κ σ op ι) (events : List (Event κ op)) : Decidable (net.Along a P events) :=
  decideAlong a P net events

def collect (a : Algebra σ op) (f : Network κ σ op ι → Event κ op → List op) :
    Network κ σ op ι → List (Event κ op) → List op
  | _, [] => []
  | net, e :: events => f net e ++ collect a f (net.step a e) events

end Network

end Reconcile
