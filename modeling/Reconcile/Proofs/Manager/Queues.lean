import Reconcile.Proofs.Domain
import Reconcile.Proofs.Manager.Session

/-! What the queues of a manager are worth, whatever has happened to it. -/

namespace Reconcile

theorem Algebra.offer_of_effective {σ op : Type} {a : Algebra σ op} {s t : σ} {ops : List op}
    (path : a.Effective s ops t) : a.offer s ops = ⟨t, ops, []⟩ := by
  induction ops using List.reverseRecOn generalizing t with
  | nil =>
    obtain rfl := path_nil.1 path
    rfl
  | append_singleton ops o ih =>
    obtain ⟨u, before, last⟩ := path_append.1 path
    obtain ⟨applied, changed⟩ := path_singleton.1 last
    simp only [offer_concat, ih before, applied, changed, if_true]

namespace Session

open Manager (Purpose)
open Text (Edit)

variable {σ op ι : Type} {a : Algebra σ op} {s : Session σ op ι}

/-- In every state that a client can reach, whatever its transport answers, the queues lead from the
base to the working state, and each operation in them has an effect where it stands. -/
theorem queues_lead_to_state (domain : Domain a) (reached : s.Reachable a) :
    a.applyAll s.manager.base (s.manager.inflight ++ s.manager.pending) = .ok s.manager.state ∧
      a.offer s.manager.base (s.manager.inflight ++ s.manager.pending) =
        ⟨s.manager.state, s.manager.inflight ++ s.manager.pending, []⟩ := by
  have sound := (reached.steady domain.lawful).sound
  exact ⟨sound.applyAll, Algebra.offer_of_effective sound⟩

theorem queues_lead_to_state_after_checkout :
    let answer : (purpose : Purpose Edit) → Except TransportFault purpose.Response
      | .checkout | .pull _ => .ok ⟨⟨1⟩, [.delete 0 ['a']]⟩
      | .push _ _ => .ok (.accepted ⟨7⟩)
    let asking := (new ['a', 'b'] : Session _ _ String).step Text.algebra (.start .checkout)
    let sent := asking.step Text.algebra (.proceed fun _ => none)
    let edited := sent.step Text.algebra (.add [.insert 1 ['x'], .insert 2 ['y']])
    let s := (edited.hear answer).step Text.algebra (.proceed fun _ => none)
    Text.algebra.applyAll s.manager.base (s.manager.inflight ++ s.manager.pending) =
        .ok s.manager.state ∧
      Text.algebra.offer s.manager.base (s.manager.inflight ++ s.manager.pending) =
        ⟨s.manager.state, s.manager.inflight ++ s.manager.pending, []⟩ := by
  intro answer asking sent edited s
  have reached : edited.Reachable Text.algebra := .step (.step (.step (.new _) _) _) _
  exact queues_lead_to_state .text (.step (.hear reached answer) _)

/-- Where the manager is not closed, undoing the pending operations succeeds, however often they
have been crossed, and leaves the base with the inflight batch on it. -/
theorem reset_discards_pending (domain : Domain a) (reached : s.Reachable a)
    (isOpen : s.manager.closed = false) :
    ∃ state, a.applyAll s.manager.base s.manager.inflight = .ok state ∧
      s.manager.reset a =
        (.ok s.manager.pending.length, { s.manager with state, pending := [], rejected := [] },
          if s.manager.pending = [] then none
          else some ⟨state, s.manager.listeners.receivers⟩) := by
  have sound := (reached.steady domain.lawful).sound
  obtain ⟨mid, inflight, pending⟩ := sound.parts
  refine ⟨mid, inflight.applyAll, ?_⟩
  have undone := domain.lawful.invertAll pending
  by_cases empty : s.manager.pending = []
  · rw [empty] at pending
    have same := Algebra.path_nil.1 pending
    simp only [Manager.reset, isOpen, empty, ← same]
    rfl
  · simp only [Manager.reset, isOpen, empty, undone, List.isEmpty_iff, Bool.false_eq_true, if_false]
    rfl

theorem reset_discards_pending_during_push :
    let policy : Retry.Policy := fun _ => none
    let answer : (purpose : Purpose Room.Change) → Except TransportFault purpose.Response
      | .checkout | .pull _ => .ok ⟨⟨1⟩, [.add "hall" ∅]⟩
      | .push _ _ => .ok (.conflict [.delete "hall"] ⟨2⟩)
    let asked := ((new ∅ : Session Room.Directory Room.Change String).step Room.algebra
      (.start .checkout)).step Room.algebra (.proceed policy)
    let known := (((asked.hear answer).step Room.algebra (.proceed policy)).step Room.algebra
      .release).step Room.algebra (.add [.add "lobby" ∅])
    let pushed := ((known.step Room.algebra (.start .sync)).step Room.algebra
      (.proceed policy)).step Room.algebra (.add [.withdraw "hall" ∅])
    let s := (pushed.hear answer).step Room.algebra (.proceed policy)
    s.manager.pending = [.restore "hall", .withdraw "hall" ∅] ∧ s.manager.closed = false ∧
      ∃ state, Room.algebra.applyAll s.manager.base [.add "lobby" ∅] = .ok state ∧
        (s.manager.reset Room.algebra).1 = .ok 2 ∧
        (s.manager.reset Room.algebra).2.1 =
          { s.manager with state, pending := [], rejected := [] } := by
  intro policy answer asked known pushed s
  have reached : s.Reachable Room.algebra :=
    .step (.hear (.step (.step (.step (.step (.step (.step (.hear (.step (.step (.new ∅) _) _)
      answer) _) _) _) _) _) _) answer) _
  have pending : s.manager.pending = [.restore "hall", .withdraw "hall" ∅] := by decide +kernel
  have inflight : s.manager.inflight = [.add "lobby" ∅] := by decide +kernel
  have isOpen : s.manager.closed = false := by decide +kernel
  obtain ⟨state, applied, undone⟩ := reset_discards_pending .rooms reached isOpen
  rw [inflight] at applied
  rw [undone, pending]
  exact ⟨rfl, isOpen, state, applied, rfl, rfl⟩

end Session

end Reconcile
