import Mathlib.Logic.Relation
import Reconcile.Proofs.Limits
import Reconcile.Proofs.Manager.Session

/-! Rebasing queues whose operations all have an effect. They can always follow what others have
committed, so nothing that was done locally is lost: what the working state becomes is what the
committed operations make of it once they have crossed the inflight batch and the pending
operations. -/

namespace Reconcile

theorem Algebra.offer_rejected {σ op : Type} {a : Algebra σ op} {s : σ} {ops : List op}
    {cause : OpError} (h : cause ∈ (a.offer s ops).rejected) : ∃ before o after,
      ops = before ++ o :: after ∧ a.apply (a.offer s before).state o = .error cause := by
  induction ops using List.reverseRecOn with
  | nil => cases h
  | append_singleton ops o ih =>
    have earlier (h : cause ∈ (a.offer s ops).rejected) : ∃ before o' after,
        ops ++ [o] = before ++ o' :: after ∧
          a.apply (a.offer s before).state o' = .error cause := by
      obtain ⟨before, o', after, rfl, failed⟩ := ih h
      exact ⟨before, o', after ++ [o], by rw [List.append_assoc, List.cons_append], failed⟩
    rw [offer_concat] at h
    split at h
    · exact earlier h
    · rename_i e failed
      rcases List.mem_append.1 h with h | h
      · exact earlier h
      · obtain rfl := List.mem_singleton.1 h
        exact ⟨ops, o, [], rfl, failed⟩

namespace Manager

open Reconcile.Algebra (path_append)

variable {σ op ι : Type} {a : Algebra σ op} {g : Gauge σ op} {m : Manager σ op ι}
  {committed first second : List op} {base state : σ} {revision : Revision}

/-- There is room for what is queued and for what others have committed. -/
def HasRoom (g : Gauge σ op) (m : Manager σ op ι) (committed : List op) : Prop :=
  g.Holds m.base (m.inflight ++ m.pending ++ committed)

instance (g : Gauge σ op) (m : Manager σ op ι) (committed : List op) :
    Decidable (m.HasRoom g committed) :=
  inferInstanceAs (Decidable (g.Holds _ _))

theorem hasRoom_unlimited (m : Manager σ op ι) (committed : List op) :
    m.HasRoom .unlimited committed :=
  Gauge.holds_unlimited m.base _

/-- Both queues cross the committed operations, and the working state takes what is left of those
beyond the queues. -/
structure Crosses (a : Algebra σ op) (m : Manager σ op ι) (committed : List op)
    (inflight pending : Diamond op) (state : σ) : Prop where
  first : a.transform m.inflight committed = .ok inflight
  second : a.transform m.pending inflight.right = .ok pending
  reached : a.applyAll m.state pending.right = .ok state

theorem Sound.exists_crosses (limited : Limited a g) (sound : m.Sound a)
    (applied : a.applyAll m.base committed = .ok base) (room : m.HasRoom g committed) :
    ∃ inflight pending state, m.Crosses a committed inflight pending state := by
  obtain ⟨mid, hinflight, hpending⟩ := sound.parts
  simp only [HasRoom, Gauge.Holds, total_append] at room
  have roomFirst : g.Holds m.base (m.inflight ++ committed) := by
    simp only [Gauge.Holds, total_append]
    omega
  obtain ⟨inflight, first⟩ := limited.measured.crosses roomFirst hinflight.applyAll applied
  obtain ⟨u, hright, -⟩ := limited.lawful.transform first hinflight applied
  have grown := limited.measured.applyAll_le hinflight.applyAll
  have kept := (limited.measured.transform_le first).2
  have roomSecond : g.Holds mid (m.pending ++ inflight.right) := by
    simp only [Gauge.Holds, total_append]
    omega
  obtain ⟨pending, second⟩ := limited.measured.crosses roomSecond hpending.applyAll hright
  obtain ⟨state, reached, -⟩ := limited.lawful.transform second hpending hright
  exact ⟨inflight, pending, state, first, second, reached⟩

theorem Crosses.effective (lawful : a.Lawful) (sound : m.Sound a) {inflight pending : Diamond op}
    (crosses : m.Crosses a committed inflight pending state)
    (applied : a.applyAll m.base committed = .ok base) :
    a.Effective base (inflight.left ++ pending.left) state := by
  obtain ⟨mid, hinflight, hpending⟩ := sound.parts
  obtain ⟨u, hright, hleft⟩ := lawful.transform crosses.first hinflight applied
  obtain ⟨t, reached, hfar⟩ := lawful.transform crosses.second hpending hright
  obtain rfl : t = state := Except.ok.inj (reached.symm.trans crosses.reached)
  exact path_append.2 ⟨u, hleft, hfar⟩

theorem Crosses.rebase (lawful : a.Lawful) (sound : m.Sound a) {inflight pending : Diamond op}
    (crosses : m.Crosses a committed inflight pending state)
    (applied : a.applyAll m.base committed = .ok base) (revision : Revision) :
    m.rebase a committed revision = (.ok (), { m with
      base, state, inflight := inflight.left, pending := pending.left, revision }) := by
  have queues : m.transformQueues a committed = .ok (inflight.left, pending.left) :=
    bind_eq_ok.2 ⟨_, crosses.first, bind_eq_ok.2 ⟨_, crosses.second, rfl⟩⟩
  have moved := resetTo_eq_ok (m := m).2
    ⟨state, (crosses.effective lawful sound applied).applyAll, rfl⟩
  simp only [Manager.rebase, applied, queues, ok_bind, moved]

theorem Sound.rebase_ne_invalid (limited : Limited a g) (sound : m.Sound a)
    (room : m.HasRoom g committed) (revision : Revision) (cause : OpError) :
    (m.rebase a committed revision).1 ≠ .error (.invalidOperation cause) := by
  cases applied : a.applyAll m.base committed with
  | error e => simp [Manager.rebase, applied]
  | ok base =>
    obtain ⟨inflight, pending, state, crosses⟩ := sound.exists_crosses limited applied room
    rw [crosses.rebase limited.lawful sound applied]
    simp

def Purpose.foreign : (purpose : Purpose op) → purpose.Response → List op
  | .checkout, pulled => pulled.operations
  | .pull _, pulled => pulled.operations
  | .push _ _, .accepted _ => []
  | .push _ _, .conflict operations _ => operations

theorem Sound.checkedOutWith_ne_invalid (limited : Limited a g) (sound : m.Sound a)
    {pulled : Pulled op} (room : m.HasRoom g pulled.operations) (cause : OpError) :
    (m.checkedOutWith a pulled).next ≠ .ended (.error (.invalidOperation cause)) := by
  have valid := sound.rebase_ne_invalid limited room pulled.revision cause
  simp only [checkedOutWith]
  split
  · rename_i e refused
    intro h
    obtain rfl := Except.error.inj (Next.ended.inj h)
    exact ensureOpen_ne_invalid cause refused
  · exact fun h => map_ne_error valid (Next.ended.inj h)

theorem Sound.pulledSince_ne_invalid (limited : Limited a g) (sound : m.Sound a)
    {pulled : Pulled op} (room : m.HasRoom g pulled.operations) (since : Revision)
    (cause : OpError) :
    (m.pulledSince a since pulled).next ≠ .ended (.error (.invalidOperation cause)) := by
  have valid := sound.rebase_ne_invalid limited room pulled.revision cause
  simp only [pulledSince]
  split
  · simp
  · exact fun h => map_ne_error valid (Next.ended.inj h)

theorem Sound.pushedWith_ne_invalid (limited : Limited a g) (sound : m.Sound a)
    {outcome : PushOutcome op} {made : Revision} {batch : List op}
    (room : m.HasRoom g ((Purpose.push made batch).foreign outcome)) (cause : OpError) :
    (m.pushedWith a outcome).next ≠ .ended (.error (.invalidOperation cause)) := by
  cases outcome with
  | accepted revision =>
    obtain ⟨mid, hinflight, -⟩ := sound.parts
    have acknowledged : m.acknowledge a revision =
        .ok { m with base := mid, inflight := [], revision } :=
      acknowledge_eq_ok.2 ⟨mid, hinflight.applyAll, rfl⟩
    simp [pushedWith, acknowledged]
  | conflict operations revision =>
    have valid : (m.rebase a operations revision).1 ≠ .error (.invalidOperation cause) :=
      sound.rebase_ne_invalid limited room revision cause
    simp only [pushedWith]
    split
    · rename_i e failed
      intro h
      obtain rfl := Except.error.inj (Next.ended.inj h)
      exact valid failed
    · split <;> simp

theorem failed_ne_invalid (policy : Retry.Policy) (call : Call op) (fault : TransportFault)
    (cause : OpError) :
    (m.failed policy call fault).next ≠ .ended (.error (.invalidOperation cause)) := by
  cases fault with
  | network reason =>
    simp only [failed]
    split <;> simp
  | auth reason => simp [failed]
  | protocol reason => simp [failed]

theorem Sound.answered_ne_invalid (limited : Limited a g) (sound : m.Sound a)
    (policy : Retry.Policy) (call : Call op) (answer : Except TransportFault call.purpose.Response)
    (room : ∀ response, answer = .ok response → m.HasRoom g (call.purpose.foreign response))
    (cause : OpError) :
    (m.answered a policy call answer).next ≠ .ended (.error (.invalidOperation cause)) := by
  have sound : { m with retrying := false }.Sound a := sound
  cases answer with
  | error fault => exact failed_ne_invalid policy call fault cause
  | ok response =>
    have room := room response rfl
    match call, response with
    | ⟨.checkout, failures⟩, pulled => exact sound.checkedOutWith_ne_invalid limited room cause
    | ⟨.pull since, failures⟩, pulled => exact sound.pulledSince_ne_invalid limited room since cause
    | ⟨.push made batch, failures⟩, outcome => exact sound.pushedWith_ne_invalid limited room cause

theorem Sound.proceed_invalid (limited : Limited a g) (sound : m.Sound a)
    (policy : Retry.Policy) {stage : Stage op} {cause : OpError}
    (room : ∀ call response, stage = .heard call (.ok response) →
      m.HasRoom g (call.purpose.foreign response))
    (ended : (m.proceed a policy stage).2.2 =
      .settled (.ended (.error (.invalidOperation cause)))) :
    stage = .settled (.ended (.error (.invalidOperation cause))) := by
  cases stage with
  | asking call =>
    simp only [proceed] at ended
    split at ended
    · rename_i e shut
      obtain rfl := Except.error.inj (Next.ended.inj (Stage.settled.inj ended))
      exact absurd shut (ensureOpen_ne_invalid cause)
    · cases ended
  | sent call => cases ended
  | heard call answer =>
    have valid := sound.answered_ne_invalid limited policy call answer
      (fun response h => room call response (by rw [h])) cause
    exact absurd (Stage.settled.inj ended) valid
  | settled next =>
    cases next with
    | ended result => exact ended
    | wait delay call => cases ended
    | pushAgain => cases ended

end Manager

namespace Session

open Manager (Purpose)
open Text (Edit)

variable {σ op ι : Type} {a : Algebra σ op} {g : Gauge σ op} {s t : Session σ op ι}

inductive Later (a : Algebra σ op) (s : Session σ op ι) : Session σ op ι → Prop
  | step (e : Event op) : Later a s (s.step a e)
  | hear (answer : (purpose : Purpose op) → Except TransportFault purpose.Response) :
    Later a s (s.hear answer)
  | restore (snapshot : Snapshot σ op) : Later a s (s.restore a snapshot)

theorem Attentive.rejected_step (attentive : s.Attentive) (e : Event op) {cause : OpError}
    (h : cause ∈ (s.step a e).manager.rejected) : cause ∈ s.manager.rejected ∨
      ∃ ops, e = .add ops ∧ cause ∈ (a.offer s.manager.state ops).rejected := by
  cases e with
  | add ops =>
    simp only [Session.step, Manager.add] at h
    split at h
    · exact .inl h
    · rcases List.mem_append.1 h with h | h
      · exact .inl h
      · exact .inr ⟨ops, rfl, h⟩
  | reset => exact .inl (Manager.rejected_reset h)
  | close => exact .inl (Manager.rejected_close ▸ h)
  | start action =>
    have fewer := Manager.rejected_start (a := a) (m := s.manager) action
    simp only [Session.step] at h
    generalize s.manager.start a action = started at fewer h
    obtain ⟨m, result⟩ := started
    cases result <;> exact .inl (fewer h)
  | proceed policy =>
    simp only [Session.step] at h
    split at h
    · rename_i stage outstanding
      have moved := Manager.proceeds (a := a) policy (attentive.attends stage outstanding)
      generalize s.manager.proceed a policy stage = result at moved h
      obtain ⟨m, notice, next⟩ := result
      cases moved with
      | stays attends unheard => exact .inl h
      | settles heard settled => cases settled <;> exact .inl h
    · exact .inl h
  | release => exact .inl h

theorem Reachable.attentive (reached : s.Reachable a) : s.Attentive := by
  induction reached with
  | new initial => exact attentive_new initial
  | step reached e ih => exact ih.step e
  | hear reached answer ih => exact ih.hear answer
  | restore reached source taken ihReached ihSource => exact ihReached.restore _

theorem Reachable.rejected (reached : s.Reachable a) {cause : OpError}
    (h : cause ∈ s.manager.rejected) : ∃ (t : Session σ op ι) (ops : List op), t.Reachable a ∧
      Relation.ReflTransGen (Later a) (t.step a (.add ops)) s ∧
      cause ∈ (a.offer t.manager.state ops).rejected := by
  induction reached with
  | new initial => cases h
  | @step s reached e ih =>
    rcases reached.attentive.rejected_step e h with earlier | ⟨ops, rfl, offered⟩
    · obtain ⟨t, ops, before, later, rejected⟩ := ih earlier
      exact ⟨t, ops, before, later.tail (.step e), rejected⟩
    · exact ⟨s, ops, reached, .refl, offered⟩
  | hear reached answer ih =>
    rw [hear_manager] at h
    obtain ⟨t, ops, before, later, rejected⟩ := ih h
    exact ⟨t, ops, before, later.tail (.hear answer), rejected⟩
  | @restore s other snapshot reached source taken ihReached ihSource =>
    rcases s.manager.restore_cases (a := a) snapshot with same | ⟨state, -, -, same⟩
    · rw [Session.restore, same] at h
      obtain ⟨t, ops, before, later, rejected⟩ := ihReached h
      exact ⟨t, ops, before, later.tail (.restore snapshot), rejected⟩
    · rw [Session.restore, same] at h
      cases h

/-- In every state that a client can reach, whatever its transport answers, the queues follow any
committed operations that apply to the base, and the working state goes on from where it was with
what is left of those. So no answer to a call discards what was done locally: only a sync fails for
an operation, and that is one which was rejected when it was added. -/
theorem rebase_keeps_work (limited : Limited a g) (reached : s.Reachable a) :
    (∀ committed base revision, a.applyAll s.manager.base committed = .ok base →
      s.manager.HasRoom g committed → ∃ inflight pending state,
        a.transform s.manager.inflight committed = .ok inflight ∧
        a.transform s.manager.pending inflight.right = .ok pending ∧
        a.applyAll s.manager.state pending.right = .ok state ∧
        s.manager.rebase a committed revision = (.ok (), { s.manager with
          base, state, inflight := inflight.left, pending := pending.left, revision })) ∧
      (∀ policy stage cause, (∀ call response, stage = .heard call (.ok response) →
          s.manager.HasRoom g (call.purpose.foreign response)) →
        (s.manager.proceed a policy stage).2.2 =
            .settled (.ended (.error (.invalidOperation cause))) →
          stage = .settled (.ended (.error (.invalidOperation cause)))) ∧
      ∀ action cause, (s.manager.start a action).2 = .ended (.error (.invalidOperation cause)) →
        action = .sync ∧ ∃ (t : Session σ op ι) (before : List op) (o : op) (after : List op),
          t.Reachable a ∧
          Relation.ReflTransGen (Later a) (t.step a (.add (before ++ o :: after))) s ∧
          a.apply (a.offer t.manager.state before).state o = .error cause := by
  have sound := (reached.steady limited.lawful).sound
  refine ⟨?_, ?_, ?_⟩
  · intro committed base revision applied room
    obtain ⟨inflight, pending, state, crosses⟩ := sound.exists_crosses limited applied room
    exact ⟨inflight, pending, state, crosses.first, crosses.second, crosses.reached,
      crosses.rebase limited.lawful sound applied revision⟩
  · intro policy stage cause room ended
    exact sound.proceed_invalid limited policy room ended
  · intro action cause ended
    obtain ⟨sync, rejected⟩ := Manager.start_invalid ended
    obtain ⟨t, ops, before, later, offered⟩ := reached.rejected rejected
    obtain ⟨first, o, rest, rfl, failed⟩ := Algebra.offer_rejected offered
    exact ⟨sync, t, first, o, rest, before, later, failed⟩

def outstandingPush : Session Text.Document Edit String :=
  let answer : (purpose : Purpose Edit) → Except TransportFault purpose.Response
    | .checkout | .pull _ => .ok ⟨⟨1⟩, [.insert 4 ['e']]⟩
    | .push _ _ => .error (.network "down")
  let proceed : Event Edit := .proceed fun _ => none
  let asking := (new ['a', 'b', 'c', 'd'] : Session _ _ String).step Text.algebra (.start .checkout)
  let heard := (asking.step Text.algebra proceed).hear answer
  let known := (heard.step Text.algebra proceed).step Text.algebra .release
  let typed := known.step Text.algebra (.add [.delete 1 ['b', 'c'], .insert 1 ['x', 'y']])
  let pushing := (typed.step Text.algebra (.start .sync)).step Text.algebra proceed
  pushing.step Text.algebra (.add [.insert 9 ['w'], .replace 2 ['y', 'd'] ['z']])

theorem reachable_outstandingPush : outstandingPush.Reachable Text.algebra := by
  unfold outstandingPush
  exact .step (.step (.step (.step (.step (.step
    (.hear (.step (.step (.new _) _) _) _) _) _) _) _) _) _

theorem rebase_keeps_work_on_overlap :
    let m := outstandingPush.manager
    let committed : List Edit := [.delete 2 ['c', 'd'], .insert 2 ['!']]
    m.inflight = [.replace 1 ['b', 'c'] ['x', 'y']] ∧ m.pending = [.replace 2 ['y', 'd'] ['z']] ∧
      ∃ inflight pending state, Text.algebra.transform m.inflight committed = .ok inflight ∧
        Text.algebra.transform m.pending inflight.right = .ok pending ∧
        Text.algebra.applyAll m.state pending.right = .ok state ∧
        m.rebase Text.algebra committed ⟨3⟩ = (.ok (), { m with
          base := ['a', 'b', '!', 'e'], state, inflight := inflight.left, pending := pending.left
          revision := ⟨3⟩ }) := by
  intro m committed
  have applied : Text.algebra.applyAll m.base committed = .ok ['a', 'b', '!', 'e'] := by
    decide +kernel
  have room : m.HasRoom Text.gauge committed := by decide +kernel
  refine ⟨by decide +kernel, by decide +kernel, ?_⟩
  exact (rebase_keeps_work .text reachable_outstandingPush).1 committed _ ⟨3⟩ applied room

end Session

end Reconcile
