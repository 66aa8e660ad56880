import Reconcile.Proofs.Manager.Sound

/-! What an answer to a call does to a manager that still is where the call found it: nothing but
flags change, or the manager moves to the revision that the answer names, by the operations that
were committed in between. -/

namespace Reconcile.Manager

variable {σ op ι : Type} {a : Algebra σ op} {m n : Manager σ op ι}

def Purpose.news : (purpose : Purpose op) → purpose.Response → Pulled op
  | .checkout, pulled => pulled
  | .pull _, pulled => pulled
  | .push _ batch, .accepted revision => ⟨revision, batch⟩
  | .push _ _, .conflict operations revision => ⟨revision, operations⟩

def Current (m : Manager σ op ι) : Purpose op → Prop
  | .checkout => m.checkedOut = false ∧ m.revision = .genesis
  | .pull since => m.checkedOut = true ∧ m.revision = since
  | .push made batch => m.checkedOut = true ∧ m.revision = made ∧ m.inflight = batch

/-- What an answer makes of the queues on the new base, and the state they lead to: a batch that was
accepted is left out, and the others follow what was committed, or they are discarded. -/
inductive Requeues (a : Algebra σ op) (m : Manager σ op ι) (base : σ) :
    (purpose : Purpose op) → purpose.Response → List op → List op → σ → Prop
  | accepted {made revision : Revision} :
    Requeues a m base (.push made m.inflight) (.accepted revision) [] m.pending m.state
  | rebased {purpose : Purpose op} {response : purpose.Response} {inflight pending : List op}
      {state : σ}
      (crossed : m.transformQueues a (purpose.news response).operations = .ok (inflight, pending))
      (reached : a.applyAll base (inflight ++ pending) = .ok state) :
    Requeues a m base purpose response inflight pending state
  | discarded {purpose : Purpose op} {response : purpose.Response} :
    Requeues a m base purpose response [] [] base

theorem Requeues.path (lawful : a.Lawful) (sound : m.Sound a) {base state : σ}
    {purpose : Purpose op} {response : purpose.Response} {inflight pending : List op}
    (h : Requeues a m base purpose response inflight pending state)
    (applied : a.applyAll m.base (purpose.news response).operations = .ok base) :
    a.Effective base (inflight ++ pending) state := by
  cases h with
  | accepted =>
    obtain ⟨mid, hinflight, hpending⟩ := sound.parts
    obtain rfl : mid = base := hinflight.eq_of_applyAll applied
    exact hpending
  | rebased crossed reached =>
    obtain ⟨state', path⟩ := sound.transformQueues lawful applied crossed
    obtain rfl : state' = state := path.eq_of_applyAll reached
    exact path
  | discarded => exact .nil base

/-- What an answer does to a manager that the call still finds where it was. -/
inductive Settles (a : Algebra σ op) (m : Manager σ op ι) (call : Call op)
    (answer : Except TransportFault call.purpose.Response) : Settled σ op ι → Prop
  | still {retrying halted : Bool} {notice : Option (Notice σ ι)} {next : Next op}
      (goesOn : (∃ result, next = .ended result) ∨
        ∃ delay failures, next = .wait delay { call with failures }) :
      Settles a m call answer ⟨{ m with retrying, halted }, notice, next⟩
  | moved {response : call.purpose.Response} {base state : σ} {inflight pending : List op}
      {retrying : Bool} {notice : Option (Notice σ ι)} {next : Next op}
      (heard : answer = .ok response)
      (applied : a.applyAll m.base (call.purpose.news response).operations = .ok base)
      (requeued : m.Requeues a base call.purpose response inflight pending state)
      (goesOn : (∃ result, next = .ended result) ∨ next = .pushAgain) :
      Settles a m call answer ⟨{ m with
        base, state, inflight, pending, retrying
        revision := (call.purpose.news response).revision
        checkedOut := true }, notice, next⟩

theorem Rebases.requeues (purpose : Purpose op) (response : purpose.Response) {revision : Revision}
    {rebased : Except SyncError Unit × Manager σ op ι}
    (h : Rebases a m (purpose.news response).operations revision rebased) :
    (∃ e, rebased = (.error e, { m with halted := true })) ∨
      ∃ result base state inflight pending,
        a.applyAll m.base (purpose.news response).operations = .ok base ∧
        m.Requeues a base purpose response inflight pending state ∧
        rebased = (result, { m with base, state, inflight, pending, revision }) := by
  cases h with
  | halted fails => exact .inl ⟨_, rfl⟩
  | moved applied crossed reached =>
    exact .inr ⟨_, _, _, _, _, applied, .rebased crossed reached, rfl⟩
  | discarded applied stuck => exact .inr ⟨_, _, _, _, _, applied, .discarded, rfl⟩

theorem settles_failed (policy : Retry.Policy) {call : Call op} (fault : TransportFault) :
    Settles a m call (.error fault) (m.failed policy call fault) := by
  cases fault with
  | network reason =>
    simp only [failed]
    split
    · exact .still (.inr ⟨_, _, rfl⟩)
    · exact .still (.inl ⟨_, rfl⟩)
  | auth reason => exact .still (.inl ⟨_, rfl⟩)
  | protocol reason => exact .still (.inl ⟨_, rfl⟩)

variable {failures : UInt32}

theorem settles_checkout (unknown : m.checkedOut = false) (pulled : Pulled op) :
    Settles a m ⟨.checkout, failures⟩ (.ok pulled) (m.checkedOutWith a pulled) := by
  simp only [checkedOutWith]
  split
  · exact .still (.inl ⟨_, rfl⟩)
  · rename_i isOpen
    have running : (!m.halted) = true := by rw [(ensureOpen_eq_ok.1 isOpen).2, Bool.not_false]
    have rebased := rebases (a := a) (m := m) pulled.operations pulled.revision
    rcases rebased.requeues .checkout pulled with
        ⟨e, h⟩ | ⟨result, base, state, inflight, pending, applied, requeued, h⟩
    · rw [h]
      have halted : (!true) = m.checkedOut := unknown.symm
      dsimp only
      rw [halted]
      exact .still (.inl ⟨_, rfl⟩)
    · rw [h]
      dsimp only
      rw [running]
      exact .moved rfl applied requeued (.inl ⟨_, rfl⟩)

theorem settles_pull {since : Revision} (known : m.checkedOut = true) (pulled : Pulled op) :
    Settles a m ⟨.pull since, failures⟩ (.ok pulled) (m.pulledSince a since pulled) := by
  simp only [pulledSince]
  split
  · exact .still (.inl ⟨_, rfl⟩)
  · have rebased := rebases (a := a) (m := m) pulled.operations pulled.revision
    rcases rebased.requeues (.pull since) pulled with
        ⟨e, h⟩ | ⟨result, base, state, inflight, pending, applied, requeued, h⟩
    · rw [h]
      exact .still (.inl ⟨_, rfl⟩)
    · rw [h]
      dsimp only
      rw [known]
      exact .moved rfl applied requeued (.inl ⟨_, rfl⟩)

theorem settles_push {made : Revision} (known : m.checkedOut = true) (outcome : PushOutcome op) :
    Settles a m ⟨.push made m.inflight, failures⟩ (.ok outcome) (m.pushedWith a outcome) := by
  cases outcome with
  | accepted revision =>
    simp only [pushedWith]
    split
    · exact .still (.inl ⟨_, rfl⟩)
    · rename_i acknowledged
      obtain ⟨base, applied, rfl⟩ := acknowledge_eq_ok.1 acknowledged
      rw [known]
      exact .moved rfl applied .accepted (.inl ⟨_, rfl⟩)
  | conflict operations revision =>
    rw [pushedWith]
    have rebased := rebases (a := a) (m := m) operations revision
    rcases rebased.requeues (.push made m.inflight) (.conflict operations revision) with
        ⟨e, h⟩ | ⟨result, base, state, inflight, pending, applied, requeued, h⟩
    · rw [h]
      exact .still (.inl ⟨_, rfl⟩)
    · rw [h]
      dsimp only
      rw [known]
      refine .moved rfl applied requeued ?_
      split
      · exact .inl ⟨_, rfl⟩
      · split
        · exact .inl ⟨_, rfl⟩
        · exact .inr rfl

theorem Requeues.of_retrying {retrying : Bool} {base state : σ} {purpose : Purpose op}
    {response : purpose.Response} {inflight pending : List op}
    (h : Requeues a { m with retrying } base purpose response inflight pending state) :
    Requeues a m base purpose response inflight pending state := by
  cases h with
  | accepted => exact .accepted
  | rebased crossed reached => exact .rebased crossed reached
  | discarded => exact .discarded

theorem Settles.of_retrying {retrying : Bool} {call : Call op}
    {answer : Except TransportFault call.purpose.Response} {settled : Settled σ op ι}
    (h : Settles a { m with retrying } call answer settled) : Settles a m call answer settled := by
  cases h with
  | still goesOn => exact .still goesOn
  | moved heard applied requeued goesOn => exact .moved heard applied requeued.of_retrying goesOn

theorem settles (policy : Retry.Policy) {call : Call op}
    (current : m.Current call.purpose) (answer : Except TransportFault call.purpose.Response) :
    Settles a m call answer (m.answered a policy call answer) := by
  cases answer with
  | error fault => exact settles_failed policy fault
  | ok response =>
    match call, current, response with
    | ⟨.checkout, failures⟩, current, pulled =>
      have unknown : { m with retrying := false }.checkedOut = false := current.1
      exact (settles_checkout unknown pulled).of_retrying
    | ⟨.pull since, failures⟩, current, pulled =>
      have known : { m with retrying := false }.checkedOut = true := current.1
      exact (settles_pull known pulled).of_retrying
    | ⟨.push made batch, failures⟩, current, outcome =>
      obtain ⟨known, rfl, rfl⟩ := current
      have known : { m with retrying := false }.checkedOut = true := known
      exact (settles_push known outcome).of_retrying

theorem Settles.sound (lawful : a.Lawful) (sound : m.Sound a) {call : Call op}
    {answer : Except TransportFault call.purpose.Response} {settled : Settled σ op ι}
    (h : Settles a m call answer settled) : settled.manager.Sound a := by
  cases h with
  | still goesOn => exact sound
  | moved heard applied requeued goesOn => exact requeued.path lawful sound applied

end Reconcile.Manager
