import Reconcile.Proofs.Manager.Answer

/-! A manager and the call that it has outstanding, moved by one event at a time. Whatever the order
of the events, and whatever the answers to its requests, the manager stays sound, and a call finds
it where it left it: only the call itself moves the base and the revision. -/

namespace Reconcile

open Manager (Action Purpose Call Next Stage Start)

structure Session (σ op ι : Type) where
  manager : Manager σ op ι
  stage : Option (Stage op)

namespace Session

/-- What can happen at a client. The outstanding call proceeds by itself until it is over; it is
released then, or earlier if it is given up. -/
inductive Event (op : Type)
  | add (ops : List op)
  | reset
  | close
  | start (action : Action)
  | proceed (policy : Retry.Policy)
  | release

variable {σ op ι : Type} {a : Algebra σ op}

def new (initial : σ) : Session σ op ι := ⟨.new initial, none⟩

def step (a : Algebra σ op) (s : Session σ op ι) : Event op → Session σ op ι
  | .add ops => { s with manager := (s.manager.add a ops).1 }
  | .reset => { s with manager := (s.manager.reset a).2.1 }
  | .close => { s with manager := s.manager.close }
  | .start action =>
    match s.manager.start a action with
    | (m, .ended _) => { s with manager := m }
    | (m, .asking call) => ⟨m, some (.asking call)⟩
  | .proceed policy =>
    match s.stage with
    | some stage =>
      let (m, _, stage) := s.manager.proceed a policy stage
      ⟨m, some stage⟩
    | none => s
  | .release => ⟨s.manager.release, none⟩

def hear (s : Session σ op ι)
    (answer : (purpose : Purpose op) → Except TransportFault purpose.Response) :
    Session σ op ι :=
  match s.stage with
  | some (.sent call) => { s with stage := some (.heard call (answer call.purpose)) }
  | _ => s

def restore (a : Algebra σ op) (s : Session σ op ι) (snapshot : Snapshot σ op) :
    Session σ op ι :=
  { s with manager := (s.manager.restore a snapshot).2.1 }

/-- What events, arbitrary answers and snapshots of other sessions lead to. -/
inductive Reachable (a : Algebra σ op) : Session σ op ι → Prop
  | new (initial : σ) : Reachable a (new initial)
  | step {s : Session σ op ι} (reached : Reachable a s) (e : Event op) : Reachable a (s.step a e)
  | hear {s : Session σ op ι} (reached : Reachable a s)
      (answer : (purpose : Purpose op) → Except TransportFault purpose.Response) :
      Reachable a (s.hear answer)
  | restore {s other : Session σ op ι} {snapshot : Snapshot σ op} (reached : Reachable a s)
      (source : Reachable a other) (taken : other.manager.snapshot = .ok snapshot) :
      Reachable a (s.restore a snapshot)

end Session

namespace Manager

variable {σ op ι : Type} {a : Algebra σ op} {m n : Manager σ op ι}

/-- What an outstanding call relies on has not changed. -/
structure Undisturbed (m n : Manager σ op ι) : Prop where
  base : n.base = m.base
  revision : n.revision = m.revision
  inflight : n.inflight = m.inflight
  activity : n.activity = m.activity
  checkedOut : n.checkedOut = m.checkedOut

theorem Undisturbed.refl (m : Manager σ op ι) : Undisturbed m m := ⟨rfl, rfl, rfl, rfl, rfl⟩

theorem Undisturbed.trans {n p : Manager σ op ι} (first : Undisturbed m n)
    (second : Undisturbed n p) : Undisturbed m p :=
  ⟨second.base.trans first.base, second.revision.trans first.revision,
    second.inflight.trans first.inflight, second.activity.trans first.activity,
    second.checkedOut.trans first.checkedOut⟩

theorem add_with (ops : List op) : ∃ state pending rejected,
    (m.add a ops).1 = { m with state, pending, rejected } := by
  simp only [add]
  split <;> exact ⟨_, _, _, rfl⟩

theorem reset_with : ∃ state pending rejected,
    (m.reset a).2.1 = { m with state, pending, rejected } := by
  unfold reset
  split
  · exact ⟨_, _, _, rfl⟩
  · dsimp only
    split
    · exact ⟨_, _, _, rfl⟩
    · split <;> exact ⟨_, _, _, rfl⟩

theorem undisturbed_add (ops : List op) : Undisturbed m (m.add a ops).1 := by
  obtain ⟨state, pending, rejected, added⟩ := add_with (a := a) (m := m) ops
  rw [added]
  exact ⟨rfl, rfl, rfl, rfl, rfl⟩

theorem undisturbed_reset : Undisturbed m (m.reset a).2.1 := by
  obtain ⟨state, pending, rejected, undone⟩ := reset_with (a := a) (m := m)
  rw [undone]
  exact ⟨rfl, rfl, rfl, rfl, rfl⟩

theorem undisturbed_close : Undisturbed m m.close := by
  simp only [Manager.close]
  split <;> exact ⟨rfl, rfl, rfl, rfl, rfl⟩

theorem Undisturbed.current (u : Undisturbed m n) {purpose : Purpose op}
    (h : m.Current purpose) : n.Current purpose := by
  cases purpose with
  | checkout => exact ⟨u.checkedOut.trans h.1, u.revision.trans h.2⟩
  | pull since => exact ⟨u.checkedOut.trans h.1, u.revision.trans h.2⟩
  | push made batch =>
    exact ⟨u.checkedOut.trans h.1, u.revision.trans h.2.1, u.inflight.trans h.2.2⟩

def Attends (m : Manager σ op ι) : Stage op → Prop
  | .asking call | .sent call | .heard call _ | .settled (.wait _ call) =>
    m.activity.isSome = true ∧ m.Current call.purpose
  | .settled .pushAgain => m.activity.isSome = true ∧ m.checkedOut = true
  | .settled (.ended _) => m.activity.isSome = true

theorem Attends.active {stage : Stage op} (h : m.Attends stage) : m.activity.isSome = true := by
  match stage, h with
  | .asking _, h | .sent _, h | .heard _ _, h | .settled (.wait _ _), h
  | .settled .pushAgain, h => exact h.1
  | .settled (.ended _), h => exact h

theorem Undisturbed.attends (u : Undisturbed m n) {stage : Stage op} (h : m.Attends stage) :
    n.Attends stage := by
  have active : n.activity.isSome = true := by
    rw [u.activity]
    exact h.active
  match stage, h with
  | .asking _, h | .sent _, h | .heard _ _, h | .settled (.wait _ _), h =>
    exact ⟨active, u.current h.2⟩
  | .settled .pushAgain, h => exact ⟨active, u.checkedOut.trans h.2⟩
  | .settled (.ended _), _ => exact active

theorem Begins.attends {begun : Manager σ op ι × Start op} (h : Begins a m begun)
    (fresh : m.checkedOut = false → m.revision = .genesis) :
    match begun with
    | (n, .ended _) => Undisturbed m n
    | (n, .asking call) => n.Attends (.asking call) := by
  cases h with
  | ended rejected result => exact ⟨rfl, rfl, rfl, rfl, rfl⟩
  | vanished idle empty => exact ⟨rfl, rfl, empty.trans idle.symm, rfl, rfl⟩
  | checkout free unknown => exact ⟨rfl, unknown, fresh unknown⟩
  | pull free known => exact ⟨rfl, known, rfl⟩
  | push free known => exact ⟨rfl, known, rfl, rfl⟩
  | squash free known idle => exact ⟨rfl, known, rfl, rfl⟩

theorem Begins.place {begun : Manager σ op ι × Start op} (h : Begins a m begun) :
    begun.1.base = m.base ∧ begun.1.revision = m.revision ∧
      begun.1.checkedOut = m.checkedOut := by
  cases h <;> exact ⟨rfl, rfl, rfl⟩

theorem Settles.attends {call : Call op} {answer : Except TransportFault call.purpose.Response}
    {settled : Settled σ op ι} (h : Settles a m call answer settled)
    (attends : m.Attends (.heard call answer)) :
    settled.manager.Attends (.settled settled.next) := by
  obtain ⟨active, current⟩ := attends
  cases h with
  | still goesOn =>
    rcases goesOn with ⟨result, rfl⟩ | ⟨delay, failures, rfl⟩
    · exact active
    · exact ⟨active, Undisturbed.current ⟨rfl, rfl, rfl, rfl, rfl⟩ current⟩
  | moved heard applied path goesOn =>
    rcases goesOn with ⟨result, rfl⟩ | rfl
    · exact active
    · exact ⟨active, rfl⟩

inductive Proceeds (a : Algebra σ op) (m : Manager σ op ι) (stage : Stage op) :
    Manager σ op ι × Stage op → Prop
  | stays {next : Stage op} (attends : m.Attends next)
      (unheard : ∀ call answer, next ≠ .heard call answer) : Proceeds a m stage (m, next)
  | settles {call : Call op} {answer : Except TransportFault call.purpose.Response}
      {settled : Settled σ op ι} (heard : stage = .heard call answer)
      (h : Settles a m call answer settled) :
      Proceeds a m stage (settled.manager, .settled settled.next)

theorem proceeds (policy : Retry.Policy) {stage : Stage op} (attends : m.Attends stage) :
    Proceeds a m stage ((m.proceed a policy stage).1, (m.proceed a policy stage).2.2) := by
  match stage, attends with
  | .asking call, attends =>
    simp only [proceed]
    split
    · exact .stays attends.1 fun _ _ h => nomatch h
    · exact .stays attends fun _ _ h => nomatch h
  | .sent call, attends =>
    simp only [proceed]
    exact .stays attends fun _ _ h => nomatch h
  | .heard call answer, attends => exact .settles rfl (settles policy attends.2 answer)
  | .settled (.wait delay call), attends =>
    simp only [proceed]
    exact .stays attends fun _ _ h => nomatch h
  | .settled .pushAgain, attends =>
    simp only [proceed]
    exact .stays ⟨attends.1, attends.2, rfl, rfl⟩ fun _ _ h => nomatch h
  | .settled (.ended result), attends =>
    simp only [proceed]
    exact .stays attends fun _ _ h => nomatch h

theorem Proceeds.sound (lawful : a.Lawful) (sound : m.Sound a) {stage : Stage op}
    {after : Manager σ op ι × Stage op} (h : Proceeds a m stage after) : after.1.Sound a := by
  cases h with
  | stays attends unheard => exact sound
  | settles heard h => exact h.sound lawful sound

theorem closed_proceed (policy : Retry.Policy) {stage : Stage op} (attends : m.Attends stage) :
    (m.proceed a policy stage).1.closed = m.closed := by
  have proceeded := proceeds (a := a) policy attends
  generalize m.proceed a policy stage = after at proceeded ⊢
  obtain ⟨n, notice, next⟩ := after
  cases proceeded with
  | stays attends unheard => rfl
  | settles heard h => cases h <;> rfl

theorem restore_cases (s : Snapshot σ op) : (m.restore a s).2.1 = m ∨
    ∃ state, m.activity = none ∧ a.applyAll s.base (s.inflight ++ s.pending) = .ok state ∧
      (m.restore a s).2.1 = { m with
        base := s.base, state, revision := s.revision, inflight := s.inflight
        pending := s.pending, rejected := [], checkedOut := true } := by
  simp only [restore]
  split
  · exact .inl rfl
  · split
    · exact .inl rfl
    · rename_i free
      split
      · exact .inl rfl
      · rename_i restored moved
        obtain ⟨state, reached, rfl⟩ := resetTo_eq_ok.1 moved
        exact .inr ⟨state, by simpa using free, reached, rfl⟩

theorem snapshot_eq_ok {s : Snapshot σ op} (h : m.snapshot = .ok s) :
    s = ⟨m.revision, m.base, m.inflight, m.pending⟩ := by
  obtain ⟨_, -, h⟩ := bind_eq_ok.1 h
  exact (Except.ok.inj h).symm

end Manager

namespace Session

open Manager (Attends)

variable {σ op ι : Type} {a : Algebra σ op} {s : Session σ op ι}

/-- What every event keeps, whatever the algebra: a manager that has not been checked out is at
genesis, and an outstanding call finds the manager where it left it. -/
structure Attentive (s : Session σ op ι) : Prop where
  fresh : s.manager.checkedOut = false → s.manager.revision = .genesis
  attends : ∀ stage, s.stage = some stage → s.manager.Attends stage

theorem attentive_new (initial : σ) : (new initial : Session σ op ι).Attentive where
  fresh _ := rfl
  attends _ h := nomatch h

theorem Attentive.idle (attentive : s.Attentive) (free : s.manager.activity = none) :
    s.stage = none := by
  cases outstanding : s.stage with
  | none => rfl
  | some stage =>
    have active := (attentive.attends stage outstanding).active
    rw [free] at active
    exact nomatch active

theorem Attentive.undisturbed (attentive : s.Attentive) {n : Manager σ op ι}
    (u : Manager.Undisturbed s.manager n) : Attentive { s with manager := n } where
  fresh unknown := u.revision.trans (attentive.fresh (u.checkedOut.symm.trans unknown))
  attends stage h := u.attends (attentive.attends stage h)

theorem Attentive.start (attentive : s.Attentive) (action : Action) :
    (s.step a (.start action)).Attentive := by
  have begun := Manager.begins (a := a) (m := s.manager) action
  have attends := begun.attends attentive.fresh
  obtain ⟨-, revision, checkedOut⟩ := begun.place
  simp only [step]
  generalize s.manager.start a action = started at *
  obtain ⟨m, result⟩ := started
  cases result with
  | ended result => exact attentive.undisturbed attends
  | asking call =>
    refine ⟨fun unknown => revision.trans (attentive.fresh (checkedOut ▸ unknown)), ?_⟩
    intro stage h
    cases h
    exact attends

theorem Attentive.proceed (attentive : s.Attentive) (policy : Retry.Policy) :
    (s.step a (.proceed policy)).Attentive := by
  simp only [step]
  split
  · rename_i stage outstanding
    have attends := attentive.attends stage outstanding
    have moved := Manager.proceeds (a := a) policy attends
    generalize s.manager.proceed a policy stage = result at moved ⊢
    obtain ⟨m, notice, next⟩ := result
    cases moved with
    | stays attends unheard =>
      refine ⟨attentive.fresh, ?_⟩
      intro stage h
      cases h
      exact attends
    | settles heard h =>
      subst heard
      refine ⟨?_, ?_⟩
      · cases h with
        | still goesOn => exact attentive.fresh
        | moved heard applied requeued goesOn => exact fun unknown => nomatch unknown
      · intro stage h
        cases h
        exact h.attends attends
  · exact attentive

theorem Attentive.step (attentive : s.Attentive) (e : Event op) : (s.step a e).Attentive := by
  cases e with
  | add ops => exact attentive.undisturbed (Manager.undisturbed_add ops)
  | reset => exact attentive.undisturbed Manager.undisturbed_reset
  | close => exact attentive.undisturbed Manager.undisturbed_close
  | start action => exact attentive.start action
  | proceed policy => exact attentive.proceed policy
  | release => exact ⟨attentive.fresh, fun _ h => nomatch h⟩

inductive Moves (a : Algebra σ op) (s t : Session σ op ι) : Prop
  | stays (base : t.manager.base = s.manager.base)
      (revision : t.manager.revision = s.manager.revision)
      (heard : ∀ call answer, t.stage = some (.heard call answer) →
        s.stage = some (.heard call answer))
  | news {call : Call op} {response : call.purpose.Response}
      (heard : s.stage = some (.heard call (.ok response)))
      (applied : a.applyAll s.manager.base (call.purpose.news response).operations =
        .ok t.manager.base)
      (revision : t.manager.revision = (call.purpose.news response).revision)
      (unheard : ∀ call answer, t.stage ≠ some (.heard call answer))

theorem Moves.undisturbed {n : Manager σ op ι} (u : Manager.Undisturbed s.manager n) :
    Moves a s { s with manager := n } :=
  .stays u.base u.revision fun _ _ h => h

theorem moves_start (action : Action) : Moves a s (s.step a (.start action)) := by
  obtain ⟨base, revision, -⟩ := (Manager.begins (a := a) (m := s.manager) action).place
  simp only [step]
  generalize s.manager.start a action = started at *
  obtain ⟨m, result⟩ := started
  cases result with
  | ended result => exact .stays base revision fun _ _ h => h
  | asking call => exact .stays base revision fun _ _ h => nomatch h

theorem Attentive.moves_proceed (attentive : s.Attentive) (policy : Retry.Policy) :
    Moves a s (s.step a (.proceed policy)) := by
  simp only [Session.step]
  split
  · rename_i stage outstanding
    have moved := Manager.proceeds (a := a) policy (attentive.attends stage outstanding)
    generalize s.manager.proceed a policy stage = result at moved ⊢
    obtain ⟨m, notice, next⟩ := result
    cases moved with
    | stays attends unheard =>
      exact .stays rfl rfl fun call answer h => absurd (Option.some.inj h) (unheard call answer)
    | settles heard h =>
      subst heard
      cases h with
      | still goesOn => exact .stays rfl rfl fun _ _ h => nomatch h
      | moved heard applied requeued goesOn =>
        subst heard
        exact .news outstanding applied rfl fun _ _ h => nomatch h
  · exact .stays rfl rfl fun _ _ h => h

theorem Attentive.moves (attentive : s.Attentive) (e : Event op) : Moves a s (s.step a e) := by
  cases e with
  | add ops => exact .undisturbed (Manager.undisturbed_add ops)
  | reset => exact .undisturbed Manager.undisturbed_reset
  | close => exact .undisturbed Manager.undisturbed_close
  | start action => exact moves_start action
  | proceed policy => exact attentive.moves_proceed policy
  | release => exact .stays rfl rfl fun _ _ h => nomatch h

theorem hear_manager (s : Session σ op ι)
    (answer : (purpose : Purpose op) → Except TransportFault purpose.Response) :
    (s.hear answer).manager = s.manager := by
  simp only [Session.hear]
  split <;> rfl

theorem stage_hear {answer : (purpose : Purpose op) → Except TransportFault purpose.Response}
    {call : Call op} {said : Except TransportFault call.purpose.Response}
    (heard : (s.hear answer).stage = some (.heard call said)) :
    s.stage = some (.sent call) ∧ answer call.purpose = said ∨
      s.stage = some (.heard call said) := by
  simp only [Session.hear] at heard
  split at heard
  · rename_i asked sent
    injection Option.some.inj heard with same answered
    subst same
    exact .inl ⟨sent, eq_of_heq answered⟩
  · exact .inr heard

theorem Attentive.hear (attentive : s.Attentive)
    (answer : (purpose : Purpose op) → Except TransportFault purpose.Response) :
    (s.hear answer).Attentive := by
  simp only [Session.hear]
  split
  · rename_i call sent
    refine ⟨attentive.fresh, ?_⟩
    intro stage h
    cases h
    have attends := attentive.attends _ sent
    exact attends
  · exact attentive

theorem Attentive.restore (attentive : s.Attentive) (snapshot : Snapshot σ op) :
    (s.restore a snapshot).Attentive := by
  simp only [Session.restore]
  rcases s.manager.restore_cases (a := a) snapshot with h | ⟨state, free, -, h⟩
  · rw [h]
    exact attentive
  · rw [h]
    refine ⟨(fun unknown => nomatch unknown), ?_⟩
    intro stage outstanding
    rw [attentive.idle free] at outstanding
    exact nomatch outstanding

structure Steady (a : Algebra σ op) (s : Session σ op ι) : Prop extends Attentive s where
  sound : s.manager.Sound a

theorem steady_new (initial : σ) : (new initial : Session σ op ι).Steady a :=
  ⟨attentive_new initial, Manager.sound_new initial⟩

theorem Steady.sound_step (lawful : a.Lawful) (steady : s.Steady a) (e : Event op) :
    (s.step a e).manager.Sound a := by
  cases e with
  | add ops => exact steady.sound.add lawful ops
  | reset => exact steady.sound.reset lawful
  | close => exact steady.sound.close
  | start action =>
    have sound := steady.sound.begins lawful (Manager.begins action)
    simp only [step]
    generalize s.manager.start a action = started at *
    obtain ⟨m, result⟩ := started
    cases result <;> exact sound
  | proceed policy =>
    simp only [step]
    split
    · rename_i stage outstanding
      have moved := Manager.proceeds (a := a) policy (steady.attends stage outstanding)
      exact moved.sound lawful steady.sound
    · exact steady.sound
  | release => exact steady.sound

theorem Steady.step (lawful : a.Lawful) (steady : s.Steady a) (e : Event op) :
    (s.step a e).Steady a :=
  ⟨steady.toAttentive.step e, steady.sound_step lawful e⟩

theorem Steady.hear (steady : s.Steady a)
    (answer : (purpose : Purpose op) → Except TransportFault purpose.Response) :
    (s.hear answer).Steady a := by
  refine ⟨steady.toAttentive.hear answer, ?_⟩
  rw [hear_manager]
  exact steady.sound

theorem Steady.taken (steady : s.Steady a) {snapshot : Snapshot σ op}
    (taken : s.manager.snapshot = .ok snapshot) : snapshot.Sound a := by
  obtain rfl := Manager.snapshot_eq_ok taken
  exact ⟨s.manager.state, steady.sound⟩

theorem Steady.restore (steady : s.Steady a) {snapshot : Snapshot σ op}
    (sound : snapshot.Sound a) : (s.restore a snapshot).Steady a := by
  refine ⟨steady.toAttentive.restore snapshot, ?_⟩
  simp only [Session.restore]
  rcases s.manager.restore_cases (a := a) snapshot with h | ⟨state, -, reached, h⟩
  · rw [h]
    exact steady.sound
  · rw [h]
    obtain ⟨state', path⟩ := sound
    obtain rfl : state' = state := path.eq_of_applyAll reached
    exact path

theorem Reachable.steady (lawful : a.Lawful) (reached : s.Reachable a) : s.Steady a := by
  induction reached with
  | new initial => exact steady_new initial
  | step reached e ih => exact ih.step lawful e
  | hear reached answer ih => exact ih.hear answer
  | restore reached source taken ihReached ihSource =>
    exact ihReached.restore (ihSource.taken taken)

end Session

end Reconcile
