import Reconcile.Proofs.Ledger
import Reconcile.Proofs.Manager.Atomic
import Reconcile.Proofs.Manager.Rebase
import Reconcile.Proofs.Sync.Phase

/-! A session whose call is a sync: it begins in the first phase, takes a turn where the phase waits
for what happens, and stays in its phase otherwise. -/

namespace Reconcile

open Manager (Action Call Purpose Stage Undisturbed)

namespace Manager

variable {σ op ι : Type} {a : Algebra σ op} {m : Manager σ op ι}

theorem start_sync_of_free (known : m.ensureCheckedOut = .ok ()) (free : m.activity = none)
    (reported : m.rejected = []) : ∃ inflight pending,
      inflight = [] ∧ m.start a .sync = ({ m with inflight, pending }, .ended (.ok 0)) ∨
      inflight ≠ [] ∧ m.start a .sync = ({ m with inflight, pending, activity := some .syncing },
        .asking (.first (.push m.revision inflight))) := by
  by_cases idle : m.inflight = []
  · by_cases empty : a.squashAll m.pending = []
    · refine ⟨[], [], .inl ⟨rfl, ?_⟩⟩
      simp [start, beginSync, known, reported, free, idle, empty]
    · refine ⟨a.squashAll m.pending, [], .inr ⟨empty, ?_⟩⟩
      simp [start, beginSync, known, reported, free, idle, empty, pushInflight]
  · refine ⟨m.inflight, m.pending, .inr ⟨idle, ?_⟩⟩
    simp [start, beginSync, known, reported, free, idle, pushInflight]

end Manager

namespace Session

variable {σ op ι : Type} {a : Algebra σ op} {g : Gauge σ op} {s : Session σ op ι}
  {phase : Phase op} {log : List op}

/-- The call of a session is a sync in that phase. -/
structure At (s : Session σ op ι) (phase : Phase op) : Prop where
  stage : s.stage = some phase.stage
  fits : phase.Fits s.manager

def foreign (s : Session σ op ι) : Option (List op) :=
  match s.stage with
  | some (.heard call (.ok response)) => some (call.purpose.foreign response)
  | _ => none

def result (s : Session σ op ι) : Option (Except SyncError Nat) :=
  match s.stage with
  | some (.settled (.ended result)) => some result
  | _ => none

def pushed (s : Session σ op ι) : Event op → List (Push op)
  | .proceed _ =>
    match s.stage, s.manager.ensureOpen with
    | some (.asking ⟨.push made batch, _⟩), .ok () => [⟨made, batch⟩]
    | _, _ => []
  | _ => []

theorem At.undisturbed (standing : s.At phase) {n : Manager σ op ι} (u : Undisturbed s.manager n)
    (halted : n.halted = s.manager.halted) (closed : s.manager.closed = true → n.closed = true) :
    At { s with manager := n } phase :=
  ⟨standing.stage, standing.fits.undisturbed u halted closed⟩

theorem At.add (standing : s.At phase) (ops : List op) : (s.step a (.add ops)).At phase :=
  standing.undisturbed (Manager.undisturbed_add ops) (Manager.halted_add ops)
    (Manager.lasting_add ops).closed

theorem At.reset (standing : s.At phase) : (s.step a .reset).At phase :=
  standing.undisturbed Manager.undisturbed_reset Manager.halted_reset Manager.lasting_reset.closed

theorem At.close (standing : s.At phase) : (s.step a .close).At phase :=
  standing.undisturbed Manager.undisturbed_close Manager.halted_close Manager.lasting_close.closed

theorem At.start (standing : s.At phase) (active : s.manager.activity.isSome = true)
    (action : Action) : (s.step a (.start action)).At phase := by
  obtain ⟨rejected, result, ended, -⟩ := Manager.start_busy (a := a) active action
  simp only [Session.step, ended]
  exact standing.undisturbed ⟨rfl, rfl, rfl, rfl, rfl⟩ rfl id

theorem At.restore (standing : s.At phase) (active : s.manager.activity.isSome = true)
    (snapshot : Snapshot σ op) : (s.restore a snapshot).At phase := by
  obtain ⟨e, refused⟩ := Manager.restore_busy (a := a) active snapshot
  simp only [Session.restore, refused]
  exact standing

theorem At.hear {h : History op} (standing : s.At phase)
    (within : s.manager.revision.value ≤ h.operations.length) :
    ∃ phase', (s.hear fun purpose => (h.answer purpose).1).At phase' ∧
      (Phase.Turn a phase h.operations [] phase' (Network.serve h s).operations ∨
        phase' = phase ∧ Network.serve h s = h ∧ phase.waits = false) := by
  obtain ⟨stage, fits⟩ := standing
  cases phase with
  | sent push =>
    rw [fits.1] at within
    have heard : s.hear (fun purpose => (h.answer purpose).1) =
        ⟨s.manager, some (.heard push.call (h.answer (.push push.made push.batch)).1)⟩ := by
      rw [Session.hear, stage]
      rfl
    have served : Network.serve h s = (h.answer (.push push.made push.batch)).2 := by
      rw [Network.serve, stage]
      rfl
    rcases Nat.lt_or_eq_of_le within with stale | latest
    · rw [History.answer_stale stale] at heard served
      rw [heard, served]
      exact ⟨.missed push _, ⟨rfl, fits⟩, .inl (.missed push stale)⟩
    · rw [History.answer_latest latest] at heard served
      rw [heard, served]
      exact ⟨.taken push, ⟨rfl, fits⟩, .inl (.taken push latest)⟩
  | _ =>
    have unheard : s.hear (fun purpose => (h.answer purpose).1) = s := by
      rw [Session.hear, stage]
      rfl
    have unserved : Network.serve h s = h := by
      rw [Network.serve, stage]
      rfl
    rw [unheard]
    exact ⟨_, ⟨stage, fits⟩, .inr ⟨rfl, unserved, rfl⟩⟩

theorem At.proceed_asking {push : Push op} (standing : s.At (.asking push))
    (policy : Retry.Policy) (log : List op) : ∃ phase', (s.step a (.proceed policy)).At phase' ∧
      Phase.Turn a (.asking push) log (s.pushed (.proceed policy)) phase' log := by
  obtain ⟨stage, fits⟩ := standing
  have stage : s.stage = some (.asking push.call) := stage
  simp only [Session.step, pushed, stage, Manager.proceed]
  cases isOpen : s.manager.ensureOpen with
  | ok u => exact ⟨.sent push, ⟨rfl, fits⟩, .asks push log⟩
  | error e =>
    rcases Manager.ensureOpen_eq_error.1 isOpen with ⟨closed, rfl⟩ | ⟨-, halted, -⟩
    · exact ⟨.shut, ⟨rfl, closed⟩, .shuts push log⟩
    · cases fits.2.2.2.symm.trans halted

theorem At.proceed_taken {push : Push op} (standing : s.At (.taken push))
    (sound : s.manager.Sound a) (policy : Retry.Policy) :
    (s.step a (.proceed policy)).At (.done (push.made.advance push.batch.length)) := by
  obtain ⟨stage, fits⟩ := standing
  obtain ⟨base, applied, -⟩ := sound.parts
  let m := { s.manager with retrying := false }
  let revision := push.made.advance push.batch.length
  have acknowledged : m.acknowledge a revision = .ok { m with base, inflight := [], revision } :=
    Manager.acknowledge_eq_ok.2 ⟨base, applied.applyAll, rfl⟩
  have stage : s.stage = some (.heard push.call (.ok (.accepted revision))) := stage
  have answered : s.manager.answered a policy push.call (.ok (.accepted revision)) =
      m.pushedWith a (.accepted revision) := rfl
  simp only [Session.step, stage, Manager.proceed, answered, Manager.pushedWith, acknowledged]
  exact ⟨rfl, rfl, rfl⟩

theorem At.proceed_missed (limited : Limited a g) {push : Push op} {news : List op} {base : σ}
    (standing : s.At (.missed push news)) (sound : s.manager.Sound a)
    (applied : a.applyAll s.manager.base news = .ok base) (room : s.manager.HasRoom g news)
    (policy : Retry.Policy) (log : List op) : ∃ phase', (s.step a (.proceed policy)).At phase' ∧
      Phase.Turn a (.missed push news) log [] phase' log := by
  obtain ⟨stage, revision, inflight, nonempty, halted⟩ := standing
  let m := { s.manager with retrying := false }
  let latest := push.made.advance news.length
  have sound : m.Sound a := sound
  obtain ⟨first, second, state, crosses⟩ := sound.exists_crosses limited applied room
  have crossed : a.transform push.batch news = .ok first := inflight ▸ crosses.first
  have rebased := crosses.rebase limited.lawful sound applied latest
  have stage : s.stage = some (.heard push.call (.ok (.conflict news latest))) := stage
  have answered : s.manager.answered a policy push.call (.ok (.conflict news latest)) =
      m.pushedWith a (.conflict news latest) := rfl
  simp only [Session.step, stage, Manager.proceed, answered, Manager.pushedWith, rebased]
  by_cases nothing : first.left = []
  · simp only [nothing, List.isEmpty_nil, if_true]
    exact ⟨.done latest, ⟨rfl, rfl, rfl⟩, .vanishes push log crossed nothing⟩
  · simp only [List.isEmpty_iff, nothing, if_false]
    exact ⟨.again ⟨latest, first.left⟩, ⟨rfl, rfl, rfl, nothing, halted⟩,
      .rebases push log crossed nothing⟩

theorem At.proceed (limited : Limited a g) (standing : s.At phase) (sound : s.manager.Sound a)
    (applies : ∀ push news, phase = .missed push news → ∃ base,
      a.applyAll s.manager.base news = .ok base)
    (room : ∀ news ∈ s.foreign, s.manager.HasRoom g news) (policy : Retry.Policy)
    (log : List op) : ∃ phase', (s.step a (.proceed policy)).At phase' ∧
      (Phase.Turn a phase log (s.pushed (.proceed policy)) phase' log ∨
        phase' = phase ∧ s.pushed (.proceed policy) = [] ∧ phase.acts = false) := by
  have silent (h : ∀ push, phase ≠ .asking push) : s.pushed (.proceed policy) = [] := by
    rw [pushed, standing.stage]
    cases phase with
    | asking push => exact absurd rfl (h push)
    | _ => rfl
  cases phase with
  | asking push =>
    obtain ⟨phase', after, turn⟩ := standing.proceed_asking (a := a) policy log
    exact ⟨phase', after, .inl turn⟩
  | taken push =>
    rw [silent (by simp)]
    exact ⟨_, standing.proceed_taken sound policy, .inl (.acknowledges push log)⟩
  | missed push news =>
    obtain ⟨base, applied⟩ := applies push news rfl
    have heard : s.foreign = some news := by
      rw [foreign, standing.stage]
      rfl
    rw [silent (by simp)]
    obtain ⟨phase', after, turn⟩ :=
      standing.proceed_missed limited sound applied (room news heard) policy log
    exact ⟨phase', after, .inl turn⟩
  | again push =>
    obtain ⟨stage, fits⟩ := standing
    have same : s.manager.pushInflight = push.call := by
      rw [Manager.pushInflight, fits.1, fits.2.1]
      rfl
    have stage : s.stage = some (.settled .pushAgain) := stage
    rw [silent (by simp)]
    simp only [Session.step, stage, Manager.proceed, same]
    exact ⟨.asking push, ⟨rfl, fits⟩, .inl (.goesOn push log)⟩
  | _ =>
    rw [silent (by simp)]
    obtain ⟨stage, fits⟩ := standing
    refine ⟨_, ⟨?_, ?_⟩, .inr ⟨rfl, rfl, rfl⟩⟩
    · simp only [Session.step, stage]
      rfl
    · simp only [Session.step, stage]
      exact fits

theorem Anchored.news_apply {initial : σ} (anchored : s.Anchored a initial log)
    (applies : ∃ reached, a.applyAll initial log = .ok reached) {call : Call op}
    {response : call.purpose.Response} (heard : s.stage = some (.heard call (.ok response))) :
    ∃ base, a.applyAll s.manager.base (call.purpose.news response).operations = .ok base := by
  obtain ⟨⟨rest, continues⟩, -⟩ := anchored.truthful call response heard
  obtain ⟨-, base⟩ := anchored.places
  obtain ⟨reached, applied⟩ := applies
  rw [← List.take_append_drop s.manager.revision.value log, ← continues,
    Algebra.applyAll_append, base, ok_bind, Algebra.applyAll_append] at applied
  obtain ⟨base', news, -⟩ := bind_eq_ok.1 applied
  exact ⟨base', news⟩

theorem At.step {initial : σ} (limited : Limited a g) (standing : s.At phase)
    (anchored : s.Anchored a initial log)
    (applies : ∃ reached, a.applyAll initial log = .ok reached) {e : Event op}
    (kept : e ≠ .release)
    (room : ∀ policy, e = .proceed policy → ∀ news ∈ s.foreign, s.manager.HasRoom g news) :
    ∃ phase', (s.step a e).At phase' ∧
      (Phase.Turn a phase log (s.pushed e) phase' log ∨
        phase' = phase ∧ s.pushed e = [] ∧ ∀ policy, e = .proceed policy → phase.acts = false) := by
  have active := (anchored.steady.attends _ standing.stage).active
  cases e with
  | add ops => exact ⟨phase, standing.add ops, .inr ⟨rfl, rfl, by simp⟩⟩
  | reset => exact ⟨phase, standing.reset, .inr ⟨rfl, rfl, by simp⟩⟩
  | close => exact ⟨phase, standing.close, .inr ⟨rfl, rfl, by simp⟩⟩
  | start action =>
    exact ⟨phase, standing.start active action, .inr ⟨rfl, rfl, by simp⟩⟩
  | proceed policy =>
    have applies (push : Push op) (news : List op) (missed : phase = .missed push news) :
        ∃ base, a.applyAll s.manager.base news = .ok base := by
      subst missed
      exact anchored.news_apply applies standing.stage
    obtain ⟨phase', after, turned⟩ :=
      standing.proceed limited anchored.steady.sound applies (room policy rfl) policy log
    refine ⟨phase', after, turned.imp_right ?_⟩
    exact fun ⟨same, silent, idle⟩ => ⟨same, silent, fun _ _ => idle⟩
  | release => exact absurd rfl kept

theorem At.of_conflict (standing : s.At phase) {made revision : Revision} {batch news : List op}
    {failures : UInt32} (heard : s.stage = some (.heard ⟨.push made batch, failures⟩
      (.ok (.conflict news revision)))) :
    phase = .missed ⟨made, batch⟩ news ∧ revision = made.advance news.length := by
  have same := standing.stage.symm.trans heard
  cases phase with
  | missed push news =>
    cases same
    exact ⟨rfl, rfl⟩
  | _ => cases same

theorem At.of_result (standing : s.At phase) (ended : s.result.isSome = true)
    (isOpen : s.manager.closed = false) :
    phase = .done s.manager.revision ∧ s.result = some (.ok 0) ∧ s.manager.inflight = [] := by
  rw [Session.result, standing.stage] at ended ⊢
  cases phase with
  | done revision =>
    obtain ⟨rfl, empty⟩ := standing.fits
    exact ⟨rfl, rfl, empty⟩
  | shut => cases isOpen.symm.trans standing.fits
  | _ => cases ended

theorem At.isSome_result (standing : s.At phase) {log : List op} (none : phase.rest log = 0) :
    s.result.isSome = true := by
  rw [Session.result, standing.stage]
  cases phase with
  | done revision | shut => rfl
  | _ =>
    simp only [Phase.rest] at none
    omega

theorem at_start (known : s.manager.ensureCheckedOut = .ok ()) (free : s.manager.activity = none)
    (reported : s.manager.rejected = []) :
    ((s.manager.start a .sync).2 = .ended (.ok 0) ∧
        (s.step a (.start .sync)).manager.inflight = []) ∨
      ∃ batch, (s.manager.start a .sync).2 = .asking (.first (.push s.manager.revision batch)) ∧
        (s.step a (.start .sync)).At (.asking ⟨s.manager.revision, batch⟩) := by
  have halted := (Manager.ensureOpen_eq_ok.1 (Manager.ensureCheckedOut_eq_ok.1 known).1).2
  obtain ⟨inflight, pending, ⟨empty, begun⟩ | ⟨nonempty, begun⟩⟩ :=
    Manager.start_sync_of_free (a := a) known free reported
  · simp only [Session.step, begun]
    exact .inl ⟨trivial, empty⟩
  · simp only [Session.step, begun]
    exact .inr ⟨inflight, rfl, rfl, rfl, rfl, nonempty, halted⟩

end Session

end Reconcile
