import Reconcile.Proofs.Squashing
import Reconcile.Proofs.Sync.Finish

/-! Calls that are made one after the other, each to its end before the next one begins. A sync then
commits what its batch becomes on its way to the end of the log as it found it, and a pull takes its
client there. Both are said for the kinds of state that can grow without a limit. -/

namespace Reconcile

open Manager (Action Call Purpose Stage)

namespace Phase

variable {σ op : Type} {a : Algebra σ op} {initially log log' : List op} {first : Push op}
  {pushes new : List (Push op)} {phase phase' : Phase op}

def Leaves (a : Algebra σ op) (initially : List op) (first : Push op) (left : List op) : Prop :=
  ∃ d, a.transform first.batch (initially.drop first.made.value) = .ok d ∧ d.left = left

def Carries (a : Algebra σ op) (initially : List op) (first : Push op) (log : List op) :
    Phase op → Prop
  | asking push | sent push | again push =>
    push = first ∨ push.made.value = initially.length ∧ Leaves a initially first push.batch
  | taken push => Leaves a initially first push.batch
  | missed push _ => push = first
  | done _ => ∃ left, Leaves a initially first left ∧ log = initially ++ left
  | shut => True

theorem leaves_all (nonempty : ∀ o ∈ first.batch, a.isEmpty o = false)
    (latest : first.made.value = initially.length) : Leaves a initially first first.batch := by
  refine ⟨⟨first.batch.filter (!a.isEmpty ·), []⟩, ?_, ?_⟩
  · rw [latest, List.drop_length, Algebra.transform_nil_right]
  · exact List.filter_eq_self.2 (by simpa using nonempty)

theorem Carries.turn (carries : phase.Carries a initially first log)
    (nonempty : ∀ o ∈ first.batch, a.isEmpty o = false)
    (alone : phase.Alone a initially pushes log) (turn : Turn a phase log new phase' log') :
    phase'.Carries a initially first log' := by
  cases turn with
  | asks push | goesOn push => exact carries
  | shuts push => trivial
  | taken push latest =>
    obtain ⟨rfl, -⟩ := alone
    rcases carries with rfl | ⟨-, leaves⟩
    · exact leaves_all nonempty latest
    · exact leaves
  | missed push stale =>
    obtain ⟨rfl, -⟩ := alone
    exact carries.resolve_right fun h => Nat.ne_of_lt stale h.1
  | acknowledges push => exact ⟨push.batch, carries, alone.1⟩
  | @rebases push log news d crossed left =>
    obtain rfl : push = first := carries
    obtain ⟨-, -, behind, rfl⟩ := alone
    refine .inr ⟨?_, d, crossed, rfl⟩
    simp only [Revision.advance, List.length_drop]
    omega
  | @vanishes push log news d crossed nothing =>
    obtain rfl : push = first := carries
    obtain ⟨rfl, -, -, rfl⟩ := alone
    exact ⟨[], ⟨d, crossed, nothing⟩, (List.append_nil _).symm⟩

end Phase

namespace Manager

variable {σ op ι : Type} {a : Algebra σ op} {m n : Manager σ op ι} {queued : List op}

structure Clear (m : Manager σ op ι) : Prop where
  known : m.ensureCheckedOut = .ok ()
  reported : m.rejected = []
  pending : m.pending = []

structure Rests (m : Manager σ op ι) (queued : List op) : Prop where
  known : m.ensureCheckedOut = .ok ()
  idle : m.activity = none
  reported : m.rejected = []
  inflight : m.inflight = []
  pending : m.pending = queued

theorem Rests.synced (rests : m.Rests []) : m.IsSynced := ⟨rests.inflight, rests.pending⟩

theorem Clear.rests (clear : m.Clear) (inflight : m.inflight = []) : m.release.Rests [] :=
  ⟨clear.known, rfl, clear.reported, inflight, clear.pending⟩

theorem Requeues.pending_eq_nil {base state : σ} {purpose : Purpose op}
    {response : purpose.Response} {inflight pending : List op}
    (h : Requeues a m base purpose response inflight pending state) (none : m.pending = []) :
    pending = [] := by
  cases h with
  | accepted => exact none
  | rebased crossed reached =>
    obtain ⟨first, -, crossed⟩ := bind_eq_ok.1 crossed
    obtain ⟨second, hsecond, crossed⟩ := bind_eq_ok.1 crossed
    obtain ⟨-, rfl⟩ := Prod.mk.inj (Except.ok.inj crossed)
    rw [none, Algebra.transform_nil_left] at hsecond
    rw [← Except.ok.inj hsecond]
  | discarded => rfl

theorem Clear.proceed (clear : m.Clear) {stage : Stage op} (attends : m.Attends stage)
    (policy : Retry.Policy)
    (fine : m.closed = false → ∀ e,
      (m.proceed a policy stage).2.2 ≠ .settled (.ended (.error e))) :
    (m.proceed a policy stage).1.Clear := by
  obtain ⟨known, reported, pending⟩ := clear
  obtain ⟨isOpen, checkedOut⟩ := ensureCheckedOut_eq_ok.1 known
  obtain ⟨closed, halted⟩ := ensureOpen_eq_ok.1 isOpen
  have same := (halted_proceed (m := m) (a := a) policy stage).resolve_left fun ⟨e, ended⟩ =>
    fine closed e ended
  have proceeded := proceeds (a := a) policy attends
  generalize m.proceed a policy stage = after at proceeded same ⊢
  obtain ⟨n, notice, next⟩ := after
  have ready (h : n.closed = false) (h' : n.checkedOut = true) : n.ensureCheckedOut = .ok () :=
    ensureCheckedOut_eq_ok.2 ⟨ensureOpen_eq_ok.2 ⟨h, same.trans halted⟩, h'⟩
  cases proceeded with
  | stays attends unheard => exact ⟨known, reported, pending⟩
  | settles heard settles =>
    cases settles with
    | still goesOn => exact ⟨ready closed checkedOut, reported, pending⟩
    | moved heard applied requeued goesOn =>
      exact ⟨ready closed rfl, reported, requeued.pending_eq_nil pending⟩

theorem pulledSince_of_synced {pulled : Pulled op} {base : σ} (inflight : m.inflight = [])
    (pending : m.pending = []) (applied : a.applyAll m.base pulled.operations = .ok base) :
    (∃ count, (m.pulledSince a m.revision pulled).next = .ended (.ok count)) ∧
      (m.pulledSince a m.revision pulled).manager.inflight = [] ∧
      (m.pulledSince a m.revision pulled).manager.revision = pulled.revision := by
  simp only [pulledSince]
  split
  · rename_i nothing
    exact ⟨⟨0, rfl⟩, inflight, nothing.2.symm⟩
  · have queues := transformQueues_of_empty (a := a) inflight pending pulled.operations
    have moved : m.resetTo a base [] [] =
        .ok { m with base, state := base, inflight := [], pending := [] } :=
      resetTo_eq_ok.2 ⟨base, rfl, rfl⟩
    simp only [rebase, applied, queues, ok_bind, moved]
    exact ⟨⟨_, rfl⟩, trivial, trivial⟩

end Manager

namespace Session

variable {σ op ι : Type} {a : Algebra σ op} {s : Session σ op ι} {log : List op}

inductive Fetching (since : Revision) (log : List op) : Stage op → Prop
  | asking : Fetching since log (.asking (.first (.pull since)))
  | sent : Fetching since log (.sent (.first (.pull since)))
  | heard : Fetching since log
      (.heard (.first (.pull since)) (.ok ⟨⟨log.length⟩, log.drop since.value⟩))
  | done (count : Nat) (latest : since.value = log.length) :
    Fetching since log (.settled (.ended (.ok count)))

structure Fetches (log : List op) (s : Session σ op ι) (stage : Stage op) : Prop where
  outstanding : s.stage = some stage
  fetching : Fetching s.manager.revision log stage
  clear : s.manager.Clear
  inflight : s.manager.inflight = []

theorem fetches_start (rests : s.manager.Rests []) (log : List op) :
    Fetches log (s.step a (.start .pull)) (.asking (.first (.pull s.manager.revision))) := by
  obtain ⟨known, idle, reported, inflight, pending⟩ := rests
  have begun : s.manager.start a .pull = ({ s.manager with activity := some .syncing },
      .asking (.first (.pull s.manager.revision))) := by
    simp [Manager.start, Manager.beginPull, known, idle]
  simp only [Session.step, begun]
  exact ⟨rfl, .asking, ⟨known, reported, pending⟩, inflight⟩

theorem Fetches.ask {call : Call op} (fetches : Fetches log s (.asking call))
    (policy : Retry.Policy) : Fetches log (s.step a (.proceed policy)) (.sent call) := by
  obtain ⟨stage, fetching, clear, inflight⟩ := fetches
  have isOpen := (Manager.ensureCheckedOut_eq_ok.1 clear.known).1
  cases fetching
  simp only [Session.step, stage, Manager.proceed, isOpen]
  exact ⟨rfl, .sent, clear, inflight⟩

theorem Fetches.hear {call : Call op} (fetches : Fetches log s (.sent call))
    (within : s.manager.revision.value ≤ log.length) :
    (∃ answer, Fetches log (s.hear fun purpose => (History.answer ⟨log⟩ purpose).1)
      (.heard call answer)) ∧ (Network.serve ⟨log⟩ s).operations = log := by
  obtain ⟨stage, fetching, clear, inflight⟩ := fetches
  cases fetching
  have answered : History.answer ⟨log⟩ (.pull s.manager.revision) =
      (.ok ⟨⟨log.length⟩, log.drop s.manager.revision.value⟩, ⟨log⟩) := by
    simp [History.answer, History.pull, History.since, within, Except.map, History.revision,
      Revision.genesis, Revision.advance]
  constructor
  · refine ⟨.ok ⟨⟨log.length⟩, log.drop s.manager.revision.value⟩, ?_⟩
    simp only [Session.hear, stage, Call.first, answered]
    exact ⟨rfl, .heard, clear, inflight⟩
  · simp only [Network.serve, stage, Call.first, answered]

theorem Fetches.take {initial : σ} {call : Call op}
    {answer : Except TransportFault call.purpose.Response}
    (fetches : Fetches log s (.heard call answer)) (anchored : s.Anchored a initial log)
    (applies : ∃ reached, a.applyAll initial log = .ok reached) (policy : Retry.Policy) :
    ∃ count, Fetches log (s.step a (.proceed policy)) (.settled (.ended (.ok count))) := by
  obtain ⟨stage, fetching, clear, inflight⟩ := fetches
  have attends := anchored.steady.attends _ stage
  cases fetching
  obtain ⟨base, applied⟩ := anchored.news_apply applies stage
  obtain ⟨⟨count, next⟩, empty, latest⟩ :=
    Manager.pulledSince_of_synced (m := { s.manager with retrying := false }) inflight
      clear.pending applied
  have clear := clear.proceed (a := a) attends policy fun _ e ended => by
    have error := Manager.Next.ended.inj (next.symm.trans (Stage.settled.inj ended))
    cases error
  refine ⟨count, ?_⟩
  simp only [Session.step, stage]
  exact ⟨congrArg (some ∘ Stage.settled) next, .done count (congrArg Revision.value latest), clear,
    empty⟩

theorem Fetches.proceed {initial : σ} {stage : Stage op} (fetches : Fetches log s stage)
    (anchored : s.Anchored a initial log) (applies : ∃ reached, a.applyAll initial log = .ok reached)
    (policy : Retry.Policy) : ∃ stage, Fetches log (s.step a (.proceed policy)) stage := by
  cases stage with
  | asking call => exact ⟨_, fetches.ask policy⟩
  | sent call =>
    have waits : s.step a (.proceed policy) = s := by
      simp only [Session.step, fetches.outstanding, Manager.proceed]
      rw [← fetches.outstanding]
    exact ⟨_, waits ▸ fetches⟩
  | heard call answer =>
    obtain ⟨count, done⟩ := fetches.take anchored applies policy
    exact ⟨_, done⟩
  | settled next =>
    obtain ⟨stage, fetching, clear, inflight⟩ := fetches
    cases fetching
    rename_i count latest
    refine ⟨.settled (.ended (.ok count)), ?_⟩
    simp only [Session.step, stage, Manager.proceed]
    exact ⟨rfl, .done count latest, clear, inflight⟩

theorem Fetches.deliver {stage : Stage op} (fetches : Fetches log s stage)
    (within : s.manager.revision.value ≤ log.length) :
    (∃ stage, Fetches log (s.hear fun purpose => (History.answer ⟨log⟩ purpose).1) stage) ∧
      (Network.serve ⟨log⟩ s).operations = log := by
  by_cases sent : ∃ call, stage = .sent call
  · obtain ⟨call, rfl⟩ := sent
    obtain ⟨⟨answer, heard⟩, served⟩ := fetches.hear within
    exact ⟨⟨_, heard⟩, served⟩
  · have unheard (call : Call op) : s.stage ≠ some (.sent call) := fun h =>
      sent ⟨call, Option.some.inj (fetches.outstanding.symm.trans h)⟩
    constructor
    · refine ⟨stage, ?_⟩
      rw [Session.hear]
      split
      · exact absurd ‹_› (unheard _)
      · exact fetches
    · rw [Network.serve]
      split
      · exact absurd ‹_› (unheard _)
      · rfl

theorem At.clear_proceed {phase phase' : Phase op} (standing : s.At phase)
    (attentive : s.Attentive) (clear : s.manager.Clear) {policy : Retry.Policy}
    (after : (s.step a (.proceed policy)).At phase') :
    (s.step a (.proceed policy)).manager.Clear := by
  have attends := attentive.attends _ standing.stage
  have closed := Manager.closed_proceed (a := a) policy attends
  obtain ⟨stage, fits⟩ := after
  simp only [Session.step, standing.stage] at stage fits ⊢
  refine clear.proceed attends policy fun isOpen e ended => ?_
  have error := (Option.some.inj stage).symm.trans ended
  cases phase' with
  | shut => cases (closed.trans isOpen).symm.trans fits
  | _ => cases error

end Session

namespace Network

variable {κ σ op ι : Type} {a : Algebra σ op} {initial : σ}
  {net net' : Network κ σ op ι} {client : κ} {phase : Phase op} {queued : List op}

def Event.Own (client : κ) : Event κ op → Prop
  | .act other (.proceed _) | .deliver other => other = client
  | _ => False

instance [DecidableEq κ] (client : κ) : (e : Event κ op) → Decidable (e.Own client)
  | .act _ (.proceed _) | .deliver _ => inferInstanceAs (Decidable (_ = _))
  | .act _ (.add _) | .act _ .reset | .act _ .close | .act _ (.start _) | .act _ .release
  | .fail _ _ | .keep _ | .restore _ _ => isFalse id

theorem Event.Own.actor {e : Event κ op} (own : e.Own client) : e.actor = client := by
  match e, own with
  | .act other (.proceed policy), own | .deliver other, own => exact own

theorem Event.Own.unhindered {e : Event κ op} (own : e.Own client) :
    net.Unhindered .unlimited client e := by
  match e, own with
  | .act other (.proceed policy), own =>
    exact fun _ news _ => Manager.hasRoom_unlimited _ news
  | .deliver other, own => trivial

theorem Event.Own.unrivalled {e : Event κ op} (own : e.Own client) : net.Unrivalled client e := by
  match e, own with
  | .act other (.proceed policy), own => trivial
  | .deliver other, own => exact .inl own

theorem own_turns (client : κ) (policy : Retry.Policy) (count : Nat) :
    ∀ e ∈ (turns client policy count : List (Event κ op)), e.Own client := by
  intro e h
  obtain ⟨turn, own, member⟩ := List.mem_flatten.1 h
  obtain rfl := List.eq_of_mem_replicate own
  rcases List.mem_pair.1 member with rfl | rfl <;> rfl

variable [DecidableEq κ]

/-- A client makes a call and brings it to its end, and nothing else happens meanwhile. -/
def Completes (a : Algebra σ op) (action : Action) (client : κ) (net net' : Network κ σ op ι) :
    Prop :=
  ∃ during : List (Event κ op), (∀ e ∈ during, e.Own client) ∧
    let ended := net.run a (.act client (.start action) :: during)
    (ended.sessions client).result.isSome = true ∧ net' = ended.step a (.act client .release)

inductive CompleteAll (a : Algebra σ op) (action : Action) :
    List κ → Network κ σ op ι → Network κ σ op ι → Prop
  | nil (net : Network κ σ op ι) : CompleteAll a action [] net net
  | cons {client : κ} {clients : List κ} {net mid net' : Network κ σ op ι}
      (first : Completes a action client net mid) (rest : CompleteAll a action clients mid net') :
      CompleteAll a action (client :: clients) net net'

theorem sessions_act (event : Session.Event op) :
    (net.step a (.act client event)).sessions client = (net.sessions client).step a event :=
  if_pos rfl

theorem sessions_deliver : (net.step a (.deliver client)).sessions client =
    (net.sessions client).hear fun purpose => (net.history.answer purpose).1 :=
  if_pos rfl

theorem sessions_run_of_ne {events : List (Event κ op)} {other : κ}
    (others : ∀ e ∈ events, e.actor ≠ other) :
    (net.run a events).sessions other = net.sessions other := by
  induction events generalizing net with
  | nil => rfl
  | cons e events ih =>
    obtain ⟨first, rest⟩ := List.forall_mem_cons.1 others
    exact (ih rest).trans (sessions_step_of_ne first)

theorem Completes.invariant {action : Action} (lawful : a.Lawful) (inv : net.Invariant a initial)
    (completes : net.Completes a action client net') : net'.Invariant a initial := by
  obtain ⟨during, -, -, rfl⟩ := completes
  exact (inv.run lawful _).step lawful _

theorem Completes.sessions_of_ne {action : Action} {other : κ} (others : other ≠ client)
    (completes : net.Completes a action client net') :
    net'.sessions other = net.sessions other := by
  obtain ⟨during, own, -, rfl⟩ := completes
  rw [sessions_step_of_ne (Ne.symm others), sessions_run_of_ne]
  simp only [List.forall_mem_cons]
  exact ⟨Ne.symm others, fun e h => (own e h).actor ▸ Ne.symm others⟩

structure Goes (a : Algebra σ op) (initially : List op) (first : Push op) (client : κ)
    (net : Network κ σ op ι) (pushes : List (Push op)) (phase : Phase op) : Prop where
  standing : (net.sessions client).At phase
  clear : (net.sessions client).manager.Clear
  alone : phase.Alone a initially pushes net.history.operations
  carries : phase.Carries a initially first net.history.operations

theorem Goes.step {initially : List op} {first : Push op} {pushes : List (Push op)}
    (goes : Goes a initially first client net pushes phase) (limited : Limited a .unlimited)
    (inv : net.Invariant a initial) (nonempty : ∀ o ∈ first.batch, a.isEmpty o = false)
    {e : Event κ op} (own : e.Own client) :
    ∃ pushes phase, Goes a initially first client (net.step a e) pushes phase := by
  obtain ⟨standing, clear, alone, carries⟩ := goes
  obtain ⟨phase', after, turned⟩ := step_phase limited inv standing own.unhindered
  have clear' : ((net.step a e).sessions client).manager.Clear := by
    match e, own with
    | .act other (.proceed policy), own =>
      obtain rfl : other = client := own
      rw [sessions_act] at after ⊢
      exact standing.clear_proceed (inv.anchored other).steady.toAttentive clear after
    | .deliver other, own =>
      obtain rfl : other = client := own
      rwa [sessions_deliver, Session.hear_manager]
  rcases turned with turn | ⟨rfl, passes⟩
  · exact ⟨_, phase', after, clear', alone.turn turn, carries.turn nonempty alone turn⟩
  · have kept := passes.kept own.unrivalled
    exact ⟨pushes, phase', after, clear', kept ▸ alone, kept ▸ carries⟩

theorem Goes.run {initially : List op} {first : Push op} {pushes : List (Push op)}
    (goes : Goes a initially first client net pushes phase) (limited : Limited a .unlimited)
    (inv : net.Invariant a initial) (nonempty : ∀ o ∈ first.batch, a.isEmpty o = false)
    {during : List (Event κ op)} (own : ∀ e ∈ during, e.Own client) :
    ∃ pushes phase, Goes a initially first client (net.run a during) pushes phase := by
  induction during generalizing net pushes phase with
  | nil => exact ⟨pushes, phase, goes⟩
  | cons e during ih =>
    obtain ⟨now, afterwards⟩ := List.forall_mem_cons.1 own
    obtain ⟨pushes', phase', goes'⟩ := goes.step limited inv nonempty now
    exact ih goes' (inv.step limited.lawful e) afterwards

theorem goes_start (rests : (net.sessions client).manager.Rests queued) (busy : a.squashAll queued ≠ []) :
    Goes a net.history.operations ⟨(net.sessions client).manager.revision, a.squashAll queued⟩
      client (net.step a (.act client (.start .sync))) []
      (.asking ⟨(net.sessions client).manager.revision, a.squashAll queued⟩) := by
  obtain ⟨known, idle, reported, inflight, pending⟩ := rests
  have halted := (Manager.ensureOpen_eq_ok.1 (Manager.ensureCheckedOut_eq_ok.1 known).1).2
  have begun : (net.sessions client).manager.start a .sync =
      ({ (net.sessions client).manager with
        inflight := a.squashAll queued, pending := [], activity := some .syncing },
        .asking (.first (.push (net.sessions client).manager.revision (a.squashAll queued)))) := by
    simp [Manager.start, Manager.beginSync, Manager.pushInflight, known, idle, reported, inflight,
      pending, busy]
  refine ⟨?_, ?_, ⟨rfl, .inl rfl⟩, .inl rfl⟩
  · simp only [sessions_act, Session.step, begun]
    exact ⟨rfl, rfl, rfl, busy, halted⟩
  · simp only [sessions_act, Session.step, begun]
    exact ⟨known, reported, rfl⟩

theorem Completes.sync (limited : Limited a .unlimited) (inv : net.Invariant a initial)
    (rests : (net.sessions client).manager.Rests queued) (busy : a.squashAll queued ≠ [])
    (completes : net.Completes a .sync client net') :
    (∃ d, a.transform (a.squashAll queued)
        (net.history.operations.drop (net.sessions client).manager.revision.value) = .ok d ∧
      net'.history.operations = net.history.operations ++ d.left) ∧
      (net'.sessions client).manager.Rests [] := by
  obtain ⟨during, own, ended, rfl⟩ := completes
  have started := goes_start rests busy
  obtain ⟨pushes, phase, standing, clear, -, carries⟩ := started.run limited
    (inv.step limited.lawful _) (Algebra.nonempty_squashAll queued) own
  have isOpen := (Manager.ensureOpen_eq_ok.1 (Manager.ensureCheckedOut_eq_ok.1 clear.known).1).1
  obtain ⟨rfl, -, inflight⟩ := standing.of_result ended isOpen
  obtain ⟨-, ⟨d, crossed, rfl⟩, grown⟩ := carries
  rw [sessions_act]
  exact ⟨⟨d, crossed, grown⟩, clear.rests inflight⟩

theorem along_unhindered {events : List (Event κ op)} (own : ∀ e ∈ events, e.Own client) :
    net.Along a (Unhindered .unlimited client) events := by
  induction events generalizing net with
  | nil => trivial
  | cons e events ih =>
    obtain ⟨now, afterwards⟩ := List.forall_mem_cons.1 own
    exact ⟨now.unhindered, ih afterwards⟩

theorem exists_completes_sync (limited : Limited a .unlimited) (inv : net.Invariant a initial)
    (rests : (net.sessions client).manager.Rests queued) (busy : a.squashAll queued ≠ []) :
    ∃ net', net.Completes a .sync client net' := by
  have own : ∀ e ∈ (turns client (fun _ => none) 9 : List (Event κ op)), e.Own client :=
    own_turns client _ 9
  have started := goes_start rests busy
  have ended := isSome_result_turns limited (inv.step limited.lawful _) started.standing
    (along_unhindered own)
  exact ⟨_, _, own, ended, rfl⟩

theorem fetches_step {stage : Stage op} (inv : net.Invariant a initial)
    (fetches : (net.sessions client).Fetches net.history.operations stage) {e : Event κ op}
    (own : e.Own client) :
    (∃ stage, ((net.step a e).sessions client).Fetches (net.step a e).history.operations stage) ∧
      (net.step a e).history.operations = net.history.operations := by
  have anchored := inv.anchored client
  match e, own with
  | .act other (.proceed policy), own =>
    obtain rfl : other = client := own
    obtain ⟨stage, after⟩ := fetches.proceed anchored inv.applies policy
    rw [sessions_act]
    exact ⟨⟨stage, after⟩, rfl⟩
  | .deliver other, own =>
    obtain rfl : other = client := own
    obtain ⟨⟨stage, after⟩, kept⟩ := fetches.deliver anchored.places.1
    have kept : (net.step a (.deliver other)).history.operations = net.history.operations := kept
    rw [sessions_deliver, kept]
    exact ⟨⟨stage, after⟩, rfl⟩

theorem fetches_run {stage : Stage op} (lawful : a.Lawful) (inv : net.Invariant a initial)
    (fetches : (net.sessions client).Fetches net.history.operations stage)
    {during : List (Event κ op)} (own : ∀ e ∈ during, e.Own client) :
    (∃ stage, ((net.run a during).sessions client).Fetches
        (net.run a during).history.operations stage) ∧
      (net.run a during).history.operations = net.history.operations := by
  induction during generalizing net stage with
  | nil => exact ⟨⟨stage, fetches⟩, rfl⟩
  | cons e during ih =>
    obtain ⟨now, afterwards⟩ := List.forall_mem_cons.1 own
    obtain ⟨⟨stage', fetches'⟩, kept⟩ := fetches_step inv fetches now
    obtain ⟨after, kept'⟩ := ih (inv.step lawful e) fetches' afterwards
    exact ⟨after, kept'.trans kept⟩

theorem fetches_begun (rests : (net.sessions client).manager.Rests []) :
    let begun := net.step a (.act client (.start .pull))
    (begun.sessions client).Fetches begun.history.operations
      (.asking (.first (.pull (net.sessions client).manager.revision))) := by
  intro begun
  rw [sessions_act]
  exact Session.fetches_start rests net.history.operations

theorem Completes.pull (lawful : a.Lawful) (inv : net.Invariant a initial)
    (rests : (net.sessions client).manager.Rests [])
    (completes : net.Completes a .pull client net') :
    net'.history.operations = net.history.operations ∧
      (net'.sessions client).manager.Rests [] ∧
      (net'.sessions client).manager.revision.value = net.history.operations.length := by
  obtain ⟨during, own, ended, rfl⟩ := completes
  obtain ⟨⟨stage, outstanding, fetching, clear, inflight⟩, kept⟩ :=
    fetches_run lawful (inv.step lawful (.act client (.start .pull))) (fetches_begun rests) own
  rw [sessions_act]
  refine ⟨kept, clear.rests inflight, ?_⟩
  have ended : (Session.result (((net.step a (.act client (.start .pull))).run a during).sessions
    client)).isSome = true := ended
  rw [Session.result, outstanding] at ended
  cases fetching with
  | done count latest => exact latest.trans (congrArg List.length kept)
  | _ => cases ended

theorem exists_completes_pull (lawful : a.Lawful) (inv : net.Invariant a initial)
    (rests : (net.sessions client).manager.Rests []) :
    ∃ net', net.Completes a .pull client net' := by
  let policy : Retry.Policy := fun _ => none
  let begun := net.step a (.act client (.start .pull))
  let asked := begun.step a (.act client (.proceed policy))
  let heard := asked.step a (.deliver client)
  let done := heard.step a (.act client (.proceed policy))
  have invAsked : asked.Invariant a initial := (inv.step lawful _).step lawful _
  have sent : (asked.sessions client).Fetches asked.history.operations
      (.sent (.first (.pull (net.sessions client).manager.revision))) := by
    rw [sessions_act]
    exact (fetches_begun rests).ask policy
  obtain ⟨⟨answer, waiting⟩, kept⟩ := sent.hear (invAsked.anchored client).places.1
  have waiting : (heard.sessions client).Fetches heard.history.operations (.heard _ answer) := by
    have served : heard.history.operations = asked.history.operations := kept
    rw [sessions_deliver, served]
    exact waiting
  have invHeard : heard.Invariant a initial := invAsked.step lawful _
  obtain ⟨count, ended⟩ :=
    waiting.take (invHeard.anchored client) invHeard.applies policy
  have ended : (done.sessions client).stage = some (.settled (.ended (.ok count))) := by
    rw [sessions_act]
    exact ended.outstanding
  refine ⟨_, [.act client (.proceed policy), .deliver client, .act client (.proceed policy)],
    ?_, ?_, rfl⟩
  · simp [Event.Own]
  · change (done.sessions client).result.isSome = true
    rw [Session.result, ended]
    rfl

section

variable {action : Action} {clients : List κ}

theorem CompleteAll.invariant (all : CompleteAll a action clients net net') (lawful : a.Lawful)
    (inv : net.Invariant a initial) : net'.Invariant a initial := by
  induction all with
  | nil net => exact inv
  | cons first rest ih => exact ih (first.invariant lawful inv)

theorem CompleteAll.sessions_of_not_mem (all : CompleteAll a action clients net net') {other : κ}
    (absent : other ∉ clients) : net'.sessions other = net.sessions other := by
  induction all with
  | nil net => rfl
  | cons first rest ih =>
    obtain ⟨different, absent⟩ := not_or.1 (mt List.mem_cons.2 absent)
    exact (ih absent).trans (first.sessions_of_ne different)

theorem Completes.sessions_of_nodup (completes : net.Completes a action client net')
    (distinct : (client :: clients).Nodup) :
    ∀ k ∈ clients, net'.sessions k = net.sessions k := by
  intro k h
  refine completes.sessions_of_ne ?_
  rintro rfl
  exact (List.nodup_cons.1 distinct).1 h

end

theorem CompleteAll.pull {clients : List κ} (all : CompleteAll a .pull clients net net')
    (lawful : a.Lawful) (inv : net.Invariant a initial) (distinct : clients.Nodup)
    (rests : ∀ k ∈ clients, (net.sessions k).manager.Rests []) :
    net'.history.operations = net.history.operations ∧
      ∀ k ∈ clients, (net'.sessions k).manager.Rests [] ∧
        (net'.sessions k).manager.revision.value = net.history.operations.length := by
  induction all with
  | nil net => exact ⟨rfl, by simp⟩
  | @cons client clients net mid net' first rest ih =>
    obtain ⟨now, others⟩ := List.forall_mem_cons.1 rests
    have same := first.sessions_of_nodup distinct
    obtain ⟨absent, distinct⟩ := List.nodup_cons.1 distinct
    obtain ⟨kept, rested⟩ := first.pull lawful inv now
    obtain ⟨kept', done⟩ := ih (first.invariant lawful inv) distinct fun k h => by
      rw [same k h]
      exact others k h
    rw [kept] at kept' done
    refine ⟨kept', List.forall_mem_cons.2 ⟨?_, done⟩⟩
    rw [rest.sessions_of_not_mem absent]
    exact rested

theorem CompleteAll.pull_state {clients : List κ} (all : CompleteAll a .pull clients net net')
    (lawful : a.Lawful) (inv : net.Invariant a initial) (distinct : clients.Nodup)
    (rests : ∀ k ∈ clients, (net.sessions k).manager.Rests []) {latest : σ}
    (leads : a.applyAll initial net.history.operations = .ok latest) {k : κ} (h : k ∈ clients) :
    (net'.sessions k).manager.IsSynced ∧ (net'.sessions k).manager.state = latest := by
  obtain ⟨kept, done⟩ := all.pull lawful inv distinct rests
  obtain ⟨rested, atEnd⟩ := done k h
  have anchored := (all.invariant lawful inv).anchored k
  obtain ⟨-, base⟩ := anchored.places
  rw [atEnd, kept, List.take_length, leads] at base
  refine ⟨rested.synced, ?_⟩
  rw [anchored.steady.sound.state_eq rested.synced]
  exact (Except.ok.inj base).symm

theorem exists_completeAll {action : Action} (ready : κ → Session σ op ι → Prop)
    (one : ∀ {net : Network κ σ op ι} {client : κ}, net.Invariant a initial →
      ready client (net.sessions client) → ∃ net', net.Completes a action client net')
    (lawful : a.Lawful) (inv : net.Invariant a initial) {clients : List κ}
    (distinct : clients.Nodup) (all : ∀ k ∈ clients, ready k (net.sessions k)) :
    ∃ net', CompleteAll a action clients net net' := by
  induction clients generalizing net with
  | nil => exact ⟨net, .nil net⟩
  | cons client clients ih =>
    obtain ⟨now, others⟩ := List.forall_mem_cons.1 all
    obtain ⟨mid, first⟩ := one inv now
    have same := first.sessions_of_nodup distinct
    obtain ⟨net', rest⟩ := ih (first.invariant lawful inv) (List.nodup_cons.1 distinct).2
      fun k h => by
        rw [same k h]
        exact others k h
    exact ⟨net', .cons first rest⟩

end Network

end Reconcile
