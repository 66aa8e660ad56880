import Reconcile.Proofs.Domain
import Reconcile.Proofs.History
import Reconcile.Proofs.Manager.Session

/-! Any number of clients of one history. Events come in any order: a client acts, its request
reaches the history and is answered, or fails on its way; snapshots are kept and restored anywhere.
The invariant ties each base to the log: it is what the log leads to at the base's revision. -/

namespace Reconcile

open Manager (Purpose)

structure Network (κ σ op ι : Type) where
  history : History op
  sessions : κ → Session σ op ι
  kept : List (Snapshot σ op)

namespace Network

/-- What can happen next. A request that fails does not reach the history. -/
inductive Event (κ op : Type)
  | act (client : κ) (event : Session.Event op)
  | deliver (client : κ)
  | fail (client : κ) (fault : TransportFault)
  | keep (client : κ)
  | restore (client : κ) (slot : Nat)

variable {κ σ op ι : Type} [DecidableEq κ] {a : Algebra σ op}

def new (initial : σ) (log : List op) : Network κ σ op ι := ⟨⟨log⟩, fun _ => .new initial, []⟩

def update (sessions : κ → Session σ op ι) (client : κ) (s : Session σ op ι) :
    κ → Session σ op ι :=
  fun k => if k = client then s else sessions k

def serve (h : History op) (s : Session σ op ι) : History op :=
  match s.stage with
  | some (.sent call) => (h.answer call.purpose).2
  | _ => h

def step (a : Algebra σ op) (net : Network κ σ op ι) : Event κ op → Network κ σ op ι
  | .act client event =>
    { net with sessions := update net.sessions client ((net.sessions client).step a event) }
  | .deliver client =>
    let s := net.sessions client
    { net with
      history := serve net.history s
      sessions := update net.sessions client (s.hear fun purpose => (net.history.answer purpose).1) }
  | .fail client fault =>
    let s := net.sessions client
    { net with sessions := update net.sessions client (s.hear fun _ => .error fault) }
  | .keep client =>
    match (net.sessions client).manager.snapshot with
    | .ok snapshot => { net with kept := net.kept ++ [snapshot] }
    | .error _ => net
  | .restore client slot =>
    match net.kept[slot]? with
    | some snapshot =>
      { net with sessions := update net.sessions client ((net.sessions client).restore a snapshot) }
    | none => net

def run (a : Algebra σ op) (net : Network κ σ op ι) (events : List (Event κ op)) :
    Network κ σ op ι :=
  events.foldl (step a) net

end Network

namespace Session

open History (Follows Places)

variable {σ op ι : Type} {a : Algebra σ op} {s : Session σ op ι} {initial : σ} {log : List op}

/-- The session is steady, its base is the log's at its revision, and the news that its call has
heard continue the log from there on. -/
structure Anchored (a : Algebra σ op) (initial : σ) (log : List op) (s : Session σ op ι) :
    Prop where
  steady : s.Steady a
  places : Places a initial log s.manager.revision s.manager.base
  truthful : ∀ call response, s.stage = some (.heard call (.ok response)) →
    Follows log s.manager.revision (call.purpose.news response)

theorem anchored_new (initial : σ) (log : List op) :
    (new initial : Session σ op ι).Anchored a initial log where
  steady := steady_new initial
  places := History.places_genesis initial log
  truthful _ _ h := nomatch h

theorem Anchored.grow (anchored : s.Anchored a initial log) (batch : List op) :
    s.Anchored a initial (log ++ batch) where
  steady := anchored.steady
  places := anchored.places.grow batch
  truthful call response h := (anchored.truthful call response h).grow batch

theorem Anchored.step (lawful : a.Lawful) (anchored : s.Anchored a initial log) (e : Event op) :
    (s.step a e).Anchored a initial log := by
  have steady := anchored.steady.step lawful e
  cases anchored.steady.moves e with
  | stays base revision heard =>
    refine ⟨steady, ?_, ?_⟩
    · rw [base, revision]
      exact anchored.places
    · intro call response h
      rw [revision]
      exact anchored.truthful call response (heard _ _ h)
  | news heard applied revision unheard =>
    refine ⟨steady, ?_, ?_⟩
    · rw [revision]
      exact anchored.places.follow (anchored.truthful _ _ heard) applied
    · exact fun call response h => absurd h (unheard call _)

theorem Anchored.restore (anchored : s.Anchored a initial log) {snapshot : Snapshot σ op}
    (sound : snapshot.Sound a) (places : Places a initial log snapshot.revision snapshot.base) :
    (s.restore a snapshot).Anchored a initial log := by
  refine ⟨anchored.steady.restore sound, ?_, ?_⟩
  · rcases s.manager.restore_cases (a := a) snapshot with h | ⟨state, -, -, h⟩
    · rw [Session.restore, h]
      exact anchored.places
    · rw [Session.restore, h]
      exact places
  · intro call response heard
    rcases s.manager.restore_cases (a := a) snapshot with h | ⟨state, free, -, -⟩
    · rw [Session.restore, h]
      exact anchored.truthful call response heard
    · exact absurd (heard.symm.trans (anchored.steady.idle free)) (Option.some_ne_none _)

theorem Anchored.fail (anchored : s.Anchored a initial log) (fault : TransportFault) :
    (s.hear fun _ => .error fault).Anchored a initial log := by
  refine ⟨anchored.steady.hear _, ?_, ?_⟩
  · rw [hear_manager]
    exact anchored.places
  · intro call response heard
    rw [hear_manager]
    rcases stage_hear heard with ⟨-, failed⟩ | before
    · cases failed
    · exact anchored.truthful call response before

theorem Attentive.serve_cases (attentive : s.Attentive) (h : History op) :
    (Network.serve h s).operations = h.operations ∨
      s.manager.revision = h.revision ∧
        (Network.serve h s).operations = h.operations ++ s.manager.inflight := by
  simp only [Network.serve]
  split
  · rename_i call sent
    obtain ⟨-, current⟩ := attentive.attends _ sent
    rcases h.answer_cases call.purpose with same | ⟨batch, purpose, grown⟩
    · exact .inl same
    · rw [purpose] at current
      obtain ⟨-, revision, inflight⟩ := current
      exact .inr ⟨revision, inflight ▸ grown⟩
  · exact .inl rfl

theorem serve_grows (h : History op) (s : Session σ op ι) :
    ∃ batch, (Network.serve h s).operations = h.operations ++ batch := by
  simp only [Network.serve]
  split
  · rename_i call sent
    rcases h.answer_cases call.purpose with same | ⟨batch, -, grown⟩
    · exact ⟨[], by rw [same, List.append_nil]⟩
    · exact ⟨batch, grown⟩
  · exact ⟨[], by rw [List.append_nil]⟩

theorem Anchored.serve_applies {h : History op} (anchored : s.Anchored a initial h.operations)
    (applies : ∃ reached, a.applyAll initial h.operations = .ok reached) :
    ∃ reached, a.applyAll initial (Network.serve h s).operations = .ok reached := by
  rcases anchored.steady.serve_cases h with same | ⟨revision, grown⟩
  · rwa [same]
  · obtain ⟨-, base⟩ := anchored.places
    obtain ⟨mid, inflight, -⟩ := anchored.steady.sound.parts
    -- The history takes a batch only at its end, where the client's base is the latest state.
    have whole : s.manager.revision.value = h.operations.length := by
      rw [revision]
      exact Nat.zero_add _
    rw [whole, List.take_length] at base
    refine ⟨mid, ?_⟩
    rw [grown, Algebra.applyAll_append, base]
    exact inflight.applyAll

theorem Anchored.deliver {h : History op} (anchored : s.Anchored a initial h.operations) :
    (s.hear fun purpose => (h.answer purpose).1).Anchored a initial
      (Network.serve h s).operations := by
  obtain ⟨batch, grown⟩ := serve_grows h s
  have after := anchored.grow batch
  rw [← grown] at after
  refine ⟨anchored.steady.hear _, ?_, ?_⟩
  · rw [hear_manager]
    exact after.places
  · intro call response heard
    rw [hear_manager]
    rcases stage_hear heard with ⟨sent, answered⟩ | before
    · obtain ⟨-, current⟩ := anchored.steady.attends _ sent
      rw [Network.serve, sent, current.revision]
      exact History.follows_answer answered
    · exact after.truthful call response before

end Session

namespace Network

open History (Places)

variable {κ σ op ι : Type} {a : Algebra σ op} {initial : σ} {net : Network κ σ op ι}

structure Invariant (a : Algebra σ op) (initial : σ) (net : Network κ σ op ι) : Prop where
  applies : ∃ reached, a.applyAll initial net.history.operations = .ok reached
  anchored : ∀ k, (net.sessions k).Anchored a initial net.history.operations
  kept : ∀ snapshot ∈ net.kept, snapshot.Sound a ∧
    Places a initial net.history.operations snapshot.revision snapshot.base

theorem invariant_new {log : List op} {reached : σ}
    (applies : a.applyAll initial log = .ok reached) :
    (new initial log : Network κ σ op ι).Invariant a initial where
  applies := ⟨reached, applies⟩
  anchored _ := Session.anchored_new initial log
  kept _ h := nomatch h

variable [DecidableEq κ]

theorem log_prefix_step (net : Network κ σ op ι) (e : Event κ op) :
    net.history.operations <+: (net.step a e).history.operations := by
  cases e with
  | act client event => exact List.prefix_refl _
  | deliver client =>
    obtain ⟨batch, grown⟩ := Session.serve_grows net.history (net.sessions client)
    simp only [step]
    rw [grown]
    exact List.prefix_append _ batch
  | fail client fault => exact List.prefix_refl _
  | keep client =>
    simp only [step]
    split <;> exact List.prefix_refl _
  | restore client slot =>
    simp only [step]
    split <;> exact List.prefix_refl _

theorem log_prefix_run (net : Network κ σ op ι) (events : List (Event κ op)) :
    net.history.operations <+: (net.run a events).history.operations := by
  induction events generalizing net with
  | nil => exact List.prefix_refl _
  | cons e events ih => exact (log_prefix_step net e).trans (ih (net.step a e))

theorem forall_update {P : Session σ op ι → Prop} {sessions : κ → Session σ op ι}
    {s : Session σ op ι} (hs : P s) (hsessions : ∀ k, P (sessions k)) (client k : κ) :
    P (update sessions client s k) := by
  simp only [update]
  split
  · exact hs
  · exact hsessions k

theorem attentive_step (attentive : ∀ k, (net.sessions k).Attentive) (e : Event κ op) (k : κ) :
    ((net.step a e).sessions k).Attentive := by
  cases e with
  | act client event => exact forall_update ((attentive client).step event) attentive client k
  | deliver client => exact forall_update ((attentive client).hear _) attentive client k
  | fail client fault => exact forall_update ((attentive client).hear _) attentive client k
  | keep client =>
    simp only [step]
    split <;> exact attentive k
  | restore client slot =>
    simp only [step]
    split
    · rename_i snapshot found
      exact forall_update ((attentive client).restore snapshot) attentive client k
    · exact attentive k

theorem Invariant.update (inv : net.Invariant a initial) {client : κ} {s : Session σ op ι}
    (anchored : s.Anchored a initial net.history.operations) :
    Invariant a initial { net with sessions := update net.sessions client s } where
  applies := inv.applies
  anchored := forall_update anchored inv.anchored client
  kept := inv.kept

theorem Invariant.deliver (inv : net.Invariant a initial) (client : κ) :
    (net.step a (.deliver client)).Invariant a initial := by
  have asking := inv.anchored client
  obtain ⟨batch, grown⟩ := Session.serve_grows net.history (net.sessions client)
  refine ⟨asking.serve_applies inv.applies, forall_update asking.deliver ?_ client, ?_⟩
  · intro k
    rw [grown]
    exact (inv.anchored k).grow batch
  · intro snapshot h
    obtain ⟨sound, places⟩ := inv.kept snapshot h
    refine ⟨sound, ?_⟩
    have places := places.grow batch
    rwa [← grown] at places

theorem Invariant.step (lawful : a.Lawful) (inv : net.Invariant a initial) (e : Event κ op) :
    (net.step a e).Invariant a initial := by
  cases e with
  | act client event => exact inv.update ((inv.anchored client).step lawful event)
  | deliver client => exact inv.deliver client
  | fail client fault => exact inv.update ((inv.anchored client).fail fault)
  | keep client =>
    simp only [Network.step]
    split
    · rename_i snapshot taken
      have anchored := inv.anchored client
      refine ⟨inv.applies, inv.anchored, ?_⟩
      intro other h
      rcases List.mem_append.1 h with h | h
      · exact inv.kept other h
      · obtain rfl := List.mem_singleton.1 h
        refine ⟨anchored.steady.taken taken, ?_⟩
        obtain rfl := Manager.snapshot_eq_ok taken
        exact anchored.places
    · exact inv
  | restore client slot =>
    simp only [Network.step]
    split
    · rename_i snapshot found
      obtain ⟨sound, places⟩ := inv.kept snapshot (List.mem_of_getElem? found)
      exact inv.update ((inv.anchored client).restore sound places)
    · exact inv

theorem Invariant.run (lawful : a.Lawful) (inv : net.Invariant a initial)
    (events : List (Event κ op)) : (net.run a events).Invariant a initial := by
  induction events generalizing net with
  | nil => exact inv
  | cons e events ih => exact ih (inv.step lawful e)

/-- After any events, the log applies to the initial state, and the base of every client is what the
log leads to at the client's revision. So clients that have nothing queued show the same state at
the same revision, and at the end of the log the state that the whole log leads to. -/
theorem clients_converge (domain : Domain a) {log : List op} {reached : σ}
    (applies : a.applyAll initial log = .ok reached) (events : List (Event κ op)) :
    let net := (new initial log : Network κ σ op ι).run a events
    let committed := net.history.operations
    let client k := (net.sessions k).manager
    (∃ latest, a.applyAll initial committed = .ok latest) ∧
      (∀ k, (client k).revision.value ≤ committed.length ∧
        a.applyAll initial (committed.take (client k).revision.value) = .ok (client k).base) ∧
      (∀ j k, (client j).IsSynced → (client k).IsSynced →
        (client j).revision = (client k).revision → (client j).state = (client k).state) ∧
      ∀ k, (client k).IsSynced → (client k).revision.value = committed.length →
        a.applyAll initial committed = .ok (client k).state := by
  intro net committed client
  have inv : net.Invariant a initial := (invariant_new applies).run domain.lawful events
  have sound k : (client k).Sound a := (inv.anchored k).steady.sound
  have places k := (inv.anchored k).places
  refine ⟨inv.applies, places, ?_, ?_⟩
  · intro j k syncedJ syncedK same
    have baseJ := (places j).2
    have baseK := (places k).2
    rw [same] at baseJ
    rw [(sound j).state_eq syncedJ, (sound k).state_eq syncedK]
    exact Except.ok.inj (baseJ.symm.trans baseK)
  · intro k synced latest
    have base := (places k).2
    rw [latest, List.take_length] at base
    rw [(sound k).state_eq synced]
    exact base

def callEvents {op : Type} (client : κ) (action : Manager.Action) (answers : Nat) :
    List (Event κ op) :=
  let proceed := .act client (.proceed fun _ => none)
  .act client (.start action) ::
    (List.replicate answers [proceed, proceed, .deliver client, proceed]).flatten ++
      [.act client .release]

def rivalInsertions : List (Event Bool Text.Edit) :=
  callEvents true .checkout 1 ++ callEvents false .checkout 1 ++
    [.act true (.add [.insert 1 ['Y']]), .act false (.add [.insert 1 ['X']])] ++
    callEvents true .sync 1 ++ callEvents false .sync 2 ++ callEvents true .pull 1

theorem clients_converge_on_rivals :
    let net := (new [] [.insert 0 ['a', 'b', 'c']] : Network Bool _ _ String).run Text.algebra
      rivalInsertions
    let client k := (net.sessions k).manager
    (client true).IsSynced ∧ (client false).IsSynced ∧
      (client true).revision = (client false).revision ∧
      (client true).state = (client false).state := by
  intro net client
  have applies : Text.algebra.applyAll [] [.insert 0 ['a', 'b', 'c']] = .ok ['a', 'b', 'c'] := by
    rfl
  have syncedL : (client true).IsSynced := by decide +kernel
  have syncedR : (client false).IsSynced := by decide +kernel
  have same : (client true).revision = (client false).revision := by decide +kernel
  have converge := (clients_converge (ι := String) .text applies rivalInsertions).2.2.1
  exact ⟨syncedL, syncedR, same, converge true false syncedL syncedR same⟩

end Network

end Reconcile
