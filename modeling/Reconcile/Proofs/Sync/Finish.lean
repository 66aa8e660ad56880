import Reconcile.Proofs.Sync.Session

/-! How long a sync goes on among other clients. It pushes until its batch is taken or has vanished,
and everything that it hears takes it further along the log; so others can delay it by no more than
what they commit, and it ends soon after they pause. -/

namespace Reconcile

open Manager (Purpose Stage)

namespace Network

variable {κ σ op ι : Type} [DecidableEq κ] {a : Algebra σ op} {g : Gauge σ op}
  {net : Network κ σ op ι} {client : κ} {phase : Phase op}

def pushed (client : κ) (net : Network κ σ op ι) : Event κ op → List (Push op)
  | .act other event => if other = client then (net.sessions other).pushed event else []
  | _ => []

/-- No request of the client fails, its call is not given up, and there is room for what it hears
of. -/
def Unhindered (g : Gauge σ op) (client : κ) (net : Network κ σ op ι) : Event κ op → Prop
  | .fail other _ | .act other .release => other ≠ client
  | .act other (.proceed _) => other = client →
    ∀ news ∈ (net.sessions client).foreign, (net.sessions client).manager.HasRoom g news
  | _ => True

def Unrivalled (client : κ) (net : Network κ σ op ι) : Event κ op → Prop
  | .deliver other => other = client ∨
    (serve net.history (net.sessions other)).operations = net.history.operations
  | _ => True

instance (g : Gauge σ op) (client : κ) (net : Network κ σ op ι) :
    (e : Event κ op) → Decidable (net.Unhindered g client e)
  | .fail _ _ | .act _ .release => inferInstanceAs (Decidable (_ ≠ _))
  | .act _ (.proceed _) => inferInstanceAs (Decidable (_ → _))
  | .act _ (.add _) | .act _ .reset | .act _ .close | .act _ (.start _) | .deliver _ | .keep _
  | .restore _ _ => isTrue trivial

instance [DecidableEq op] (client : κ) (net : Network κ σ op ι) :
    (e : Event κ op) → Decidable (net.Unrivalled client e)
  | .deliver _ => inferInstanceAs (Decidable (_ ∨ _))
  | .act _ _ | .fail _ _ | .keep _ | .restore _ _ => isTrue trivial

def Event.actor : Event κ op → κ
  | .act client _ | .deliver client | .fail client _ | .keep client | .restore client _ => client

theorem sessions_step_of_ne {e : Event κ op} (others : e.actor ≠ client) :
    (net.step a e).sessions client = net.sessions client := by
  have kept (s : Session σ op ι) : update net.sessions e.actor s client = net.sessions client :=
    if_neg (Ne.symm others)
  cases e with
  | act other event => exact kept _
  | deliver other => exact kept _
  | fail other fault => exact kept _
  | keep other =>
    simp only [step]
    split <;> rfl
  | restore other slot =>
    simp only [step]
    split
    · exact kept _
    · rfl

theorem at_update {s : Session σ op ι} (standing : s.At phase) (sessions : κ → Session σ op ι) :
    (update sessions client s client).At phase := by
  rwa [update, if_pos rfl]

theorem pushed_of_ne {e : Event κ op} (others : e.actor ≠ client) : net.pushed client e = [] := by
  cases e with
  | act other event => exact if_neg others
  | _ => rfl

theorem operations_step {e : Event κ op}
    (delivered : ∀ other, e = .deliver other →
      (serve net.history (net.sessions other)).operations = net.history.operations) :
    (net.step a e).history.operations = net.history.operations := by
  cases e with
  | deliver other => exact delivered other rfl
  | keep other =>
    simp only [step]
    split <;> rfl
  | restore other slot =>
    simp only [step]
    split <;> rfl
  | _ => rfl

structure Passes (a : Algebra σ op) (client : κ) (phase : Phase op) (net : Network κ σ op ι)
    (e : Event κ op) : Prop where
  silent : net.pushed client e = []
  kept : net.Unrivalled client e → (net.step a e).history.operations = net.history.operations
  proceeds : ∀ policy, e = .act client (.proceed policy) → phase.acts = false
  delivers : e = .deliver client → phase.waits = false

theorem step_phase {initial : σ} (limited : Limited a g) (inv : net.Invariant a initial)
    (standing : (net.sessions client).At phase) {e : Event κ op}
    (unhindered : net.Unhindered g client e) :
    ∃ phase', ((net.step a e).sessions client).At phase' ∧
      (Phase.Turn a phase net.history.operations (net.pushed client e) phase'
          (net.step a e).history.operations ∨
        phase' = phase ∧ net.Passes a client phase e) := by
  have anchored := inv.anchored client
  have active := (anchored.steady.attends _ standing.stage).active
  by_cases mine : e.actor = client
  · cases e with
    | act other event =>
      obtain rfl : other = client := mine
      have kept : event ≠ .release := by
        rintro rfl
        exact unhindered rfl
      have room (policy : Retry.Policy) (h : event = .proceed policy) :
          ∀ news ∈ (net.sessions other).foreign, (net.sessions other).manager.HasRoom g news := by
        subst h
        exact unhindered rfl
      obtain ⟨phase', after, turned⟩ := standing.step limited anchored inv.applies kept room
      have mine : net.pushed other (.act other event) = (net.sessions other).pushed event :=
        if_pos rfl
      refine ⟨phase', at_update after net.sessions, ?_⟩
      rcases turned with turned | ⟨same, silent, idle⟩
      · exact .inl (mine ▸ turned)
      · refine .inr ⟨same, mine.trans silent, fun _ => rfl, ?_, by simp⟩
        rintro policy h
        exact idle policy (by simpa using h)
    | deliver other =>
      obtain rfl : other = client := mine
      obtain ⟨phase', after, turned⟩ := standing.hear (a := a) anchored.places.1
      refine ⟨phase', at_update after net.sessions, ?_⟩
      rcases turned with turned | ⟨same, unserved, idle⟩
      · exact .inl turned
      · exact .inr ⟨same, rfl, fun _ => congrArg History.operations unserved,
          by simp, fun _ => idle⟩
    | fail other fault => exact absurd mine unhindered
    | keep other =>
      have same : (net.step a (.keep other)).sessions = net.sessions := by
        simp only [Network.step]
        split <;> rfl
      rw [same]
      exact ⟨phase, standing, .inr ⟨rfl, rfl, fun _ => operations_step (by simp), by simp, by simp⟩⟩
    | restore other slot =>
      obtain rfl : other = client := mine
      have standing : ((net.step a (.restore other slot)).sessions other).At phase := by
        simp only [Network.step]
        split
        · rename_i snapshot found
          exact at_update (standing.restore active snapshot) net.sessions
        · exact standing
      exact ⟨phase, standing, .inr ⟨rfl, rfl, fun _ => operations_step (by simp), by simp, by simp⟩⟩
  · refine ⟨phase, by rwa [sessions_step_of_ne mine], .inr ⟨rfl, pushed_of_ne mine, ?_, ?_, ?_⟩⟩
    · intro quiet
      refine operations_step ?_
      rintro other rfl
      exact quiet.resolve_left mine
    · rintro policy rfl
      exact absurd rfl mine
    · rintro rfl
      exact absurd rfl mine

def pushes (a : Algebra σ op) (client : κ) :
    Network κ σ op ι → List (Event κ op) → List (Push op)
  | _, [] => []
  | net, e :: events => net.pushed client e ++ pushes a client (net.step a e) events

theorem pushes_append (earlier later : List (Event κ op)) :
    net.pushes a client (earlier ++ later) =
      net.pushes a client earlier ++ (net.run a earlier).pushes a client later := by
  induction earlier generalizing net with
  | nil => rfl
  | cons e earlier ih =>
    simp only [List.cons_append, pushes, ih, List.append_assoc]
    rfl

theorem Along.of_append {P : Network κ σ op ι → Event κ op → Prop}
    {earlier later : List (Event κ op)} (along : net.Along a P (earlier ++ later)) :
    net.Along a P earlier := by
  induction earlier generalizing net with
  | nil => trivial
  | cons e earlier ih => exact ⟨along.1, ih along.2⟩

theorem run_phase {initial : σ} (limited : Limited a g) (inv : net.Invariant a initial)
    (standing : (net.sessions client).At phase) {start : Revision} {before : List (Push op)}
    (counted : phase.Counted start before net.history.operations) {events : List (Event κ op)}
    (unhindered : net.Along a (Unhindered g client) events) :
    let after := net.run a events
    let pushed := before ++ net.pushes a client events
    ∃ phase', (after.sessions client).At phase' ∧
      phase'.Counted start pushed after.history.operations ∧
      ∀ initially, phase.Alone a initially before net.history.operations →
        net.Along a (Unrivalled client) events →
        phase'.Alone a initially pushed after.history.operations := by
  induction events generalizing net phase before with
  | nil =>
    simp only [pushes, List.append_nil]
    exact ⟨phase, standing, counted, fun initially alone _ => alone⟩
  | cons e events ih =>
    obtain ⟨now, afterwards⟩ := unhindered
    obtain ⟨mid, standing', turned⟩ := step_phase limited inv standing now
    have inv' := inv.step limited.lawful e
    have counted' : mid.Counted start (before ++ net.pushed client e)
        (net.step a e).history.operations := by
      rcases turned with turn | ⟨rfl, passes⟩
      · exact counted.turn turn
      · rw [passes.silent, List.append_nil]
        exact counted.grow (log_prefix_step net e)
    obtain ⟨phase', after, counted'', alone'⟩ := ih inv' standing' counted' afterwards
    simp only [pushes, ← List.append_assoc]
    refine ⟨phase', after, counted'', ?_⟩
    intro initially alone quiet
    refine alone' initially ?_ quiet.2
    rcases turned with turn | ⟨rfl, passes⟩
    · exact alone.turn turn
    · rw [passes.silent, List.append_nil, passes.kept quiet.1]
      exact alone

theorem length_pushes_le {initial : σ} (limited : Limited a g) (inv : net.Invariant a initial)
    (standing : (net.sessions client).At phase) {start : Revision}
    (counted : phase.Counted start [] net.history.operations) {earlier later : List (Event κ op)}
    (unhindered : net.Along a (Unhindered g client) earlier)
    (silent : (net.run a earlier).pushes a client later = []) :
    (net.pushes a client (earlier ++ later)).length ≤
      1 + ((net.run a earlier).history.operations.length - start.value) := by
  obtain ⟨phase', -, counted', -⟩ := run_phase limited inv standing counted unhindered
  have few := counted'.le
  rw [List.nil_append] at few
  rw [pushes_append, silent, List.append_nil]
  omega

def turns (client : κ) (policy : Retry.Policy) (count : Nat) : List (Event κ op) :=
  (List.replicate count [.act client (.proceed policy), .deliver client]).flatten

theorem rest_step {initial : σ} (limited : Limited a g) (inv : net.Invariant a initial)
    (standing : (net.sessions client).At phase) {e : Event κ op}
    (unhindered : net.Unhindered g client e) (quiet : net.Unrivalled client e) :
    ∃ phase', ((net.step a e).sessions client).At phase' ∧
      (phase'.rest (net.step a e).history.operations < phase.rest net.history.operations ∨
        phase' = phase ∧ net.Passes a client phase e ∧
          (net.step a e).history.operations = net.history.operations) := by
  obtain ⟨phase', after, turned⟩ := step_phase limited inv standing unhindered
  refine ⟨phase', after, ?_⟩
  rcases turned with turn | ⟨same, passes⟩
  · exact .inl (Phase.rest_lt_of_turn turn)
  · exact .inr ⟨same, passes, passes.kept quiet⟩

theorem rest_turns {initial : σ} (limited : Limited a g) (inv : net.Invariant a initial)
    (standing : (net.sessions client).At phase) {policy : Retry.Policy} {count : Nat}
    (unhindered : net.Along a (Unhindered g client) (turns client policy count)) :
    let after := net.run a (turns client policy count)
    ∃ phase', (after.sessions client).At phase' ∧
      phase'.rest after.history.operations ≤ phase.rest net.history.operations - count := by
  induction count generalizing net phase with
  | zero => exact ⟨phase, standing, Nat.le_refl _⟩
  | succ count ih =>
    obtain ⟨now, then', afterwards⟩ := unhindered
    obtain ⟨mid, standing', moved⟩ := rest_step limited inv standing now trivial
    have inv' := inv.step limited.lawful (.act client (.proceed policy))
    obtain ⟨last, standing'', heard⟩ := rest_step limited inv' standing' then' (.inl rfl)
    obtain ⟨phase', after, fewer⟩ :=
      ih (inv'.step limited.lawful (.deliver client)) standing'' afterwards
    refine ⟨phase', after, Nat.le_trans fewer ?_⟩
    rcases moved with moved | ⟨rfl, passed, same⟩
    · rcases heard with heard | ⟨rfl, -, same'⟩
      · omega
      · rw [same']
        omega
    · rw [same] at heard
      rcases heard with heard | ⟨rfl, passed', same'⟩
      · omega
      · have own := passed.proceeds policy rfl
        have others := passed'.delivers rfl
        -- Only a sync that is over waits for neither.
        cases last <;> simp [Phase.acts, Phase.waits, Phase.rest] at own others ⊢

theorem isSome_result_turns {initial : σ} (limited : Limited a g) (inv : net.Invariant a initial)
    (standing : (net.sessions client).At phase) {policy : Retry.Policy}
    (unhindered : net.Along a (Unhindered g client) (turns client policy 9)) :
    ((net.run a (turns client policy 9)).sessions client).result.isSome = true := by
  obtain ⟨phase', finished, few⟩ := rest_turns limited inv standing unhindered
  have most := phase.rest_le net.history.operations
  exact finished.isSome_result (Nat.eq_zero_of_le_zero (Nat.le_trans few (by omega)))

theorem conflict_moves {initial : σ} {start made revision : Revision} {before : List (Push op)}
    {batch news : List op} {failures : UInt32} (limited : Limited a g)
    (inv : net.Invariant a initial)
    (standing : (net.sessions client).At phase)
    (counted : phase.Counted start before net.history.operations)
    (heard : (net.sessions client).stage = some (.heard ⟨.push made batch, failures⟩
      (.ok (.conflict news revision)))) :
    (net.sessions client).manager.revision.value < revision.value ∧
      ∀ policy, net.Unhindered g client (.act client (.proceed policy)) →
        ((net.step a (.act client (.proceed policy))).sessions client).manager.revision =
          revision := by
  obtain ⟨rfl, rfl⟩ := standing.of_conflict heard
  constructor
  · obtain ⟨-, nonempty, -⟩ := counted
    have more := List.length_pos_of_ne_nil nonempty
    simp only [standing.fits.1, Revision.advance]
    omega
  · intro policy unhindered
    obtain ⟨phase', after, turn | ⟨-, passed⟩⟩ := step_phase limited inv standing unhindered
    · generalize net.pushed client _ = new at turn
      cases turn with
      | rebases push log crossed left | vanishes push log crossed nothing => exact after.fits.1
    · cases passed.proceeds policy rfl

/-- A sync of a client that is free to begin one, with any number of clients that go on around it.
It ends where it begins if nothing is queued. Otherwise each conflict takes it on to a later
revision, so that it has pushed at most once more than the log, when it pushed last, had operations
that were new to it at the start. It only ends well, unless it is closed, and it does end when it is
left alone. If nobody else commits anything it pushes twice at most, and what it pushes last is what
the log grows by. -/
theorem sync_finishes (limited : Limited a g) {initial reached : σ} {log : List op}
    (applies : a.applyAll initial log = .ok reached) (events : List (Event κ op)) (client : κ) :
    let net := (new initial log : Network κ σ op ι).run a events
    let m := (net.sessions client).manager
    let begun := net.step a (.act client (.start .sync))
    m.ensureCheckedOut = .ok () → m.activity = none → m.rejected = [] →
      (∀ result, (m.start a .sync).2 = .ended result →
        result = .ok 0 ∧ (begun.sessions client).manager.inflight = []) ∧
      ∀ call, (m.start a .sync).2 = .asking call →
        ∀ during, begun.Along a (Unhindered g client) during →
          let after := begun.run a during
          let s := after.sessions client
          let committed := after.history.operations
          let pushes := begun.pushes a client during
          (∀ made batch failures news revision,
            s.stage = some (.heard ⟨.push made batch, failures⟩ (.ok (.conflict news revision))) →
              s.manager.revision.value < revision.value ∧
              ∀ policy, after.Unhindered g client (.act client (.proceed policy)) →
                ((after.step a (.act client (.proceed policy))).sessions client).manager.revision =
                  revision) ∧
          (∀ earlier later, during = earlier ++ later →
            (begun.run a earlier).pushes a client later = [] → pushes.length ≤
              1 + ((begun.run a earlier).history.operations.length - m.revision.value)) ∧
          (s.result.isSome = true → s.manager.closed = false →
            s.result = some (.ok 0) ∧ s.manager.inflight = []) ∧
          (∀ policy, after.Along a (Unhindered g client) (turns client policy 9) →
            ((after.run a (turns client policy 9)).sessions client).result.isSome = true) ∧
          (begun.Along a (Unrivalled client) during → pushes.length ≤ 2 ∧
            (s.result.isSome = true → s.manager.closed = false →
              s.manager.revision.value = committed.length ∧
              a.applyAll initial committed = .ok s.manager.base ∧
              ∃ last, pushes.getLast? = some last ∧
                (committed = net.history.operations ++ last.batch ∨
                  committed = net.history.operations ∧ ∃ d, a.transform last.batch
                    (net.history.operations.drop last.made.value) = .ok d ∧ d.left = []))) := by
  intro net m begun known free reported
  have inv : net.Invariant a initial := (invariant_new applies).run limited.lawful events
  have invBegun : begun.Invariant a initial := inv.step limited.lawful _
  have within := (inv.anchored client).places.1
  rcases Session.at_start (a := a) known free reported with ⟨ended, empty⟩ | ⟨batch, asks, standing⟩
  · refine ⟨?_, fun call asking => absurd (ended.symm.trans asking) (by simp)⟩
    intro result h
    obtain rfl := Manager.Start.ended.inj (ended.symm.trans h)
    refine ⟨rfl, ?_⟩
    simpa only [begun, Network.step, update, if_pos] using empty
  · refine ⟨fun result h => absurd (asks.symm.trans h) (by simp), ?_⟩
    intro call asking during unhindered after s committed pushes
    have standing : (begun.sessions client).At (.asking ⟨m.revision, batch⟩) :=
      at_update standing net.sessions
    have counted : (Phase.asking ⟨m.revision, batch⟩).Counted m.revision []
        begun.history.operations := ⟨by simp, within⟩
    have bounded (earlier later : List (Event κ op)) (split : during = earlier ++ later)
        (silent : (begun.run a earlier).pushes a client later = []) : pushes.length ≤
          1 + ((begun.run a earlier).history.operations.length - m.revision.value) := by
      subst split
      exact length_pushes_le limited invBegun standing counted unhindered.of_append silent
    obtain ⟨phase, standing, counted, alone⟩ :=
      run_phase limited invBegun standing counted unhindered
    have invAfter : after.Invariant a initial := invBegun.run limited.lawful during
    refine ⟨?_, bounded, ?_, ?_, ?_⟩
    · intro made batch failures news revision heard
      exact conflict_moves limited invAfter standing counted heard
    · exact fun ended isOpen => (standing.of_result ended isOpen).2
    · exact fun policy unhindered => isSome_result_turns limited invAfter standing unhindered
    · intro quiet
      have alone := alone net.history.operations ⟨rfl, .inl rfl⟩ quiet
      refine ⟨alone.le_two, ?_⟩
      intro ended isOpen
      obtain ⟨rfl, -⟩ := standing.of_result ended isOpen
      obtain ⟨-, latest, last, pushed, became⟩ := alone
      have base := (invAfter.anchored client).places.2
      rw [latest, List.take_length] at base
      exact ⟨latest, base, last, pushed, became⟩

theorem sync_finishes_on_rivals :
    let earlier : List (Event Bool Text.Edit) :=
      callEvents true .checkout 1 ++ callEvents false .checkout 1 ++
        [.act true (.add [.insert 1 ['Y']]), .act false (.add [.insert 1 ['X']])] ++
        callEvents true .sync 1
    let policy : Retry.Policy := fun _ => none
    let during : List (Event Bool Text.Edit) :=
      turns false policy 1 ++ .act false (.add [.insert 0 ['!']]) :: turns false policy 4
    let shared : Network Bool Text.Document Text.Edit String := new [] [.insert 0 ['a', 'b', 'c']]
    let net := shared.run Text.algebra earlier
    let begun := net.step Text.algebra (.act false (.start .sync))
    let after := begun.run Text.algebra during
    let s := after.sessions false
    let pushes := begun.pushes Text.algebra false during
    pushes.map Push.made = [⟨1⟩, ⟨2⟩] ∧ s.manager.pending = [.insert 0 ['!']] ∧
      s.result = some (.ok 0) ∧ s.manager.inflight = [] ∧ pushes.length ≤ 2 ∧
      s.manager.revision.value = after.history.operations.length := by
  intro earlier policy during
  have applies : Text.algebra.applyAll [] [.insert 0 ['a', 'b', 'c']] = .ok ['a', 'b', 'c'] := by
    rfl
  obtain ⟨ends, goesOn⟩ := sync_finishes (ι := String) .text applies earlier false
    (Manager.ensureCheckedOut_eq_ok.2
      ⟨Manager.ensureOpen_eq_ok.2 ⟨by decide +kernel, by decide +kernel⟩, by decide +kernel⟩)
    (by decide +kernel) (by decide +kernel)
  generalize (Manager.start Text.algebra _ .sync).2 = started at ends goesOn
  cases started with
  | ended result => exact absurd (ends result rfl).2 (by decide +kernel)
  | asking call =>
    obtain ⟨-, -, well, -, alone⟩ := goesOn call rfl during (by decide +kernel)
    obtain ⟨few, atLast⟩ := alone (by decide +kernel)
    obtain ⟨ended, empty⟩ := well (by decide +kernel) (by decide +kernel)
    exact ⟨by decide +kernel, by decide +kernel, ended, empty, few,
      (atLast (by decide +kernel) (by decide +kernel)).1⟩

end Network

end Reconcile
