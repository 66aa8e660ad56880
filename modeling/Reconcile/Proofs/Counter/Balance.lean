import Mathlib
import Reconcile.Proofs.Counter
import Reconcile.Proofs.Ledger

/-! The balance of counters: what the log and the queues of all clients add up to changes only by
what clients add and by what they discard. -/

namespace Reconcile

open Manager (Call Purpose Stage)

namespace Session

variable {ι : Type} {s : Session Int Int ι}

/-- No sum that an event makes a counter compute leaves the range: those of the operations added to
the state, and those of the news and of what is queued on top of them. -/
def Fits (s : Session Int Int ι) : Event Int → Prop
  | .add ops => s.manager.closed = false → Counter.Contained s.manager.state ops
  | .proceed _ => ∀ ops ∈ s.news, Counter.Contained s.manager.base (ops ++ s.uncommitted)
  | _ => True

instance (s : Session Int Int ι) : (e : Event Int) → Decidable (s.Fits e)
  | .add _ => inferInstanceAs (Decidable (_ → _))
  | .proceed _ => inferInstanceAs (Decidable (∀ ops ∈ s.news, _))
  | .reset | .close | .start _ | .release => isTrue trivial

theorem sum_add {ops : List Int} (fits : s.Fits (.add ops)) :
    (s.step Counter.algebra (.add ops)).uncommitted.sum =
      s.uncommitted.sum + (s.added (.add ops)).sum := by
  simp only [step, added, Manager.add]
  split
  · simp
  · rename_i isOpen
    have fits : Counter.Contained s.manager.state ops := fits (by simpa using isOpen)
    simp only [uncommitted, fits.offer]
    split
    · simp only [List.sum_append, Counter.sum_filter]
    · simp only [List.sum_append, Counter.sum_filter]
      omega

theorem sum_reset : (s.step Counter.algebra .reset).uncommitted.sum =
    s.uncommitted.sum - (s.discarded Counter.algebra .reset).sum := by
  obtain ⟨inflight, pending⟩ := s.manager.reset_queues (a := Counter.algebra)
  simp only [step, discarded, uncommitted, inflight, pending]
  cases (s.manager.reset Counter.algebra).1 <;> split <;> simp

theorem sum_close : (s.step Counter.algebra .close).uncommitted.sum = s.uncommitted.sum := by
  simp only [step, Manager.close]
  split <;> rfl

theorem Attentive.sum_start (attentive : s.Attentive) (action : Manager.Action) :
    (s.step Counter.algebra (.start action)).uncommitted.sum = s.uncommitted.sum := by
  have begun := Manager.begins (a := Counter.algebra) (m := s.manager) action
  have idle := attentive.idle
  simp only [Session.step]
  generalize s.manager.start Counter.algebra action = started at *
  cases begun with
  | ended rejected result => rfl
  | vanished nothing empty =>
    have zero := Counter.sum_squashAll s.manager.pending
    rw [empty] at zero
    simp only [uncommitted, nothing, empty]
    split <;> simpa using zero
  | checkout free unknown =>
    simp [uncommitted, idle free, Stage.isTaken]
  | pull free known =>
    simp [uncommitted, idle free, Stage.isTaken]
  | push free known =>
    simp [uncommitted, idle free, Stage.isTaken]
  | squash free known nothing =>
    simp [uncommitted, idle free, Stage.isTaken, nothing, Counter.sum_squashAll]

theorem sum_answered {policy : Retry.Policy} {call : Call Int} {response : call.purpose.Response}
    (outstanding : s.stage = some (.heard call (.ok response)))
    (current : s.manager.Current call.purpose)
    (fits : s.manager.heeds call.purpose = true → Counter.Contained s.manager.base
      ((call.purpose.news response).operations ++ s.uncommitted)) :
    ((s.manager.answered Counter.algebra policy call (.ok response)).manager.inflight ++
      (s.manager.answered Counter.algebra policy call (.ok response)).manager.pending).sum =
        s.uncommitted.sum := by
  have untouched (h : Stage.isTaken (.heard call (.ok response)) = false) :
      s.uncommitted = s.manager.inflight ++ s.manager.pending :=
    uncommitted_of_not_taken (by rw [outstanding]; exact h)
  match call, response with
  | ⟨.checkout, failures⟩, pulled =>
    rw [untouched rfl] at fits ⊢
    refine Counter.sum_checkedOutWith (m := { s.manager with retrying := false }) fun isOpen =>
      fits ?_
    obtain ⟨open_, running⟩ := Manager.ensureOpen_eq_ok.1 isOpen
    simp_all [Manager.heeds]
  | ⟨.pull since, failures⟩, pulled =>
    rw [untouched rfl] at fits ⊢
    exact Counter.sum_pulledSince (m := { s.manager with retrying := false }) (fits rfl) since
  | ⟨.push made batch, failures⟩, .conflict operations revision =>
    rw [untouched rfl] at fits ⊢
    exact Counter.sum_rebase (m := { s.manager with retrying := false }) (fits rfl) revision
  | ⟨.push made batch, failures⟩, .accepted revision =>
    obtain ⟨-, -, rfl⟩ := current
    have pending : s.uncommitted = s.manager.pending := by
      rw [uncommitted, outstanding]
      rfl
    have fits := (Counter.contained_append.1 (fits rfl)).1
    obtain ⟨noneInflight, samePending⟩ :=
      Counter.queues_accepted (m := { s.manager with retrying := false }) fits revision
    have answered : s.manager.answered Counter.algebra policy
        ⟨.push made s.manager.inflight, failures⟩ (.ok (.accepted revision)) =
      { s.manager with retrying := false }.pushedWith Counter.algebra (.accepted revision) := rfl
    rw [answered, noneInflight, samePending, pending, List.nil_append]

theorem Attentive.sum_proceed (attentive : s.Attentive) {policy : Retry.Policy}
    (fits : s.Fits (.proceed policy)) :
    (s.step Counter.algebra (.proceed policy)).uncommitted.sum = s.uncommitted.sum := by
  simp only [Session.step]
  split
  · rename_i stage outstanding
    have attends := attentive.attends stage outstanding
    cases stage with
    | asking call =>
      simp only [Manager.proceed]
      split <;> simp [uncommitted, outstanding, Stage.isTaken]
    | sent call => simp [uncommitted, outstanding, Manager.proceed, Stage.isTaken]
    | heard call answer =>
      cases answer with
      | error fault =>
        obtain ⟨inflight, pending⟩ :=
          s.manager.queues_answered_error (a := Counter.algebra) policy call fault
        simp [uncommitted, outstanding, Manager.proceed, Stage.isTaken, inflight, pending]
      | ok response =>
        refine sum_answered outstanding attends.2 fun heeded => fits _ ?_
        simp [news, outstanding, heeded]
    | settled next =>
      cases next <;> simp [uncommitted, outstanding, Manager.proceed, Stage.isTaken]
  · rfl

theorem sum_release (quiet : ¬s.IsPushing) :
    (s.step Counter.algebra .release).uncommitted.sum = s.uncommitted.sum := by
  rw [uncommitted_of_not_pushing quiet]
  rfl

theorem Attentive.sum_step (attentive : s.Attentive) {e : Event Int} (fits : s.Fits e)
    (quiet : e = .release → ¬s.IsPushing) :
    (s.step Counter.algebra e).uncommitted.sum =
      s.uncommitted.sum + (s.added e).sum - (s.discarded Counter.algebra e).sum := by
  cases e with
  | add ops => simpa [discarded] using sum_add fits
  | reset => simpa [added] using s.sum_reset
  | close => simpa [added, discarded] using s.sum_close
  | start action => simpa [added, discarded] using attentive.sum_start action
  | proceed policy => simpa [added, discarded] using attentive.sum_proceed fits
  | release => simpa [added, discarded] using sum_release (quiet rfl)

end Session

namespace Network

variable {κ σ op ι : Type} {a : Algebra σ op}

def Fits (net : Network κ Int Int ι) : Event κ Int → Prop
  | .act client event => (net.sessions client).Fits event
  | _ => True

instance (net : Network κ Int Int ι) : (e : Event κ Int) → Decidable (net.Fits e)
  | .act client event => inferInstanceAs (Decidable ((net.sessions client).Fits event))
  | .deliver _ | .fail _ _ | .keep _ | .restore _ _ => isTrue trivial

def counters (initial : κ → Int) (log : List Int) : Network κ Int Int ι :=
  ⟨⟨log⟩, fun k => .new (initial k), []⟩

variable [DecidableEq κ]

variable [Fintype κ]

/-- What the log and all that is queued besides add up to. -/
def balance (net : Network κ Int Int ι) : Int :=
  net.history.operations.sum + ∑ k, (net.sessions k).uncommitted.sum

theorem sum_update (f : Session σ op ι → Int) (sessions : κ → Session σ op ι) (client : κ)
    (s : Session σ op ι) : ∑ k, f (update sessions client s k) =
      ∑ k, f (sessions k) + (f s - f (sessions client)) := by
  have pointwise (k : κ) : f (update sessions client s k) =
      Function.update (fun k => f (sessions k)) client (f s) k := by
    by_cases same : k = client
    · subst same
      simp [update]
    · simp [update, same]
  have member := Finset.mem_univ client
  simp only [pointwise]
  rw [Finset.sum_update_of_mem member, ← Finset.add_sum_erase _ _ member,
    Finset.sdiff_singleton_eq_erase]
  omega

variable {net : Network κ Int Int ι}

theorem balance_update (client : κ) (s : Session Int Int ι) :
    balance { net with sessions := update net.sessions client s } =
      net.balance + s.uncommitted.sum - (net.sessions client).uncommitted.sum := by
  have moved := sum_update (fun s => s.uncommitted.sum) net.sessions client s
  simp only [balance]
  omega

theorem balance_step (attentive : ∀ k, (net.sessions k).Attentive) {e : Event κ Int}
    (fits : net.Fits e) (orderly : net.Orderly e) :
    (net.step Counter.algebra e).balance =
      net.balance + (net.added e).sum - (net.discarded Counter.algebra e).sum := by
  cases e with
  | act client event =>
    have quiet : event = .release → ¬(net.sessions client).IsPushing := by
      rintro rfl
      exact orderly
    have stepped := (attentive client).sum_step fits quiet
    simp only [step, balance_update, added, discarded]
    omega
  | deliver client =>
    obtain ⟨batch, grown, queued⟩ := (attentive client).taken net.history
    have moved := sum_update (fun s => s.uncommitted.sum) net.sessions client
      ((net.sessions client).hear fun purpose => (net.history.answer purpose).1)
    simp only [queued, List.sum_append] at moved
    simp only [step, balance, grown, List.sum_append, moved, added, discarded, List.sum_nil]
    omega
  | fail client fault =>
    simp only [step, balance_update, Session.uncommitted_fail, added, discarded, List.sum_nil]
    omega
  | keep client =>
    have same : (net.step Counter.algebra (.keep client)).balance = net.balance := by
      simp only [step]
      split <;> rfl
    simpa [added, discarded] using same
  | restore client slot => exact orderly.elim

theorem balance_run (attentive : ∀ k, (net.sessions k).Attentive) {events : List (Event κ Int)}
    (fits : net.Along Counter.algebra Fits events)
    (orderly : net.Along Counter.algebra Orderly events) :
    (net.run Counter.algebra events).balance =
      net.balance + (net.collect Counter.algebra added events).sum -
        (net.collect Counter.algebra (discarded Counter.algebra) events).sum := by
  induction events generalizing net with
  | nil => simp [run, collect]
  | cons e events ih =>
    have first := balance_step attentive fits.1 orderly.1
    have rest := ih (attentive_step attentive e) fits.2 orderly.2
    simp only [collect, List.sum_append]
    simp only [run, List.foldl_cons] at rest ⊢
    omega

/-- Whenever no push is outstanding, what the log and the queues of all clients add up to is what
the log began with and what clients have added to open counters, less what they have discarded: no
addition is lost on its way into the log, and none gets there twice. -/
theorem additions_are_conserved {initial : κ → Int} {log : List Int} {events : List (Event κ Int)}
    (fits : (counters initial log : Network κ Int Int ι).Along Counter.algebra Fits events)
    (orderly : (counters initial log : Network κ Int Int ι).Along Counter.algebra Orderly events)
    (quiet : ∀ k, ¬(((counters initial log : Network κ Int Int ι).run Counter.algebra
      events).sessions k).IsPushing) :
    let start : Network κ Int Int ι := counters initial log
    let net := start.run Counter.algebra events
    net.history.operations.sum + ∑ k, ((net.sessions k).manager.inflight.sum +
        (net.sessions k).manager.pending.sum) =
      log.sum + (start.collect Counter.algebra added events).sum -
        (start.collect Counter.algebra (discarded Counter.algebra) events).sum := by
  intro start net
  have balanced := balance_run (fun k => Session.attentive_new (initial k)) fits orderly
  have begun : start.balance = log.sum := by
    simp [start, balance, counters, Session.uncommitted, Session.new, Manager.new]
  have ended : net.balance = net.history.operations.sum +
      ∑ k, ((net.sessions k).manager.inflight.sum + (net.sessions k).manager.pending.sum) := by
    simp only [balance, Session.uncommitted_of_not_pushing (quiet _), List.sum_append, net, start]
  rw [begun] at balanced
  rw [← ended]
  exact balanced

def contestedAdditions : List (Event Bool Int) :=
  let proceed : Event Bool Int := .act false (.proceed fun _ => none)
  callEvents true .checkout 1 ++ callEvents false .checkout 1 ++
    [.act true (.add [5]), .act false (.add [2, 3])] ++ callEvents true .sync 1 ++
    [.act false (.start .sync), proceed, .act false (.add [7]), .deliver false, proceed, proceed,
      proceed, .deliver false, proceed, .act false .release, .act false .reset]

theorem additions_are_conserved_when_contested :
    let start : Network Bool Int Int String := counters (fun _ => 0) [10]
    let net := start.run Counter.algebra contestedAdditions
    net.history.operations.sum + ∑ k, ((net.sessions k).manager.inflight.sum +
        (net.sessions k).manager.pending.sum) =
      [10].sum + (start.collect Counter.algebra added contestedAdditions).sum -
        (start.collect Counter.algebra (discarded Counter.algebra) contestedAdditions).sum := by
  have fits : (counters (fun _ => 0) [10] : Network Bool Int Int String).Along Counter.algebra Fits
      contestedAdditions := by
    decide +kernel
  have orderly : (counters (fun _ => 0) [10] : Network Bool Int Int String).Along Counter.algebra
      Orderly contestedAdditions := by
    decide +kernel
  have quiet : ∀ k, ¬(((counters (fun _ => 0) [10] : Network Bool Int Int String).run
      Counter.algebra contestedAdditions).sessions k).IsPushing := by
    decide +kernel
  exact additions_are_conserved fits orderly quiet

end Network

end Reconcile
