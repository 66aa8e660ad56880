import Reconcile.Proofs.Manager.Atomic

/-! Requests that are tried again. What a call asks the server it asks in the very same words until
an attempt comes out otherwise than by a network failure, or the policy gives up; it waits as the
policy says in between, and the last attempt decides. A failure leaves the committed state, the
revision and the batch where they were, whatever was done to the manager while the call waited. -/

namespace Reconcile

open Manager (Call Next Purpose Stage Undisturbed)

namespace Retry

def again? {α : Type} (policy : Policy) (attempt : Nat) : Except TransportFault α → Option Nat
  | .error (.network _) => policy attempt
  | _ => none

/-- The first attempt that is not followed by another one; attempts are counted from one. -/
structure Last {α : Type} (policy : Policy) (outcome : Nat → Except TransportFault α) (k : Nat) :
    Prop where
  pos : 0 < k
  ends : again? policy k (outcome k) = none
  earlier : ∀ n, 0 < n → n < k → again? policy n (outcome n) ≠ none

def lastError (attempts : Nat) : TransportFault → SyncError
  | .network reason => .retriesExhausted attempts reason
  | .auth reason => .auth reason
  | .protocol reason => .protocol reason

variable {α : Type} {policy : Policy} {outcome : Nat → Except TransportFault α} {k n : Nat}

theorem again?_eq_some {delay : Nat} {answer : Except TransportFault α} :
    again? policy n answer = some delay ↔
      policy n = some delay ∧ ∃ reason, answer = .error (.network reason) := by
  match answer with
  | .error (.network reason) => simp [again?]
  | .error (.auth reason) | .error (.protocol reason) | .ok _ => simp [again?]

theorem Last.le (last : Last policy outcome k) (pos : 0 < n)
    (ends : again? policy n (outcome n) = none) : k ≤ n :=
  Nat.le_of_not_lt fun before => last.earlier n pos before ends

theorem Last.le_max {delay most : Nat}
    (last : Last (FixedDelay.nextDelay ⟨delay, some most⟩) outcome k) : k ≤ max most 1 := by
  refine last.le (by omega) ?_
  have given : FixedDelay.nextDelay ⟨delay, some most⟩ (max most 1) = none :=
    if_pos (Nat.le_max_left most 1)
  cases again : again? (FixedDelay.nextDelay ⟨delay, some most⟩) (max most 1) (outcome _) with
  | none => rfl
  | some wait => cases given.symm.trans (again?_eq_some.1 again).1

end Retry

namespace Manager

open Retry (again? lastError)

variable {σ op ι : Type} {a : Algebra σ op} {m : Manager σ op ι} {policy : Retry.Policy}
  {purpose : Purpose op} {answer : Except TransportFault purpose.Response} {count delay : Nat}

abbrev Call.after (purpose : Purpose op) (count : Nat) : Call op := ⟨purpose, .ofNat count⟩

def Next.IsFinal : Next op → Prop
  | .wait _ _ => False
  | _ => True

theorem Call.after_succ (purpose : Purpose op) (count : Nat) :
    Call.after purpose (count + 1) = ⟨purpose, .ofNat count + 1⟩ := by
  rw [Call.after, UInt32.ofNat_add]
  rfl

theorem Call.attempt_after (purpose : Purpose op) {count : Nat}
    (fits : Width.Unsigned32 (count + 1)) : (Call.after purpose count).attempt = count + 1 := by
  rw [Call.attempt, ← UInt32.toNat_ofNat_of_lt' fits, UInt32.ofNat_add]
  rfl

theorem answered_again (fits : Width.Unsigned32 (count + 1))
    (again : again? policy (count + 1) answer = some delay) :
    m.answered a policy (.after purpose count) answer =
      ⟨{ m with retrying := true }, none, .wait delay (.after purpose (count + 1))⟩ := by
  obtain ⟨given, reason, rfl⟩ := Retry.again?_eq_some.1 again
  change m.failed policy (.after purpose count) (.network reason) = _
  simp only [failed, Call.attempt_after purpose fits, given, Call.after_succ]

theorem failed_last (fits : Width.Unsigned32 (count + 1)) {fault : TransportFault}
    (last : again? policy (count + 1)
      (.error fault : Except TransportFault purpose.Response) = none) :
    (m.failed policy (.after purpose count) fault).next =
        .ended (.error (lastError (count + 1) fault)) ∧
      Undisturbed m (m.failed policy (.after purpose count) fault).manager := by
  cases fault with
  | network reason =>
    have given : policy (count + 1) = none := last
    simp only [failed, Call.attempt_after purpose fits, given]
    exact ⟨rfl, rfl, rfl, rfl, rfl, rfl⟩
  | auth reason => exact ⟨rfl, rfl, rfl, rfl, rfl, rfl⟩
  | protocol reason => exact ⟨rfl, rfl, rfl, rfl, rfl, rfl⟩

theorem answered_last (fits : Width.Unsigned32 (count + 1))
    (last : again? policy (count + 1) answer = none) :
    (m.answered a policy (.after purpose count) answer).next.IsFinal := by
  cases answer with
  | error fault =>
    change (m.failed policy (.after purpose count) fault).next.IsFinal
    rw [(failed_last fits last).1]
    trivial
  | ok response =>
    match purpose, response with
    | .checkout, pulled =>
      change ({ m with retrying := false }.checkedOutWith a pulled).next.IsFinal
      simp only [checkedOutWith]
      split <;> trivial
    | .pull since, pulled =>
      change ({ m with retrying := false }.pulledSince a since pulled).next.IsFinal
      simp only [pulledSince]
      split <;> trivial
    | .push made batch, .accepted revision =>
      change ({ m with retrying := false }.pushedWith a (.accepted revision)).next.IsFinal
      simp only [pushedWith]
      split <;> trivial
    | .push made batch, .conflict operations revision =>
      change ({ m with retrying := false }.pushedWith a
        (.conflict operations revision)).next.IsFinal
      simp only [pushedWith]
      split
      · trivial
      · split <;> trivial

end Manager

namespace Shared

open Manager (Next.IsFinal)
open Retry (again? lastError Last)

abbrev Outcomes (op : Type) :=
  Nat → (purpose : Purpose op) → Except TransportFault purpose.Response

variable {σ op ι : Type} {a : Algebra σ op} {s t : Shared σ op ι} {origin m n : Manager σ op ι}
  {policy : Retry.Policy} {outcome : Outcomes op} {purpose : Purpose op} {stage : Stage op}
  {requests : List (Call op)} {delays : List Nat}

def delayed (a : Algebra σ op) (s : Shared σ op ι) : Event σ op ι → List Nat
  | .proceed slot policy =>
    match s.calls[slot]? with
    | some (.heard call answer) =>
      match (s.manager.answered a policy call answer).next with
      | .wait delay _ => [delay]
      | _ => []
    | _ => []
  | _ => []

def GoesOn (s : Shared σ op ι) : Prop := s.calls = [.settled .pushAgain]

instance [DecidableEq op] (s : Shared σ op ι) : Decidable s.GoesOn :=
  inferInstanceAs (Decidable (_ = _))

/-- The call in progress follows the policy and is answered as the transport decides; it is not
given up, and does not go on to its next request. -/
def Within (policy : Retry.Policy) (outcome : Outcomes op) (s : Shared σ op ι) :
    Event σ op ι → Prop
  | .proceed slot p => slot = 0 → p = policy ∧ ¬s.GoesOn
  | .hear slot answer => slot = 0 → ∀ call, s.calls = [.sent call] →
    answer call.purpose = outcome call.attempt call.purpose
  | .release slot => slot ≠ 0
  | _ => True

def attempts (purpose : Purpose op) (count : Nat) : List (Call op) :=
  (List.range count).map (.after purpose)

theorem attempts_succ (purpose : Purpose op) (count : Nat) :
    attempts purpose (count + 1) = attempts purpose count ++ [.after purpose count] := by
  simp [attempts, List.range_succ]

def Waited (policy : Retry.Policy) (outcome : Outcomes op) (purpose : Purpose op) (count : Nat)
    (delays : List Nat) : Prop :=
  delays.map some = (List.range count).map fun n => again? policy (n + 1) (outcome (n + 1) purpose)

theorem Waited.snoc {count delay : Nat} (waited : Waited policy outcome purpose count delays)
    (again : again? policy (count + 1) (outcome (count + 1) purpose) = some delay) :
    Waited policy outcome purpose (count + 1) (delays ++ [delay]) := by
  rw [Waited, List.map_append, waited, List.range_succ, List.map_append]
  simp [again]

theorem Waited.again_ne_none {count n : Nat} (waited : Waited policy outcome purpose count delays)
    (before : n < count) : again? policy (n + 1) (outcome (n + 1) purpose) ≠ none := by
  intro last
  have present : none ∈ delays.map some := by
    rw [waited]
    exact List.mem_map.2 ⟨n, List.mem_range.2 before, last⟩
  simp at present

theorem Waited.policy_eq {count : Nat} (waited : Waited policy outcome purpose count delays) :
    delays.map some = (List.range count).map fun n => policy (n + 1) := by
  rw [waited]
  refine List.map_congr_left fun n before => ?_
  obtain ⟨delay, again⟩ := Option.ne_none_iff_exists'.1
    (waited.again_ne_none (List.mem_range.1 before))
  rw [again, (Retry.again?_eq_some.1 again).1]

theorem Waited.lt {count k : Nat} (waited : Waited policy outcome purpose count delays)
    (last : Last policy (fun n => outcome n purpose) k) : count < k := by
  refine Nat.lt_of_not_le fun beyond => ?_
  obtain ⟨n, rfl⟩ : ∃ n, k = n + 1 := ⟨k - 1, by have := last.pos; omega⟩
  exact waited.again_ne_none (Nat.lt_of_succ_le beyond) last.ends

theorem Waited.fits {count k : Nat} (waited : Waited policy outcome purpose count delays)
    (last : Last policy (fun n => outcome n purpose) k) (fits : Width.Unsigned32 k) :
    Width.Unsigned32 (count + 1) :=
  Nat.lt_of_le_of_lt (waited.lt last) fits

/-- Where a request stands that a call has begun on a manager, and what it has come to so far: the
attempts, and the waits between them. -/
inductive Stands (a : Algebra σ op) (policy : Retry.Policy) (outcome : Outcomes op)
    (purpose : Purpose op) (origin : Manager σ op ι) :
    Manager σ op ι → Stage op → List (Call op) → List Nat → Prop
  | asking {m : Manager σ op ι} {delays : List Nat} (count : Nat) (same : Undisturbed origin m)
      (waited : Waited policy outcome purpose count delays) :
    Stands a policy outcome purpose origin m (.asking (.after purpose count))
      (attempts purpose count) delays
  | sent {m : Manager σ op ι} {delays : List Nat} (count : Nat) (same : Undisturbed origin m)
      (waited : Waited policy outcome purpose count delays) :
    Stands a policy outcome purpose origin m (.sent (.after purpose count))
      (attempts purpose (count + 1)) delays
  | heard {m : Manager σ op ι} {delays : List Nat} (count : Nat) (same : Undisturbed origin m)
      (waited : Waited policy outcome purpose count delays) :
    Stands a policy outcome purpose origin m
      (.heard (.after purpose count) (outcome (count + 1) purpose))
      (attempts purpose (count + 1)) delays
  | waiting {m : Manager σ op ι} {delays : List Nat} (count delay : Nat)
      (same : Undisturbed origin m)
      (waited : Waited policy outcome purpose (count + 1) delays) :
    Stands a policy outcome purpose origin m (.settled (.wait delay (.after purpose (count + 1))))
      (attempts purpose (count + 1)) delays
  | final {m n : Manager σ op ι} {delays : List Nat} (count : Nat) (same : Undisturbed origin m)
      (waited : Waited policy outcome purpose count delays)
      (last : again? policy (count + 1) (outcome (count + 1) purpose) = none)
      (after : Undisturbed
        (m.answered a policy (.after purpose count) (outcome (count + 1) purpose)).manager n) :
    Stands a policy outcome purpose origin n
      (.settled (m.answered a policy (.after purpose count) (outcome (count + 1) purpose)).next)
      (attempts purpose (count + 1)) delays

theorem Stands.undisturbed (stands : Stands a policy outcome purpose origin m stage requests delays)
    (u : Undisturbed m n) : Stands a policy outcome purpose origin n stage requests delays := by
  cases stands with
  | asking count same waited => exact .asking count (same.trans u) waited
  | sent count same waited => exact .sent count (same.trans u) waited
  | heard count same waited => exact .heard count (same.trans u) waited
  | waiting count delay same waited => exact .waiting count delay (same.trans u) waited
  | final count same waited last after => exact .final count same waited last (after.trans u)

def rest (k : Nat) : Stage op → Nat
  | .asking call => 4 * (k - call.failures.toNat) + 3
  | .sent call => 4 * (k - call.failures.toNat) + 2
  | .heard call _ => 4 * (k - call.failures.toNat) + 1
  | .settled (.wait _ call) => 4 * (k - call.failures.toNat) + 4
  | .settled _ => 0

theorem delayed_eq_nil (calls : s.calls = [stage]) {e : Event σ op ι} (others : ¬e.Drives 0) :
    s.delayed a e = [] := by
  cases e with
  | proceed slot p =>
    cases slot with
    | zero => exact absurd rfl others
    | succ slot => simp [delayed, calls]
  | _ => rfl

variable [DecidableEq ι]

def delaysOf (a : Algebra σ op) : Shared σ op ι → List (Event σ op ι) → List Nat
  | _, [] => []
  | s, e :: events => s.delayed a e ++ delaysOf a (s.step a e) events

def Along (a : Algebra σ op) (P : Shared σ op ι → Event σ op ι → Prop) :
    Shared σ op ι → List (Event σ op ι) → Prop
  | _, [] => True
  | s, e :: events => P s e ∧ Along a P (s.step a e) events

theorem step_proceed (calls : s.calls = [stage]) : s.step a (.proceed 0 policy) =
    ⟨(s.manager.proceed a policy stage).1, [(s.manager.proceed a policy stage).2.2]⟩ := by
  simp only [step, calls, List.getElem?_cons_zero, List.set_cons_zero]

theorem isOpen_of_run {events : List (Event σ op ι)}
    (isOpen : (s.run a events).manager.closed = false) : s.manager.closed = false := by
  cases closed : s.manager.closed with
  | false => rfl
  | true => cases isOpen.symm.trans ((lasting_run events).closed closed)

theorem Sole.calls_unheard (sole : s.Sole) (calls : s.calls = [stage]) {e : Event σ op ι}
    (others : ¬e.Drives 0) (unheard : ∀ answer, e ≠ .hear 0 answer) :
    (s.step a e).calls = [stage] := by
  rcases (sole.meanwhile_step (a := a) calls others).calls with same | ⟨call, answer, sent, heard⟩
  · exact same.trans calls
  · have present : .heard call answer ∈ (s.step a e).calls := heard ▸ List.mem_singleton_self _
    rcases calls_step present with
        before | ⟨_, asking⟩ | ⟨_, _, -, -, moved⟩ | ⟨slot, answer, _, rfl, -⟩
    · simp [sent] at before
    · cases asking
    · exact absurd moved.symm Manager.proceed_ne_heard
    · cases slot with
      | zero => exact absurd rfl (unheard answer)
      | succ slot => simp [Shared.step, calls]

omit [DecidableEq ι] in
inductive Own (policy : Retry.Policy) (outcome : Outcomes op) : Event σ op ι → Prop
  | proceed : Own policy outcome (.proceed 0 policy)
  | hear (attempt : Nat) : Own policy outcome (.hear 0 (outcome attempt))

section

variable {k : Nat} (last : Last policy (fun n => outcome n purpose) k) (fits : Width.Unsigned32 k)

include last fits

omit [DecidableEq ι] in
theorem Stands.proceed
    (stands : Stands a policy outcome purpose origin s.manager stage requests delays)
    (calls : s.calls = [stage]) (running : s.Running) (isOpen : s.manager.closed = false)
    (stays : ¬s.GoesOn) : Stands a policy outcome purpose origin (s.manager.proceed a policy stage).1
      (s.manager.proceed a policy stage).2.2 (requests ++ s.sends a (.proceed 0 policy))
      (delays ++ s.delayed a (.proceed 0 policy)) := by
  simp only [sends, delayed, calls, List.getElem?_cons_zero]
  cases stands with
  | asking count same waited =>
    have halted := (running _ (calls ▸ List.mem_singleton_self _)).resolve_left id
    have isOpen := Manager.ensureOpen_eq_ok.2 ⟨isOpen, halted⟩
    simp only [Manager.proceed, isOpen, List.append_nil, ← attempts_succ]
    exact .sent count same waited
  | sent count same waited =>
    simp only [Manager.proceed, List.append_nil]
    exact .sent count same waited
  | heard count same waited =>
    simp only [Manager.proceed, List.append_nil]
    have counted := waited.fits last fits
    cases again : again? policy (count + 1) (outcome (count + 1) purpose) with
    | some delay =>
      have waits := Manager.answered_again (a := a) (m := s.manager) counted again
      simp only [waits]
      exact .waiting count delay (same.trans ⟨rfl, rfl, rfl, rfl, rfl⟩) (waited.snoc again)
    | none =>
      have ended := Manager.answered_last (a := a) (m := s.manager) counted again
      have final := Stands.final (a := a) count same waited again (.refl _)
      generalize s.manager.answered a policy (.after purpose count) (outcome (count + 1) purpose) =
        settled at ended final ⊢
      cases next : settled.next with
      | wait delay call => exact absurd ended (by simp [next, Next.IsFinal])
      | _ => simpa [next] using final
  | waiting count delay same waited =>
    simp only [Manager.proceed, List.append_nil]
    exact .asking (count + 1) same waited
  | @final m _ _ count same waited ends after =>
    have ended := Manager.answered_last (a := a) (m := m) (waited.fits last fits) ends
    have final := Stands.final (a := a) count same waited ends after
    generalize next : (m.answered a policy (.after purpose count)
      (outcome (count + 1) purpose)).next = following at ended final calls
    cases following with
    | wait delay call => exact ended.elim
    | pushAgain => exact absurd calls stays
    | ended result => simpa [Manager.proceed] using final

theorem Stands.hear
    (stands : Stands a policy outcome purpose origin s.manager stage requests delays)
    (calls : s.calls = [stage])
    {answer : (purpose : Purpose op) → Except TransportFault purpose.Response}
    (within : s.Within policy outcome (.hear 0 answer)) :
    ∃ stage', (s.step a (.hear 0 answer)).calls = [stage'] ∧
      Stands a policy outcome purpose origin s.manager stage' requests delays := by
  simp only [step, calls, List.getElem?_cons_zero, List.set_cons_zero]
  cases stands with
  | sent count same waited =>
    have said := within rfl _ calls
    rw [Call.attempt_after purpose (waited.fits last fits)] at said
    dsimp only at said ⊢
    exact ⟨_, rfl, said ▸ .heard count same waited⟩
  | asking count same waited => exact ⟨_, calls, .asking count same waited⟩
  | heard count same waited => exact ⟨_, calls, .heard count same waited⟩
  | waiting count delay same waited => exact ⟨_, calls, .waiting count delay same waited⟩
  | final count same waited ends after => exact ⟨_, calls, .final count same waited ends after⟩

theorem Stands.step
    (stands : Stands a policy outcome purpose origin s.manager stage requests delays)
    (sole : s.Sole) (running : s.Running) (calls : s.calls = [stage])
    (isOpen : s.manager.closed = false) {e : Event σ op ι} (within : s.Within policy outcome e) :
    ∃ stage', (s.step a e).calls = [stage'] ∧
      Stands a policy outcome purpose origin (s.step a e).manager stage'
        (requests ++ s.sends a e) (delays ++ s.delayed a e) := by
  by_cases drives : e.Drives 0
  · cases e with
    | proceed slot p =>
      obtain rfl : slot = 0 := drives
      obtain ⟨rfl, stays⟩ := within rfl
      have moved := stands.proceed last fits calls running isOpen stays
      rw [step_proceed calls]
      exact ⟨_, rfl, moved⟩
    | release slot => exact absurd drives within
    | _ => exact drives.elim
  · have others := (sole.meanwhile_step (a := a) calls drives).undisturbed
    rw [sends_eq_nil calls drives, delayed_eq_nil calls drives, List.append_nil, List.append_nil]
    by_cases hears : ∃ answer, e = .hear 0 answer
    · obtain ⟨answer, rfl⟩ := hears
      obtain ⟨stage', after, stands⟩ := stands.hear (a := a) last fits calls within
      exact ⟨stage', after, stands.undisturbed others⟩
    · have same := sole.calls_unheard (a := a) calls drives fun answer h => hears ⟨answer, h⟩
      exact ⟨stage, same, stands.undisturbed others⟩

theorem Stands.run
    (stands : Stands a policy outcome purpose origin s.manager stage requests delays)
    (sole : s.Sole) (running : s.Running) (calls : s.calls = [stage])
    {events : List (Event σ op ι)} (within : s.Along a (Within policy outcome) events)
    (isOpen : (s.run a events).manager.closed = false) :
    ∃ stage', (s.run a events).calls = [stage'] ∧
      Stands a policy outcome purpose origin (s.run a events).manager stage'
        (requests ++ s.requests a events) (delays ++ s.delaysOf a events) := by
  induction events generalizing s stage requests delays with
  | nil =>
    simp only [Shared.requests, delaysOf, List.append_nil]
    exact ⟨stage, calls, stands⟩
  | cons e events ih =>
    obtain ⟨now, afterwards⟩ := within
    obtain ⟨stage', after, stands'⟩ :=
      stands.step last fits sole running calls (isOpen_of_run isOpen) now
    have later := ih stands' (sole.step e) (sole.running_step running e) after afterwards isOpen
    rw [Shared.requests, delaysOf, ← List.append_assoc, ← List.append_assoc]
    exact later

theorem Stands.advances
    (stands : Stands a policy outcome purpose origin s.manager stage requests delays)
    (sole : s.Sole) (running : s.Running) (calls : s.calls = [stage])
    (isOpen : s.manager.closed = false) :
    (∃ next, stage = .settled next ∧ next.IsFinal) ∨
      ∃ e stage', Own policy outcome e ∧ s.Within policy outcome e ∧
        (s.step a e).calls = [stage'] ∧ (s.step a e).manager.closed = false ∧
        rest k stage' < rest k stage := by
  have goes (ahead : stage ≠ .settled .pushAgain)
      (less : rest k (s.manager.proceed a policy stage).2.2 < rest k stage) :
      ∃ e stage', Own policy outcome e ∧ s.Within policy outcome e ∧
        (s.step a e).calls = [stage'] ∧ (s.step a e).manager.closed = false ∧
        rest k stage' < rest k stage := by
    refine ⟨.proceed 0 policy, _, .proceed, fun _ => ⟨rfl, ?_⟩, ?_, ?_, less⟩
    · rw [GoesOn, calls]
      simpa using ahead
    · rw [step_proceed calls]
    · rw [step_proceed calls, Manager.closed_proceed policy (sole.attends calls)]
      exact isOpen
  cases stands with
  | asking count same waited =>
    have halted := (running _ (calls ▸ List.mem_singleton_self _)).resolve_left id
    refine .inr (goes (by simp) ?_)
    simp only [Manager.proceed, Manager.ensureOpen_eq_ok.2 ⟨isOpen, halted⟩, rest]
    omega
  | sent count same waited =>
    refine .inr ⟨.hear 0 (outcome (count + 1)),
      .heard (.after purpose count) (outcome (count + 1) purpose), .hear _, ?_, ?_, ?_,
      Nat.lt_succ_self _⟩
    · intro _ call asked
      obtain rfl : call = .after purpose count := by simpa using asked.symm.trans calls
      rw [Call.attempt_after purpose (waited.fits last fits)]
    · simp only [Shared.step, calls, List.getElem?_cons_zero, List.set_cons_zero]
    · simp only [Shared.step, calls, List.getElem?_cons_zero]
      exact isOpen
  | heard count same waited =>
    have before := waited.lt last
    have counted := waited.fits last fits
    refine .inr (goes (by simp) ?_)
    simp only [Manager.proceed]
    cases again : again? policy (count + 1) (outcome (count + 1) purpose) with
    | some delay =>
      rw [Manager.answered_again counted again]
      simp only [rest, UInt32.toNat_ofNat_of_lt' counted,
        UInt32.toNat_ofNat_of_lt' (Nat.lt_of_succ_lt counted)]
      omega
    | none =>
      have ended := Manager.answered_last (a := a) (m := s.manager) counted again
      generalize (s.manager.answered a policy (.after purpose count)
        (outcome (count + 1) purpose)).next = next at ended ⊢
      cases next with
      | wait delay call => exact ended.elim
      | _ => exact Nat.succ_pos _
  | waiting count delay same waited => exact .inr (goes (by simp) (Nat.lt_succ_self _))
  | final count same waited ends after =>
    exact .inl ⟨_, rfl, Manager.answered_last (waited.fits last fits) ends⟩

theorem Stands.finishes
    (stands : Stands a policy outcome purpose origin s.manager stage requests delays)
    (sole : s.Sole) (running : s.Running) (calls : s.calls = [stage])
    (isOpen : s.manager.closed = false) :
    ∃ onward, (∀ e ∈ onward, Own policy outcome e) ∧ s.Along a (Within policy outcome) onward ∧
      onward.length ≤ rest k stage ∧ (s.run a onward).manager.closed = false ∧
      ∃ next, (s.run a onward).calls = [.settled next] ∧ next.IsFinal := by
  -- Every turn of the call and of the server leaves less to do; those of others do not count.
  induction left : rest k stage using Nat.strong_induction_on
    generalizing s stage requests delays with
  | _ count ih =>
    rcases stands.advances last fits sole running calls isOpen with
        ⟨next, rfl, final⟩ | ⟨e, stage', own, within, after, stays, less⟩
    · exact ⟨[], (fun _ h => nomatch h), trivial, Nat.zero_le _, isOpen, next, calls, final⟩
    · obtain ⟨stage'', calls', stands'⟩ := stands.step last fits sole running calls isOpen within
      obtain rfl : stage'' = stage' := by simpa using calls'.symm.trans after
      obtain ⟨onward, owns, along, short, finished⟩ := ih _ (left ▸ less) stands' (sole.step e)
        (sole.running_step running e) after stays rfl
      refine ⟨e :: onward, List.forall_mem_cons.2 ⟨own, owns⟩, ⟨within, along⟩, ?_, finished⟩
      rw [List.length_cons]
      omega

end

omit [DecidableEq ι] in
theorem Stands.counted
    (stands : Stands a policy outcome purpose origin m stage requests delays) {k : Nat}
    (last : Last policy (fun n => outcome n purpose) k) :
    (∃ count ≤ k, requests = attempts purpose count) ∧
      ∃ count < k, Waited policy outcome purpose count delays := by
  cases stands with
  | asking count same waited =>
    have before := waited.lt last
    exact ⟨⟨count, Nat.le_of_lt before, rfl⟩, count, before, waited⟩
  | waiting count delay same waited =>
    have before := waited.lt last
    exact ⟨⟨count + 1, Nat.le_of_lt before, rfl⟩, count + 1, before, waited⟩
  | sent count same waited | heard count same waited | final count same waited ends after =>
    have before := waited.lt last
    exact ⟨⟨count + 1, before, rfl⟩, count, before, waited⟩

omit [DecidableEq ι] in
theorem Stands.decided {next : Next op}
    (stands : Stands a policy outcome purpose origin m (.settled next) requests delays)
    (final : next.IsFinal) {k : Nat} (last : Last policy (fun n => outcome n purpose) k) :
    requests = attempts purpose k ∧ Waited policy outcome purpose (k - 1) delays ∧
      ∃ n, Undisturbed origin n ∧
        let settled := n.answered a policy (.after purpose (k - 1)) (outcome k purpose)
        next = settled.next ∧ Undisturbed settled.manager m := by
  cases stands with
  | waiting count delay same waited => exact final.elim
  | final count same waited ends after =>
    have before := waited.lt last
    obtain rfl : k = count + 1 := Nat.le_antisymm (last.le (Nat.succ_pos count) ends) before
    exact ⟨rfl, waited, _, same, rfl, after⟩

omit [DecidableEq ι] in
theorem rest_le {k : Nat} (stage : Stage op) : rest k stage ≤ 4 * k + 4 := by
  cases stage with
  | settled next => cases next <;> simp only [rest] <;> omega
  | _ => simp only [rest]; omega

/-- A call is about to ask the server for the first time, with any policy and any outcomes of its
attempts, and anything is done to the manager meanwhile except that it is closed. Up to the first
attempt that no other one follows, the request is made as often as that, in the same words, and the
waits in between are those of the policy. That attempt decides: a fault is what the call fails with,
and the manager is then where it was before. The request always comes to that end, with a maximum
after so many attempts. -/
theorem retries_resend (a : Algebra σ op) (initial : σ) (before : List (Event σ op ι))
    (policy : Retry.Policy) (outcome : Outcomes op) {purpose : Purpose op} {k : Nat}
    (begun : ((new initial).run a before).calls = [.asking (.first purpose)])
    (last : Last policy (fun n => outcome n purpose) k) (fits : Width.Unsigned32 k)
    (during : List (Event σ op ι))
    (within : ((new initial).run a before).Along a (Within policy outcome) during)
    (isOpen : (((new initial).run a before).run a during).manager.closed = false) :
    let s := (new initial).run a before
    let t := s.run a during
    let requests := s.requests a during
    let waits := s.delaysOf a during
    s.manager.Current purpose ∧
      (∃ count ≤ k, requests = attempts purpose count) ∧
      (∃ count < k, waits.map some = (List.range count).map fun n => policy (n + 1)) ∧
      (∀ next, t.calls = [.settled next] → next.IsFinal →
        requests = attempts purpose k ∧
        waits.map some = (List.range (k - 1)).map (fun n => policy (n + 1)) ∧
        (¬next.CutOff → ∃ m, Undisturbed s.manager m ∧
          let settled := m.answered a policy (.after purpose (k - 1)) (outcome k purpose)
          next = settled.next ∧ Undisturbed settled.manager t.manager) ∧
        ∀ fault, outcome k purpose = .error fault →
          next = .ended (.error (lastError k fault)) ∧ t.manager.base = s.manager.base ∧
            t.manager.revision = s.manager.revision ∧
            t.manager.inflight = s.manager.inflight) ∧
      (∃ onward, (∀ e ∈ onward, Own policy outcome e) ∧
        t.Along a (Within policy outcome) onward ∧ onward.length ≤ 4 * k + 4 ∧
        ∃ next, (t.run a onward).calls = [.settled next] ∧ next.IsFinal) ∧
      ∀ delay most, policy = Retry.FixedDelay.nextDelay ⟨delay, some most⟩ → k ≤ max most 1 := by
  intro s t requests waits
  have sole : s.Sole := (sole_new initial).run before
  have running : s.Running := running_run initial before
  have openBefore : s.manager.closed = false := isOpen_of_run isOpen
  have first :
      Stands a policy outcome purpose s.manager s.manager (.asking (.first purpose)) [] [] :=
    .asking 0 (.refl _) rfl
  obtain ⟨stage, calls, stands⟩ := first.run last fits sole running begun within isOpen
  simp only [List.nil_append] at stands
  obtain ⟨asked, count, few, waited⟩ := stands.counted last
  refine ⟨(sole.attends begun).2, asked, ⟨count, few, waited.policy_eq⟩, ?_, ?_, ?_⟩
  · intro next settled final
    obtain rfl : stage = .settled next := by simpa using calls.symm.trans settled
    obtain ⟨whole, waited, m, same, decides, after⟩ := stands.decided final last
    refine ⟨whole, waited.policy_eq, fun _ => ⟨m, same, decides, after⟩, ?_⟩
    intro fault failed
    have count : k - 1 + 1 = k := Nat.sub_add_cancel last.pos
    have ends := last.ends
    rw [failed] at ends decides after
    obtain ⟨error, still⟩ := Manager.failed_last (m := m) (count.symm ▸ fits)
      (by simpa only [count] using ends)
    have unmoved := (same.trans still).trans after
    rw [count] at error
    exact ⟨decides.trans error, unmoved.base, unmoved.revision, unmoved.inflight⟩
  · have runningAfter : t.Running := by
      have whole := running_run (a := a) (ι := ι) initial (before ++ during)
      rwa [run_append] at whole
    obtain ⟨onward, owns, along, short, -, finished⟩ :=
      stands.finishes last fits (sole.run during) runningAfter calls isOpen
    exact ⟨onward, owns, along, Nat.le_trans short (rest_le stage), finished⟩
  · rintro delay most rfl
    exact last.le_max

theorem retries_resend_while_down :
    let a := Counter.exclusive
    let policy : Retry.Policy := Retry.FixedDelay.nextDelay ⟨30, some 2⟩
    let found : (purpose : Purpose Int) → Except TransportFault purpose.Response
      | .checkout | .pull _ => .ok ⟨⟨1⟩, [5]⟩
      | .push _ _ => .ok (.accepted ⟨2⟩)
    let outcome : Outcomes Int := fun _ _ => .error (.network "down")
    let before : List (Event Int Int String) :=
      [.start .checkout, .proceed 0 policy, .hear 0 found, .proceed 0 policy, .release 0,
        .add [2, 3], .start .sync]
    let during : List (Event Int Int String) :=
      [.proceed 0 policy, .add [7], .hear 0 (outcome 1), .proceed 0 policy, .start .pull, .reset,
        .proceed 0 policy, .proceed 0 policy, .add [8], .hear 0 (outcome 2), .proceed 0 policy]
    let s := (new 0).run a before
    let t := s.run a during
    let next : Next Int := .ended (.error (.retriesExhausted 2 "down"))
    t.calls = [.settled next] ∧
      s.requests a during = attempts (.push ⟨1⟩ [5]) 2 ∧
      (s.delaysOf a during).map some = [some 30] ∧
      t.manager.pending = [8] ∧ t.manager.base = s.manager.base ∧
      t.manager.revision = s.manager.revision ∧ t.manager.inflight = s.manager.inflight := by
  intro a policy found outcome before during s t next
  have begun : s.calls = [.asking (.first (.push ⟨1⟩ [5]))] := by decide +kernel
  have last : Last policy (fun n => outcome n (.push ⟨1⟩ [5])) 2 := by
    refine ⟨by decide, rfl, fun n pos before => ?_⟩
    obtain rfl : n = 1 := by omega
    exact Option.some_ne_none 30
  have goes {s : Shared Int Int String} (stays : ¬s.GoesOn) :
      s.Within policy outcome (.proceed 0 policy) := fun _ => ⟨rfl, stays⟩
  have hears {s : Shared Int Int String} (n : Nat) :
      s.Within policy outcome (.hear 0 (outcome n)) := fun _ _ _ => rfl
  have within : s.Along a (Within policy outcome) during :=
    ⟨goes (by decide +kernel), trivial, hears 1, goes (by decide +kernel), trivial, trivial,
      goes (by decide +kernel), goes (by decide +kernel), trivial, hears 2,
      goes (by decide +kernel), trivial⟩
  have settled : t.calls = [.settled next] := by decide +kernel
  obtain ⟨-, -, -, decided, -⟩ := retries_resend a 0 before policy outcome begun last (by decide)
    during within (by decide +kernel)
  obtain ⟨whole, waits, -, failed⟩ := decided next settled trivial
  obtain ⟨-, base, revision, inflight⟩ := failed (.network "down") rfl
  refine ⟨settled, whole, waits, by decide +kernel, ?_⟩
  dsimp only [t, s]
  exact ⟨base, revision, inflight⟩

end Shared

end Reconcile
