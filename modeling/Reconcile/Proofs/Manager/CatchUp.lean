import Reconcile.Proofs.Manager.Rebase

/-! Catching up with what others have committed, in one step or in many. Crossings are put side by
side along the committed operations, first for the inflight batch and then for the pending
operations, which meet what that leaves of them; so both queues end up the same. A pull that brings
nothing new is no exception, as rebasing onto nothing leaves everything in its place. -/

namespace Reconcile

namespace Manager

variable {σ op ι : Type} {a : Algebra σ op} {g : Gauge σ op} {m n : Manager σ op ι}
  {first second : List op} {base : σ}

theorem Sound.rebase_nil (limited : Limited a g) (sound : m.Sound a) :
    m.rebase a [] m.revision = (.ok (), m) := by
  have nonempty := sound.forall_mem fun _ _ changed => limited.nonempty changed
  obtain ⟨inflight, pending⟩ := List.forall_mem_append.1 nonempty
  have keepsInflight : m.inflight.filter (!a.isEmpty ·) = m.inflight :=
    List.filter_eq_self.2 (by simpa using inflight)
  have keepsPending : m.pending.filter (!a.isEmpty ·) = m.pending :=
    List.filter_eq_self.2 (by simpa using pending)
  have crosses : m.Crosses a [] ⟨m.inflight, []⟩ ⟨m.pending, []⟩ m.state := by
    refine ⟨?_, ?_, rfl⟩
    · rw [Algebra.transform_nil_right, keepsInflight]
    · rw [Algebra.transform_nil_right, keepsPending]
  exact crosses.rebase limited.lawful sound rfl m.revision

theorem Crosses.append {inflight pending inflight' pending' inflight'' pending'' : Diamond op}
    {state' state'' : σ} (before : m.Crosses a first inflight pending n.state)
    (onInflight : n.inflight = inflight.left) (onPending : n.pending = pending.left)
    (after : n.Crosses a second inflight' pending' state')
    (whole : m.Crosses a (first ++ second) inflight'' pending'' state'') :
    inflight''.left = inflight'.left ∧ pending''.left = pending'.left ∧ state'' = state' := by
  have afterFirst := after.first
  rw [onInflight] at afterFirst
  obtain rfl := Algebra.transform_append before.first afterFirst whole.first
  have afterSecond := after.second
  rw [onPending] at afterSecond
  obtain rfl := Algebra.transform_append before.second afterSecond whole.second
  have reached := whole.reached
  rw [Algebra.applyAll_append, before.reached, ok_bind] at reached
  exact ⟨rfl, rfl, Except.ok.inj (reached.symm.trans after.reached)⟩

theorem HasRoom.of_append (room : m.HasRoom g (first ++ second)) : m.HasRoom g first := by
  simp only [HasRoom, Gauge.Holds, total_append] at room ⊢
  omega

theorem Crosses.hasRoom (measured : a.Measured g) {inflight pending : Diamond op}
    (crosses : m.Crosses a first inflight pending n.state)
    (applied : a.applyAll m.base first = .ok n.base) (onInflight : n.inflight = inflight.left)
    (onPending : n.pending = pending.left) (room : m.HasRoom g (first ++ second)) :
    n.HasRoom g second := by
  have grown := measured.applyAll_le applied
  have hinflight := (measured.transform_le crosses.first).1
  have hpending := (measured.transform_le crosses.second).1
  simp only [HasRoom, Gauge.Holds, total_append, onInflight, onPending] at room ⊢
  omega

theorem Sound.rebase_append (limited : Limited a g) (sound : m.Sound a)
    (applied : a.applyAll m.base (first ++ second) = .ok base)
    (room : m.HasRoom g (first ++ second)) (between : Revision) :
    ∃ n, m.rebase a first between = (.ok (), n) ∧ a.applyAll n.base second = .ok base ∧
      n.HasRoom g second ∧
      ∀ revision, n.rebase a second revision = m.rebase a (first ++ second) revision := by
  have parts := applied
  rw [Algebra.applyAll_append] at parts
  obtain ⟨mid, before, after⟩ := bind_eq_ok.1 parts
  obtain ⟨inflight, pending, state, crosses⟩ := sound.exists_crosses limited before room.of_append
  -- Halfway, with what the first operations have left of the queues.
  let n := { m with
    base := mid, state, inflight := inflight.left, pending := pending.left, revision := between }
  have crosses : m.Crosses a first inflight pending n.state := crosses
  have roomN : n.HasRoom g second := crosses.hasRoom limited.measured before rfl rfl room
  have soundN : n.Sound a := crosses.effective limited.lawful sound before
  have next := soundN.exists_crosses limited after roomN
  have all := sound.exists_crosses limited applied room
  refine ⟨n, crosses.rebase limited.lawful sound before between, after, roomN, ?_⟩
  intro revision
  obtain ⟨inflight', pending', state', next⟩ := next
  obtain ⟨inflight'', pending'', state'', all⟩ := all
  obtain ⟨onInflight, onPending, rfl⟩ := crosses.append rfl rfl next all
  rw [next.rebase limited.lawful soundN after, all.rebase limited.lawful sound applied, onInflight,
    onPending]

theorem Sound.pulledSince (limited : Limited a g) (sound : m.Sound a) (pulled : Pulled op) :
    (m.pulledSince a m.revision pulled).manager =
      (m.rebase a pulled.operations pulled.revision).2 := by
  simp only [Manager.pulledSince]
  split
  · rename_i nothing
    rw [List.isEmpty_iff.1 nothing.1, nothing.2, sound.rebase_nil limited]
  · rfl

theorem rebase_map (f : Option Activity → Option Activity) (g : Bool → Bool)
    (h : Listener.Registry ι → Listener.Registry ι) (committed : List op) (revision : Revision) :
    let aside (n : Manager σ op ι) : Manager σ op ι := { n with
      activity := f n.activity, retrying := g n.retrying, listeners := h n.listeners }
    (aside m).rebase a committed revision = (m.rebase a committed revision).map id aside := by
  intro aside
  have base : (aside m).base = m.base := rfl
  have queues : (aside m).transformQueues a committed = m.transformQueues a committed := rfl
  simp only [rebase, base, queues]
  cases a.applyAll m.base committed with
  | error e => rfl
  | ok base =>
    dsimp only
    cases m.transformQueues a committed with
    | error e => rfl
    | ok queues =>
      simp only [ok_bind, resetTo]
      cases a.applyAll base queues.1 with
      | error e => rfl
      | ok mid =>
        simp only [ok_bind]
        cases a.applyAll mid queues.2 <;> rfl

theorem rebase_with (activity : Option Activity) (retrying : Bool) (committed : List op)
    (revision : Revision) : { m with activity, retrying }.rebase a committed revision =
      (m.rebase a committed revision).map id ({ · with activity, retrying }) :=
  rebase_map (fun _ => activity) (fun _ => retrying) id committed revision

theorem ensureCheckedOut_rebase {committed : List op} {revision : Revision}
    (rebased : m.rebase a committed revision = (.ok (), n)) :
    n.ensureCheckedOut = m.ensureCheckedOut := by
  have moved := rebases (a := a) (m := m) committed revision
  rw [rebased] at moved
  cases moved
  rfl

end Manager

namespace Session

open Manager (Purpose)
open Text (Edit)

variable {σ op ι : Type} {a : Algebra σ op} {g : Gauge σ op} {s : Session σ op ι}

/-- A whole pull with nothing in between: it is begun, asks, hears what it is told, and is
released. -/
def pull (a : Algebra σ op) (policy : Retry.Policy) (s : Session σ op ι) (pulled : Pulled op) :
    Session σ op ι :=
  let answer : (purpose : Purpose op) → Except TransportFault purpose.Response
    | .checkout | .pull _ => .ok pulled
    | .push _ _ => .error (.protocol "a push was not expected")
  let sent := (s.step a (.start .pull)).step a (.proceed policy)
  ((sent.hear answer).step a (.proceed policy)).step a .release

theorem Reachable.pull (reached : s.Reachable a) (policy : Retry.Policy) (pulled : Pulled op) :
    (s.pull a policy pulled).Reachable a := by
  unfold Session.pull
  exact .step (.step (.hear (.step (.step reached _) _) _) _) _

theorem pull_eq (policy : Retry.Policy) (pulled : Pulled op) (free : s.manager.activity = none)
    (known : s.manager.ensureCheckedOut = .ok ()) :
    s.pull a policy pulled = ⟨({ s.manager with activity := some .syncing, retrying := false
      }.pulledSince a s.manager.revision pulled).manager.release, none⟩ := by
  let m := { s.manager with activity := some .syncing }
  let call : Manager.Call op := .first (.pull s.manager.revision)
  have isOpen : m.ensureOpen = .ok () := (Manager.ensureCheckedOut_eq_ok.1 known).1
  have begun : s.step a (.start .pull) = ⟨m, some (.asking call)⟩ := by
    simp [step, Manager.start, Manager.beginPull, known, free, m, call]
  have sent : (⟨m, some (.asking call)⟩ : Session σ op ι).step a (.proceed policy) =
      ⟨m, some (.sent call)⟩ := by
    simp only [step, Manager.proceed, isOpen]
  unfold Session.pull
  rw [begun, sent]
  rfl

theorem Reachable.pull_eq_rebase (limited : Limited a g) (reached : s.Reachable a)
    (policy : Retry.Policy) (pulled : Pulled op) (free : s.manager.activity = none)
    (known : s.manager.ensureCheckedOut = .ok ()) :
    s.pull a policy pulled =
      ⟨(s.manager.rebase a pulled.operations pulled.revision).2.release, none⟩ := by
  have sound : { s.manager with activity := some .syncing, retrying := false }.Sound a :=
    (reached.steady limited.lawful).sound
  have moved := sound.pulledSince limited pulled
  rw [Manager.rebase_with] at moved
  rw [pull_eq policy pulled free known, moved]
  rfl

theorem Reachable.pull_pull (limited : Limited a g) (reached : s.Reachable a)
    (policy : Retry.Policy) {pulled : Pulled op} {second : List op} {base : σ}
    (free : s.manager.activity = none) (known : s.manager.ensureCheckedOut = .ok ())
    (applied : a.applyAll s.manager.base (pulled.operations ++ second) = .ok base)
    (room : s.manager.HasRoom g (pulled.operations ++ second)) :
    ∃ t, s.pull a policy pulled = t ∧ t.manager.activity = none ∧
      t.manager.ensureCheckedOut = .ok () ∧ a.applyAll t.manager.base second = .ok base ∧
      t.manager.HasRoom g second ∧ ∀ revision, t.pull a policy ⟨revision, second⟩ =
        s.pull a policy ⟨revision, pulled.operations ++ second⟩ := by
  have sound := (reached.steady limited.lawful).sound
  obtain ⟨n, rebased, after, roomN, next⟩ :=
    sound.rebase_append limited applied room pulled.revision
  have once : s.pull a policy pulled = ⟨n.release, none⟩ := by
    rw [reached.pull_eq_rebase limited policy pulled free known, rebased]
  have reachedN : Reachable a (⟨n.release, none⟩ : Session σ op ι) :=
    once ▸ reached.pull policy pulled
  have knownN : n.release.ensureCheckedOut = .ok () :=
    (Manager.ensureCheckedOut_rebase rebased).trans known
  refine ⟨_, once, rfl, knownN, after, roomN, fun revision => ?_⟩
  rw [reachedN.pull_eq_rebase limited policy ⟨revision, second⟩ rfl knownN,
    reached.pull_eq_rebase limited policy ⟨revision, _⟩ free known]
  have both := Manager.rebase_with (m := n) (a := a) none false second revision
  rw [next] at both
  exact congrArg (fun rebased => (⟨rebased.2.release, none⟩ : Session σ op ι)) both

theorem Reachable.pulls (limited : Limited a g) (reached : s.Reachable a) (policy : Retry.Policy)
    (pulls : List (Pulled op)) (last : Pulled op) {base : σ} (free : s.manager.activity = none)
    (known : s.manager.ensureCheckedOut = .ok ())
    (applied : a.applyAll s.manager.base ((pulls ++ [last]).flatMap (·.operations)) = .ok base)
    (room : s.manager.HasRoom g ((pulls ++ [last]).flatMap (·.operations))) :
    (pulls ++ [last]).foldl (Session.pull a policy) s =
      s.pull a policy ⟨last.revision, (pulls ++ [last]).flatMap (·.operations)⟩ := by
  induction pulls generalizing s with
  | nil => simp
  | cons pulled pulls ih =>
    -- The later pulls add up to one, which the first one then joins.
    rw [List.cons_append, List.flatMap_cons] at applied room
    obtain ⟨t, once, freeT, knownT, appliedT, roomT, next⟩ :=
      reached.pull_pull limited policy free known applied room
    have reachedT : t.Reachable a := once ▸ reached.pull policy pulled
    rw [List.cons_append, List.foldl_cons, once, ih reachedT freeT knownT appliedT roomT, next,
      List.flatMap_cons]

/-- In every state that a client can reach, whatever its transport answers, it makes no difference
in how many steps the queues follow committed operations that apply to the base, nor which revisions
are named on the way: what each pull brings adds up to what a single one would have brought. -/
theorem catching_up_in_steps (limited : Limited a g) (reached : s.Reachable a) :
    (∀ first second base between revision,
      a.applyAll s.manager.base (first ++ second) = .ok base →
      s.manager.HasRoom g (first ++ second) → ∃ halfway after,
        s.manager.rebase a first between = (.ok (), halfway) ∧
        halfway.rebase a second revision = (.ok (), after) ∧
        s.manager.rebase a (first ++ second) revision = (.ok (), after)) ∧
      ∀ policy (pulls : List (Pulled op)) (last : Pulled op) base,
        s.manager.activity = none → s.manager.ensureCheckedOut = .ok () →
        a.applyAll s.manager.base ((pulls ++ [last]).flatMap (·.operations)) = .ok base →
        s.manager.HasRoom g ((pulls ++ [last]).flatMap (·.operations)) →
        (pulls ++ [last]).foldl (pull a policy) s =
          s.pull a policy ⟨last.revision, (pulls ++ [last]).flatMap (·.operations)⟩ := by
  refine ⟨?_, ?_⟩
  · intro first second base between revision applied room
    have sound := (reached.steady limited.lawful).sound
    obtain ⟨halfway, rebased, -, -, next⟩ := sound.rebase_append limited applied room between
    obtain ⟨inflight, pending, state, crosses⟩ := sound.exists_crosses limited applied room
    have whole := crosses.rebase limited.lawful sound applied revision
    exact ⟨halfway, _, rebased, (next revision).trans whole, whole⟩
  · intro policy pulls last base free known applied room
    exact reached.pulls limited policy pulls last free known applied room

theorem catching_up_in_steps_after_release :
    let s := outstandingPush.step Text.algebra .release
    let first : List Edit := [.delete 2 ['c', 'd']]
    let second : List Edit := [.insert 2 ['!']]
    let policy : Retry.Policy := fun _ => none
    s.manager.inflight = [.replace 1 ['b', 'c'] ['x', 'y']] ∧
      s.manager.pending = [.replace 2 ['y', 'd'] ['z']] ∧
      (∃ halfway after, s.manager.rebase Text.algebra first ⟨7⟩ = (.ok (), halfway) ∧
        halfway.rebase Text.algebra second ⟨3⟩ = (.ok (), after) ∧
        s.manager.rebase Text.algebra (first ++ second) ⟨3⟩ = (.ok (), after)) ∧
      [⟨⟨7⟩, first⟩, ⟨⟨2⟩, []⟩, ⟨⟨3⟩, second⟩].foldl (pull Text.algebra policy) s =
        s.pull Text.algebra policy ⟨⟨3⟩, first ++ second⟩ := by
  intro s first second policy
  have reached : s.Reachable Text.algebra := .step reachable_outstandingPush .release
  have applied : Text.algebra.applyAll s.manager.base (first ++ second) =
      .ok ['a', 'b', '!', 'e'] := by decide +kernel
  have room : s.manager.HasRoom Text.gauge (first ++ second) := by decide +kernel
  obtain ⟨rebases, pulls⟩ := catching_up_in_steps .text reached
  have known : s.manager.ensureCheckedOut = .ok () := by decide +kernel
  refine ⟨by decide +kernel, by decide +kernel, rebases first second _ ⟨7⟩ ⟨3⟩ applied room, ?_⟩
  exact pulls policy [⟨⟨7⟩, first⟩, ⟨⟨2⟩, []⟩] ⟨⟨3⟩, second⟩ _ rfl known applied room

end Session

end Reconcile
