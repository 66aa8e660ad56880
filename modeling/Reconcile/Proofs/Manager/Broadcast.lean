import Reconcile.Proofs.Domain
import Reconcile.Proofs.Manager.Notice

/-! What listeners hear of a manager. One after the other they are told of a change, and while one
of them is at it, it may change the manager again: all listeners are told of that before the next
one is told of the first change. So a listener hears of changes in their order if it never is told
of one while it still waits to be told of an earlier one, and otherwise it does not. -/

namespace Reconcile

open Text (Edit)

structure Turn (σ ι : Type) where
  listener : ι
  change : Nat
  state : σ
  deriving DecidableEq, Repr

/-- A manager with its calls, the states that it has gone through, and what listeners have heard.
The rounds are the turns still to come, after the one that is being taken: a listener may change the
manager at its turn, which begins another round inside the first. The innermost comes first. -/
structure Broadcast (σ op ι : Type) where
  shared : Shared σ op ι
  passed : List σ
  rounds : List (List (Turn σ ι))
  heard : List (Turn σ ι)

namespace Broadcast

variable {σ op ι : Type} {a : Algebra σ op} {b : Broadcast σ op ι}

/-- Something is done to the manager, by the listener whose turn it is if there is one; or that
listener is done. -/
inductive Event (σ op ι : Type)
  | act (e : Shared.Event σ op ι)
  | back

def new (initial : σ) : Broadcast σ op ι := ⟨.new initial, [initial], [], []⟩

def tell (b : Broadcast σ op ι) : List (Turn σ ι) → Broadcast σ op ι
  | [] => b
  | turn :: turns => { b with rounds := turns :: b.rounds, heard := b.heard ++ [turn] }

def turns (b : Broadcast σ op ι) : List (Turn σ ι) := b.heard ++ b.rounds.flatten

theorem turns_tell (turns : List (Turn σ ι)) :
    (b.tell turns).turns = b.heard ++ turns ++ b.rounds.flatten := by
  cases turns <;> simp [tell, Broadcast.turns]

structure Faithful (b : Broadcast σ op ι) : Prop where
  nodup : b.shared.manager.listeners.receivers.Nodup
  passed : ∀ turn ∈ b.turns, b.passed[turn.change]? = some turn.state

theorem faithful_new (initial : σ) : (new initial : Broadcast σ op ι).Faithful where
  nodup := List.nodup_nil
  passed _ h := nomatch h

theorem Faithful.change_lt (faithful : b.Faithful) {turn : Turn σ ι} (h : turn ∈ b.turns) :
    turn.change < b.passed.length :=
  (List.getElem?_eq_some_iff.1 (faithful.passed turn h)).1

variable [DecidableEq ι]

def news (a : Algebra σ op) (b : Broadcast σ op ι) : Event σ op ι → List (Turn σ ι)
  | .act e =>
    match b.shared.notice a e with
    | some notice => notice.turns.map fun (listener, state) => ⟨listener, b.passed.length, state⟩
    | none => []
  | .back => []

def step (a : Algebra σ op) (b : Broadcast σ op ι) : Event σ op ι → Broadcast σ op ι
  | .act e =>
    let shared := b.shared.step a e
    let acted := { b with shared, passed := b.passed ++ [shared.manager.state] }
    acted.tell (b.news a (.act e))
  | .back =>
    match b.rounds with
    | [] => b
    | turns :: rounds => { b with rounds }.tell turns

def run (a : Algebra σ op) (b : Broadcast σ op ι) (events : List (Event σ op ι)) :
    Broadcast σ op ι :=
  events.foldl (step a) b

def turnsOf (l : ι) (turns : List (Turn σ ι)) : List (Turn σ ι) := turns.filter (·.listener = l)

def heardBy (b : Broadcast σ op ι) (l : ι) : List (Turn σ ι) := turnsOf l b.heard

def awaitedBy (b : Broadcast σ op ι) (l : ι) : List (Turn σ ι) := turnsOf l b.rounds.flatten

/-- The listener is to be told of a change while it still waits to be told of an earlier one. -/
def Overtakes (a : Algebra σ op) (l : ι) (b : Broadcast σ op ι) (e : Event σ op ι) : Prop :=
  turnsOf l (b.news a e) ≠ [] ∧ b.awaitedBy l ≠ []

def Along (a : Algebra σ op) (P : Broadcast σ op ι → Event σ op ι → Prop) :
    Broadcast σ op ι → List (Event σ op ι) → Prop
  | _, [] => True
  | b, e :: events => P b e ∧ Along a P (b.step a e) events

instance (l : ι) (b : Broadcast σ op ι) (e : Event σ op ι) : Decidable (b.Overtakes a l e) :=
  inferInstanceAs (Decidable (_ ∧ _))

def decideAlong (P : Broadcast σ op ι → Event σ op ι → Prop) [∀ b e, Decidable (P b e)] :
    (b : Broadcast σ op ι) → (events : List (Event σ op ι)) → Decidable (Along a P b events)
  | _, [] => isTrue trivial
  | b, e :: events =>
    have := decideAlong P (b.step a e) events
    inferInstanceAs (Decidable (_ ∧ _))

instance (P : Broadcast σ op ι → Event σ op ι → Prop) [∀ b e, Decidable (P b e)]
    (b : Broadcast σ op ι) (events : List (Event σ op ι)) : Decidable (Along a P b events) :=
  decideAlong P b events

abbrev Prompt (a : Algebra σ op) (l : ι) : Broadcast σ op ι → List (Event σ op ι) → Prop :=
  Along a fun b e => ¬b.Overtakes a l e

abbrev Stays (a : Algebra σ op) (l : ι) : Broadcast σ op ι → List (Event σ op ι) → Prop :=
  Along a fun b _ => l ∈ b.shared.manager.listeners.receivers

theorem turnsOf_append (l : ι) (xs ys : List (Turn σ ι)) :
    turnsOf l (xs ++ ys) = turnsOf l xs ++ turnsOf l ys :=
  List.filter_append xs ys

theorem turns_step (e : Event σ op ι) :
    (b.step a e).turns = b.heard ++ b.news a e ++ b.rounds.flatten := by
  cases e with
  | act e => exact turns_tell (b.news a (.act e))
  | back =>
    simp only [step, news, List.append_nil]
    cases rounds : b.rounds with
    | nil => simp [Broadcast.turns, rounds]
    | cons turns rounds => simp [turns_tell]

theorem turnsOf_turns (l : ι) : turnsOf l b.turns = b.heardBy l ++ b.awaitedBy l :=
  turnsOf_append l _ _

theorem turnsOf_step (l : ι) (e : Event σ op ι) :
    turnsOf l (b.step a e).turns =
      b.heardBy l ++ turnsOf l (b.news a e) ++ b.awaitedBy l := by
  rw [turns_step, turnsOf_append, turnsOf_append]
  rfl

theorem awaitedBy_of_idle (idle : b.rounds = []) (l : ι) : b.awaitedBy l = [] := by
  rw [awaitedBy, idle]
  rfl

theorem shared_step (e : Shared.Event σ op ι) :
    (b.step a (.act e)).shared = b.shared.step a e ∧
      (b.step a (.act e)).passed = b.passed ++ [(b.shared.step a e).manager.state] := by
  simp only [step]
  cases b.news a (.act e) <;> exact ⟨rfl, rfl⟩

theorem shared_back : (b.step a .back).shared = b.shared ∧
    (b.step a .back).passed = b.passed := by
  simp only [step]
  split
  · exact ⟨rfl, rfl⟩
  · rename_i turns rounds _
    cases turns <;> exact ⟨rfl, rfl⟩

theorem turnsOf_map {receivers : List ι} (nodup : receivers.Nodup) (l : ι) (change : Nat)
    (state : σ) : turnsOf l (receivers.map fun listener => ⟨listener, change, state⟩) =
      if l ∈ receivers then [⟨l, change, state⟩] else [] := by
  induction receivers with
  | nil => rfl
  | cons listener receivers ih =>
    obtain ⟨fresh, nodup⟩ := List.nodup_cons.1 nodup
    have rest := ih nodup
    simp only [turnsOf] at rest ⊢
    by_cases same : listener = l
    · subst same
      simp [rest, fresh]
    · simp [rest, same, Ne.symm same]

theorem Faithful.turnsOf_news (faithful : b.Faithful) (candid : a.Candid) (l : ι)
    (e : Event σ op ι) :
    turnsOf l (b.news a e) = [⟨l, b.passed.length, (b.step a e).shared.manager.state⟩] ∨
      turnsOf l (b.news a e) = [] ∧ (l ∈ b.shared.manager.listeners.receivers →
        (b.step a e).shared.manager.state = b.shared.manager.state) := by
  cases e with
  | back => exact .inr ⟨rfl, fun _ => by rw [shared_back.1]⟩
  | act e =>
    have silent (none : b.shared.notice a e = none) : turnsOf l (b.news a (.act e)) = [] := by
      simp only [news, none]
      rfl
    rw [shared_step e |>.1]
    rcases Shared.tells_step (s := b.shared) candid e with tells | ⟨none, state, -⟩
    · rcases tells.notice with some | ⟨none, state⟩
      · have told : b.news a (.act e) = b.shared.manager.listeners.receivers.map fun listener =>
            ⟨listener, b.passed.length, (b.shared.step a e).manager.state⟩ := by
          rw [← tells.listeners]
          simp [news, some, Notice.turns, Manager.notice]
        rw [told, turnsOf_map faithful.nodup]
        by_cases registered : l ∈ b.shared.manager.listeners.receivers
        · exact .inl (if_pos registered)
        · exact .inr ⟨if_neg registered, fun h => absurd h registered⟩
      · exact .inr ⟨silent none, fun _ => state⟩
    · exact .inr ⟨silent none, fun _ => state⟩

theorem Faithful.mem_news (faithful : b.Faithful) (candid : a.Candid) {e : Event σ op ι}
    {turn : Turn σ ι} (h : turn ∈ b.news a e) :
    turn.change = b.passed.length ∧ (b.step a e).passed = b.passed ++ [turn.state] := by
  have own : turn ∈ turnsOf turn.listener (b.news a e) :=
    List.mem_filter.2 ⟨h, decide_eq_true rfl⟩
  rcases faithful.turnsOf_news candid turn.listener e with one | ⟨none, -⟩
  · rw [one] at own
    have same := List.mem_singleton.1 own
    cases e with
    | back => cases h
    | act e =>
      obtain ⟨shared, passed⟩ := shared_step (a := a) (b := b) e
      rw [same, passed, shared]
      exact ⟨rfl, rfl⟩
  · rw [none] at own
    cases own

theorem exists_passed_step (e : Event σ op ι) :
    ∃ later, (b.step a e).passed = b.passed ++ later := by
  cases e with
  | act e => exact ⟨_, (shared_step e).2⟩
  | back => exact ⟨[], by rw [shared_back.2, List.append_nil]⟩

theorem Faithful.step (faithful : b.Faithful) (candid : a.Candid) (e : Event σ op ι) :
    (b.step a e).Faithful where
  nodup := by
    cases e with
    | back =>
      rw [shared_back.1]
      exact faithful.nodup
    | act e =>
      rw [(shared_step e).1]
      rcases Shared.tells_step (s := b.shared) candid e with tells | ⟨-, -, nodup⟩
      · rw [tells.listeners]
        exact faithful.nodup
      · exact nodup faithful.nodup
  passed turn h := by
    rw [turns_step, List.append_assoc, List.mem_append, List.mem_append] at h
    have earlier (h : turn ∈ b.turns) : (b.step a e).passed[turn.change]? = some turn.state := by
      obtain ⟨later, passed⟩ := exists_passed_step (a := a) (b := b) e
      rw [passed, List.getElem?_append_left (faithful.change_lt h)]
      exact faithful.passed turn h
    rcases h with heard | new | awaited
    · exact earlier (List.mem_append_left _ heard)
    · obtain ⟨change, passed⟩ := faithful.mem_news candid new
      rw [passed, change, List.getElem?_concat_length]
    · exact earlier (List.mem_append_right _ awaited)

theorem Faithful.run (faithful : b.Faithful) (candid : a.Candid) (events : List (Event σ op ι)) :
    (b.run a events).Faithful := by
  induction events generalizing b with
  | nil => exact faithful
  | cons e events ih => exact ih (faithful.step candid e)

def InOrder (turns : List (Turn σ ι)) : Prop := turns.Pairwise (·.change < ·.change)

theorem Faithful.inOrder_step (faithful : b.Faithful) (candid : a.Candid) (l : ι)
    (e : Event σ op ι) : InOrder (turnsOf l (b.step a e).turns) ↔
      InOrder (turnsOf l b.turns) ∧ ¬b.Overtakes a l e := by
  have earlier {turn : Turn σ ι} (h : turn ∈ b.heardBy l ++ b.awaitedBy l) :
      turn.change < b.passed.length := by
    rw [← turnsOf_turns] at h
    exact faithful.change_lt (List.mem_of_mem_filter h)
  rw [turnsOf_step, turnsOf_turns]
  rcases faithful.turnsOf_news candid l e with one | ⟨none, -⟩
  · have overtakes : b.Overtakes a l e ↔ b.awaitedBy l ≠ [] := by simp [Overtakes, one]
    rw [one, overtakes, not_not]
    constructor
    · intro ordered
      have last := (List.pairwise_append.1 ordered).2.2
      have nothing : b.awaitedBy l = [] := by
        refine List.eq_nil_iff_forall_not_mem.2 fun turn awaited => ?_
        have after := last _ (List.mem_append_right _ (List.mem_singleton_self _)) turn awaited
        exact absurd after (Nat.lt_asymm (earlier (List.mem_append_right _ awaited)))
      rw [nothing, List.append_nil] at ordered ⊢
      exact ⟨(List.pairwise_append.1 ordered).1, rfl⟩
    · rintro ⟨ordered, nothing⟩
      simp only [nothing, List.append_nil] at ordered earlier ⊢
      refine List.pairwise_append.2 ⟨ordered, List.pairwise_singleton _ _, ?_⟩
      rintro turn heard new h
      rw [List.mem_singleton.1 h]
      exact earlier heard
  · have overtakes : ¬b.Overtakes a l e := fun h => h.1 none
    rw [none, List.append_nil]
    exact (and_iff_left overtakes).symm

theorem Faithful.inOrder_run (faithful : b.Faithful) (candid : a.Candid) (l : ι)
    (events : List (Event σ op ι)) : InOrder (turnsOf l (b.run a events).turns) ↔
      InOrder (turnsOf l b.turns) ∧ Prompt a l b events := by
  induction events generalizing b with
  | nil => exact (and_iff_left trivial).symm
  | cons e events ih =>
    rw [Prompt, Along, ← and_assoc, ← faithful.inOrder_step candid l e]
    exact ih (faithful.step candid e)

theorem Faithful.latest (faithful : b.Faithful) (candid : a.Candid) {l : ι}
    {events : List (Event σ op ι)} (stays : Stays a l b events) (prompt : Prompt a l b events)
    {earlier recent : List (Turn σ ι)} (turns : turnsOf l b.turns = earlier ++ recent)
    (latest : ∀ turn ∈ recent.getLast?, turn.state = b.shared.manager.state) :
    ∃ recent, turnsOf l (b.run a events).turns = earlier ++ recent ∧
      ∀ turn ∈ recent.getLast?, turn.state = (b.run a events).shared.manager.state := by
  induction events generalizing b recent with
  | nil => exact ⟨recent, turns, latest⟩
  | cons e events ih =>
    obtain ⟨registered, stays⟩ := stays
    obtain ⟨inTime, prompt⟩ := prompt
    have step := faithful.step candid e
    have after := turnsOf_step (a := a) (b := b) l e
    rcases faithful.turnsOf_news candid l e with one | ⟨none, same⟩
    · have nothing : b.awaitedBy l = [] := by
        by_contra awaited
        exact inTime ⟨by simp [one], awaited⟩
      rw [turnsOf_turns, nothing, List.append_nil] at turns
      rw [one, nothing, List.append_nil, turns, List.append_assoc] at after
      refine ih step stays prompt after ?_
      intro turn last
      rw [List.getLast?_concat] at last
      rw [← Option.some.inj last]
    · rw [none, List.append_nil, ← turnsOf_turns, turns] at after
      refine ih step stays prompt after ?_
      rw [same registered]
      exact latest

/-- Whatever listeners do when they are told of a change, they are told of states that the manager
has gone through. One of them hears of these in their order if and only if it never is told of a
change while it still waits to be told of an earlier one. If so, and if it stays registered until
all listeners are done, the last state that it has heard of meanwhile is the present one then. -/
theorem in_order_iff_prompt (candid : a.Candid) (initial : σ) (events : List (Event σ op ι))
    (l : ι) :
    let b := (new initial).run a events
    (∀ turn ∈ b.heardBy l, b.passed[turn.change]? = some turn.state) ∧
      (Prompt a l (new initial) events → InOrder (b.heardBy l)) ∧
      (b.rounds = [] → InOrder (b.heardBy l) → Prompt a l (new initial) events) ∧
      ∀ during, b.rounds = [] → (b.run a during).rounds = [] → Stays a l b during →
        Prompt a l b during → ∃ recent, (b.run a during).heardBy l = b.heardBy l ++ recent ∧
          ∀ turn ∈ recent.getLast?, turn.state = (b.run a during).shared.manager.state := by
  intro b
  have before : (new initial : Broadcast σ op ι).Faithful := faithful_new initial
  have faithful : b.Faithful := before.run candid events
  have ordered : InOrder (turnsOf l b.turns) ↔ Prompt a l (new initial) events := by
    rw [before.inOrder_run candid]
    exact and_iff_right List.Pairwise.nil
  refine ⟨?_, ?_, ?_, ?_⟩
  · intro turn heard
    exact faithful.passed turn (List.mem_append_left _ (List.mem_of_mem_filter heard))
  · intro prompt
    have all := ordered.2 prompt
    rw [turnsOf_turns] at all
    exact (List.pairwise_append.1 all).1
  · intro idle heard
    refine ordered.1 ?_
    rwa [turnsOf_turns, awaitedBy_of_idle idle, List.append_nil]
  · intro during idle done stays prompt
    have none : turnsOf l b.turns = b.heardBy l ++ [] := by
      rw [turnsOf_turns, awaitedBy_of_idle idle]
    obtain ⟨recent, turns, latest⟩ :=
      faithful.latest candid stays prompt none (fun _ h => nomatch h)
    rw [turnsOf_turns, awaitedBy_of_idle done, List.append_nil] at turns
    exact ⟨recent, turns, latest⟩

theorem in_order_iff_prompt_for_first :
    let events : List (Event Text.Document Edit String) :=
      [.act (.listen "first"), .act (.listen "second")]
    let during : List (Event Text.Document Edit String) :=
      [.act (.add [.insert 0 ['x']]), .act (.add [.insert 1 ['y']]), .back, .back, .back, .back]
    let b := (new [] : Broadcast Text.Document Edit String).run Text.algebra events
    let c := b.run Text.algebra during
    b.rounds = [] ∧ c.rounds = [] ∧ Stays Text.algebra "first" b during ∧
      Prompt Text.algebra "first" b during ∧
      c.heardBy "first" = [⟨"first", 3, ['x']⟩, ⟨"first", 4, ['x', 'y']⟩] ∧
      ∃ recent, c.heardBy "first" = b.heardBy "first" ++ recent ∧
        ∀ turn ∈ recent.getLast?, turn.state = c.shared.manager.state := by
  intro events during b c
  have idle : b.rounds = [] := by decide +kernel
  have done : c.rounds = [] := by decide +kernel
  have stays : Stays Text.algebra "first" b during := by decide +kernel
  have prompt : Prompt Text.algebra "first" b during := by decide +kernel
  obtain ⟨-, -, -, latest⟩ := in_order_iff_prompt Text.lawful.candid [] events "first"
  exact ⟨idle, done, stays, prompt, by decide +kernel, latest during idle done stays prompt⟩

/-- The listener after it hears of the later change first, and of a state of the past last. -/
theorem nested_change_overtakes :
    let events : List (Event Text.Document Edit String) :=
      [.act (.listen "first"), .act (.listen "second")]
    let during : List (Event Text.Document Edit String) :=
      [.act (.add [.insert 0 ['x']]), .act (.add [.insert 1 ['y']]), .back, .back, .back, .back]
    let b := (new [] : Broadcast Text.Document Edit String).run Text.algebra events
    let c := b.run Text.algebra during
    b.rounds = [] ∧ c.rounds = [] ∧ Stays Text.algebra "second" b during ∧
      c.heardBy "second" = [⟨"second", 4, ['x', 'y']⟩, ⟨"second", 3, ['x']⟩] ∧
      c.shared.manager.state = ['x', 'y'] := by
  decide +kernel

end Broadcast

end Reconcile
