import Mathlib.Data.List.Induction
import Mathlib.Data.List.Nodup
import Mathlib.Order.Bounds.Basic
import Reconcile.Manager.Basic
import Reconcile.Text.Edit
import Reconcile.Width

/-! What becomes of a registry of listeners, told by what has been done to it and what it has
answered. An identifier stands for one registration. Once that has ended, by a removal or because
all was cleared, the identifier is not given out again, so that a removal under it does nothing any
more. Hence what is registered is what has been added and has not ended since, and it stands in the
order in which it was registered. -/

namespace Reconcile.Listener

inductive Call (ι : Type)
  | add (listener : ι)
  | remove (id : Nat)
  | clear

inductive Event (ι : Type)
  | added (listener : ι) (id : Nat)
  | removed (id : Nat) (found : Bool)
  | cleared
  deriving DecidableEq

variable {ι : Type} {l l' : ι} {id id' place : Nat} {e e' : Event ι}
  {log before after : List (Event ι)}

def Call.isAdd : Call ι → Bool
  | .add _ => true
  | _ => false

def additions (calls : List (Call ι)) : Nat := calls.countP Call.isAdd

def Event.Ends (id : Nat) : Event ι → Prop
  | .added _ _ => False
  | .removed other _ => other = id
  | .cleared => True

/-- The listener was given the identifier, and that has not ended since. -/
def Registered (log : List (Event ι)) (l : ι) (id : Nat) : Prop :=
  ∃ before after, log = before ++ .added l id :: after ∧ ∀ e ∈ after, ¬e.Ends id

def registrations (log : List (Event ι)) (l : ι) : Set Nat :=
  {place | ∃ before id after, log = before ++ .added l id :: after ∧
    (∀ other, ¬Registered before l other) ∧ before.length = place}

/-- The latest registration of the one listener came before the latest one of the other. -/
def Precedes (log : List (Event ι)) (l l' : ι) : Prop :=
  ∃ i j, IsGreatest (registrations log l) i ∧ IsGreatest (registrations log l') j ∧ i < j

/-- No identifier is given out after it has ended. -/
def NoReturn (log : List (Event ι)) : Prop :=
  ∀ before e after l l' id, log = before ++ e :: after → .added l id ∈ before → e.Ends id →
    .added l' id ∉ after

theorem concat_eq_split : log ++ [e] = before ++ e' :: after ↔
    (log = before ∧ e = e' ∧ after = []) ∨
      ∃ rest, after = rest ++ [e] ∧ log = before ++ e' :: rest := by
  constructor
  · intro split
    rcases List.eq_nil_or_concat after with rfl | ⟨rest, last, rfl⟩
    · obtain ⟨rfl, same⟩ := List.append_inj' split rfl
      exact .inl ⟨rfl, List.singleton_inj.1 same, rfl⟩
    · rw [List.concat_eq_append, ← List.cons_append, ← List.append_assoc] at split
      obtain ⟨rfl, same⟩ := List.append_inj' split rfl
      obtain rfl := List.singleton_inj.1 same
      exact .inr ⟨rest, List.concat_eq_append, rfl⟩
  · rintro (⟨rfl, rfl, rfl⟩ | ⟨rest, rfl, rfl⟩)
    · rfl
    · simp

theorem Registered.mem (h : Registered log l id) : .added l id ∈ log := by
  obtain ⟨before, after, rfl, -⟩ := h
  exact List.mem_append_right _ List.mem_cons_self

theorem registered_concat :
    Registered (log ++ [e]) l id ↔ e = .added l id ∨ Registered log l id ∧ ¬e.Ends id := by
  constructor
  · rintro ⟨before, after, split, lasting⟩
    rcases concat_eq_split.1 split with ⟨rfl, rfl, rfl⟩ | ⟨rest, rfl, rfl⟩
    · exact .inl rfl
    · obtain ⟨lasting, stays⟩ := List.forall_mem_append.1 lasting
      exact .inr ⟨⟨before, rest, rfl, lasting⟩, stays e (List.mem_singleton_self e)⟩
  · rintro (rfl | ⟨⟨before, rest, rfl, lasting⟩, stays⟩)
    · exact ⟨log, [], rfl, fun _ h => nomatch h⟩
    · refine ⟨before, rest ++ [e], concat_eq_split.2 (.inr ⟨rest, rfl, rfl⟩), ?_⟩
      exact List.forall_mem_append.2 ⟨lasting, List.forall_mem_singleton.2 stays⟩

theorem registered_added : Registered (log ++ [.added l id]) l' id' ↔
    (l' = l ∧ id' = id) ∨ Registered log l' id' := by
  simp [registered_concat, Event.Ends, eq_comm]

theorem Registered.since (h : Registered (before ++ e :: after) l id) (ended : e.Ends id) :
    .added l id ∈ after := by
  induction after using List.reverseRecOn with
  | nil =>
    rcases registered_concat.1 h with rfl | ⟨-, stays⟩
    · exact ended.elim
    · exact absurd ended stays
  | append_singleton after last ih =>
    rw [← List.cons_append, ← List.append_assoc] at h
    rcases registered_concat.1 h with rfl | ⟨h, -⟩
    · exact List.mem_append_right _ (List.mem_singleton_self _)
    · exact List.mem_append_left _ (ih h)

theorem NoReturn.concat (noReturn : NoReturn log)
    (given : ∀ l id, e = .added l id → Registered log l id ∨ ∀ l', .added l' id ∉ log) :
    NoReturn (log ++ [e]) := by
  intro before ending after l l' id split first ended
  rcases concat_eq_split.1 split with ⟨rfl, rfl, rfl⟩ | ⟨rest, rfl, rfl⟩
  · exact List.not_mem_nil
  · have absent : .added l' id ∉ rest := noReturn _ _ _ l l' id rfl first ended
    intro again
    rcases List.mem_append.1 again with earlier | last
    · exact absent earlier
    -- one that is given again and still stands for its listener was given since it ended
    · rcases given l' id (List.mem_singleton.1 last).symm with still | fresh
      · exact absent (still.since ended)
      · exact fresh l (List.mem_append_left _ first)

theorem mem_registrations_concat : place ∈ registrations (log ++ [e]) l ↔
    place ∈ registrations log l ∨
      place = log.length ∧ (∃ id, e = .added l id) ∧ ∀ id, ¬Registered log l id := by
  constructor
  · rintro ⟨before, id, after, split, missing, rfl⟩
    rcases concat_eq_split.1 split with ⟨rfl, rfl, rfl⟩ | ⟨rest, rfl, rfl⟩
    · exact .inr ⟨rfl, ⟨id, rfl⟩, missing⟩
    · exact .inl ⟨before, id, rest, rfl, missing, rfl⟩
  · rintro (⟨before, id, rest, rfl, missing, rfl⟩ | ⟨rfl, ⟨id, rfl⟩, missing⟩)
    · exact ⟨before, id, rest ++ [e], concat_eq_split.2 (.inr ⟨rest, rfl, rfl⟩), missing, rfl⟩
    · exact ⟨log, id, [], rfl, missing, rfl⟩

theorem registrations_concat (again : ∀ id, e = .added l id → ∃ id, Registered log l id) :
    registrations (log ++ [e]) l = registrations log l := by
  ext place
  refine mem_registrations_concat.trans (or_iff_left ?_)
  rintro ⟨-, ⟨id, added⟩, missing⟩
  obtain ⟨id, registered⟩ := again id added
  exact missing id registered

theorem lt_length_of_mem_registrations (h : place ∈ registrations log l) : place < log.length := by
  obtain ⟨before, id, after, rfl, -, rfl⟩ := h
  rw [List.length_append, List.length_cons]
  omega

theorem isGreatest_registrations_concat (missing : ∀ id, ¬Registered log l id) (id : Nat) :
    IsGreatest (registrations (log ++ [.added l id]) l) log.length := by
  refine ⟨mem_registrations_concat.2 (.inr ⟨rfl, ⟨id, rfl⟩, missing⟩), fun place h => ?_⟩
  rcases mem_registrations_concat.1 h with earlier | ⟨rfl, -⟩
  · exact (lt_length_of_mem_registrations earlier).le
  · exact Nat.le_refl _

theorem Precedes.ne (h : Precedes log l l') : l ≠ l' := by
  rintro rfl
  obtain ⟨i, j, first, second, lt⟩ := h
  exact lt.ne (first.unique second)

structure Recorded (ι : Type) where
  registry : Registry ι
  log : List (Event ι)

namespace Recorded

variable {t : Recorded ι}

def new : Recorded ι := ⟨.empty, []⟩

structure Sound (t : Recorded ι) : Prop where
  registered : ∀ {l id}, (id, l) ∈ t.registry.entries ↔ Registered t.log l id
  given : ∀ {l id}, .added l id ∈ t.log → id < t.registry.nextId
  ascending : t.registry.entries.Pairwise (·.1 < ·.1)
  placed : ∀ l ∈ t.registry.receivers, ∃ place, IsGreatest (registrations t.log l) place
  inOrder : t.registry.receivers.Pairwise (Precedes t.log)
  noReturn : NoReturn t.log

theorem sound_new : (new : Recorded ι).Sound where
  registered := ⟨(nomatch ·), fun registered => nomatch registered.mem⟩
  given added := nomatch added
  ascending := .nil
  placed _ held := nomatch held
  inOrder := .nil
  noReturn before e after _ _ _ split := by
    cases before <;> cases split

theorem Sound.mem_receivers (sound : t.Sound) :
    l ∈ t.registry.receivers ↔ ∃ id, Registered t.log l id := by
  simp [Registry.receivers, sound.registered]

theorem Sound.nodup (sound : t.Sound) : t.registry.receivers.Nodup := sound.inOrder.imp Precedes.ne

theorem Sound.keep (sound : t.Sound) {entries : List (Nat × ι)}
    (fewer : entries.Sublist t.registry.entries)
    (again : ∀ l id, e = .added l id → Registered t.log l id)
    (registered : ∀ {l id}, (id, l) ∈ entries ↔ Registered (t.log ++ [e]) l id) :
    Sound ⟨{ t.registry with entries }, t.log ++ [e]⟩ := by
  have same (l : ι) : registrations (t.log ++ [e]) l = registrations t.log l :=
    registrations_concat fun id added => ⟨id, again l id added⟩
  have receivers : (entries.map (·.2)).Sublist t.registry.receivers := fewer.map _
  refine ⟨registered, ?given, sound.ascending.sublist fewer, ?placed, ?inOrder, ?noReturn⟩
  case given =>
    intro l id added
    rcases List.mem_append.1 added with earlier | last
    · exact sound.given earlier
    · exact sound.given (again l id (List.mem_singleton.1 last).symm).mem
  case placed =>
    intro l held
    rw [same]
    exact sound.placed l (receivers.subset held)
  case inOrder =>
    refine (sound.inOrder.sublist receivers).imp fun precedes => ?_
    simpa only [Precedes, same] using precedes
  case noReturn => exact sound.noReturn.concat fun l id added => .inl (again l id added)

theorem Sound.register (sound : t.Sound) (missing : l ∉ t.registry.receivers) :
    let id := t.registry.nextId
    Sound ⟨⟨t.registry.entries ++ [(id, l)], id + 1⟩, t.log ++ [.added l id]⟩ := by
  intro id
  have unknown (id : Nat) : ¬Registered t.log l id :=
    fun registered => missing (sound.mem_receivers.2 ⟨id, registered⟩)
  have fresh (other : ι) : .added other id ∉ t.log :=
    fun earlier => Nat.lt_irrefl _ (sound.given earlier)
  -- its place is the end of the log, and all others that are registered keep theirs
  have latest : IsGreatest (registrations (t.log ++ [.added l id]) l) t.log.length :=
    isGreatest_registrations_concat unknown id
  have same {other : ι} (held : other ∈ t.registry.receivers) :
      registrations (t.log ++ [.added l id]) other = registrations t.log other := by
    refine registrations_concat fun id added => ?_
    obtain ⟨rfl, -⟩ := Event.added.inj added
    exact absurd held missing
  have receivers : Registry.receivers ⟨t.registry.entries ++ [(id, l)], id + 1⟩ =
      t.registry.receivers ++ [l] := by
    simp [Registry.receivers]
  refine ⟨?registered, ?given, ?ascending, ?placed, ?inOrder, ?noReturn⟩
  case registered =>
    intro other id'
    rw [registered_added, List.mem_append, sound.registered, List.mem_singleton, Prod.mk.injEq,
      or_comm, and_comm]
  case given =>
    intro other id' added
    rcases List.mem_append.1 added with earlier | last
    · exact Nat.lt_succ_of_lt (sound.given earlier)
    · obtain ⟨-, rfl⟩ := Event.added.inj (List.mem_singleton.1 last)
      exact Nat.lt_succ_self _
  case ascending =>
    refine List.pairwise_append.2 ⟨sound.ascending, List.pairwise_singleton _ _, ?_⟩
    intro entry held new added
    rw [List.mem_singleton.1 added]
    exact sound.given (sound.registered.1 held).mem
  case placed =>
    intro other held
    rw [receivers] at held
    rcases List.mem_append.1 held with earlier | new
    · rw [same earlier]
      exact sound.placed other earlier
    · rw [List.mem_singleton.1 new]
      exact ⟨_, latest⟩
  case inOrder =>
    rw [receivers]
    refine List.pairwise_append.2 ⟨?_, List.pairwise_singleton _ _, ?_⟩
    · refine sound.inOrder.imp_of_mem fun held held' precedes => ?_
      rwa [Precedes, same held, same held']
    · intro other held new added
      rw [List.mem_singleton.1 added]
      obtain ⟨place, earlier⟩ := sound.placed other held
      have before := lt_length_of_mem_registrations earlier.1
      rw [← same held] at earlier
      exact ⟨place, _, earlier, latest, before⟩
  case noReturn =>
    refine sound.noReturn.concat fun other id' added => .inr ?_
    obtain ⟨-, rfl⟩ := Event.added.inj added
    exact fresh

theorem Sound.remove_eq (sound : t.Sound) (registered : Registered t.log l id) :
    ∃ before after, t.registry.entries = before ++ (id, l) :: after ∧
      t.registry.remove id = (true, { t.registry with entries := before ++ after }) := by
  obtain ⟨before, after, entries⟩ := List.append_of_mem (sound.registered.2 registered)
  have ascending := sound.ascending
  rw [entries] at ascending
  obtain ⟨-, later, earlier⟩ := List.pairwise_append.1 ascending
  refine ⟨before, after, entries, Registry.remove_of_entries entries fun entry held => ?_⟩
  rcases List.mem_append.1 held with held | held
  · exact (earlier entry held _ List.mem_cons_self).ne
  · exact (List.rel_of_pairwise_cons later held).ne'

theorem Sound.remove_eq_of_ended (sound : t.Sound) (ended : ∀ l, ¬Registered t.log l id) :
    t.registry.remove id = (false, t.registry) := by
  refine Registry.remove_of_missing ?_
  rintro ⟨id, l⟩ held rfl
  exact ended l (sound.registered.1 held)

variable [DecidableEq ι]

def step (t : Recorded ι) : Call ι → Recorded ι
  | .add l =>
    let (id, registry) := t.registry.add l
    ⟨registry, t.log ++ [.added l id]⟩
  | .remove id =>
    let (found, registry) := t.registry.remove id
    ⟨registry, t.log ++ [.removed id found]⟩
  | .clear => ⟨t.registry.clear, t.log ++ [.cleared]⟩

def run (t : Recorded ι) (calls : List (Call ι)) : Recorded ι := calls.foldl step t

theorem Sound.step (sound : t.Sound) (call : Call ι) : (t.step call).Sound := by
  cases call with
  | add l =>
    rcases t.registry.add_cases l with ⟨id, held, same⟩ | ⟨missing, added⟩
    · have registered := sound.registered.1 held
      simp only [Recorded.step, same]
      refine sound.keep (List.Sublist.refl _) ?_ ?_
      · intro l id added
        obtain ⟨rfl, rfl⟩ := Event.added.inj added
        exact registered
      · intro l' id'
        rw [registered_added, sound.registered]
        refine (or_iff_right_of_imp ?_).symm
        rintro ⟨rfl, rfl⟩
        exact registered
    · simp only [Recorded.step, added]
      exact sound.register missing
  | remove id =>
    refine sound.keep List.filter_sublist (fun _ _ h => nomatch h) ?_
    intro l id'
    simp [registered_concat, sound.registered, Event.Ends, @eq_comm _ id]
  | clear =>
    refine sound.keep (List.nil_sublist _) (fun _ _ h => nomatch h) ?_
    intro l id
    simp [registered_concat, Event.Ends]

theorem Sound.run (sound : t.Sound) (calls : List (Call ι)) : (t.run calls).Sound := by
  induction calls generalizing t with
  | nil => exact sound
  | cons call calls ih => exact ih (sound.step call)

theorem Sound.add_eq (sound : t.Sound) (registered : Registered t.log l id) :
    t.registry.add l = (id, t.registry) := by
  have held := sound.registered.2 registered
  rcases t.registry.add_cases l with ⟨id', held', same⟩ | ⟨missing, -⟩
  · rw [same, (Prod.mk.inj (List.inj_on_of_nodup_map sound.nodup held' held rfl)).1]
  · exact absurd (List.mem_map.2 ⟨_, held, rfl⟩) missing

theorem nextId_step (call : Call ι) :
    (t.step call).registry.nextId ≤ t.registry.nextId + additions [call] := by
  cases call with
  | add l =>
    rcases t.registry.add_cases l with ⟨id, -, same⟩ | ⟨-, added⟩
    · simp [Recorded.step, same]
    · simp only [Recorded.step, added]
      exact Nat.le_refl _
  | remove id => exact Nat.le_refl _
  | clear => exact Nat.le_refl _

theorem nextId_run (calls : List (Call ι)) :
    (t.run calls).registry.nextId ≤ t.registry.nextId + additions calls := by
  induction calls generalizing t with
  | nil => exact Nat.le_refl _
  | cons call calls ih =>
    have first := nextId_step (t := t) call
    have rest := ih (t := t.step call)
    have all : additions (call :: calls) = additions [call] + additions calls := by
      rw [additions, ← List.singleton_append, List.countP_append]
      rfl
    change ((t.step call).run calls).registry.nextId ≤ _
    omega

/-- Whatever has been added, removed and cleared, what is registered is what was added and has not
ended since, each listener once and under an identifier of its own, and an identifier that has ended
stands for nothing ever after. Who is told of a change then is told once, in the order of the latest
registrations. The identifiers do not run out as long as there are words of 64 bits for all that is
added. -/
theorem registrations_stay_distinct {σ op : Type} (calls : List (Call ι))
    (few : additions calls < Width.values64) :
    let t := new.run calls
    let r := t.registry
    (r.nextId < Width.values64 ∧ ∀ l id, .added l id ∈ t.log → id < r.nextId) ∧
      ((r.entries.map (·.1)).Nodup ∧ (r.entries.map (·.2)).Nodup ∧
        r.entries.Pairwise (·.1 < ·.1)) ∧
      (∀ l id, (id, l) ∈ r.entries ↔ Registered t.log l id) ∧ NoReturn t.log ∧
      (∀ l id, Registered t.log l id → r.add l = (id, r)) ∧
      (∀ l id, Registered t.log l id → ∃ before after, r.entries = before ++ (id, l) :: after ∧
        r.remove id = (true, { r with entries := before ++ after })) ∧
      (∀ id, (∀ l, ¬Registered t.log l id) → r.remove id = (false, r)) ∧
      ∀ m : Manager σ op ι, m.listeners = r →
        (∀ l state, (l, state) ∈ m.notice.turns ↔
          (∃ id, Registered t.log l id) ∧ state = m.state) ∧
        (m.notice.turns.map (·.1)).Nodup ∧
        (m.notice.turns.map (·.1)).Pairwise (Precedes t.log) := by
  intro t r
  have sound : t.Sound := sound_new.run calls
  have counted : t.registry.nextId ≤ 0 + additions calls := nextId_run (t := new) calls
  rw [Nat.zero_add] at counted
  refine ⟨⟨Nat.lt_of_le_of_lt counted few, fun l id => sound.given⟩,
    ⟨?_, sound.nodup, sound.ascending⟩, fun l id => sound.registered, sound.noReturn,
    fun l id => sound.add_eq, fun l id => sound.remove_eq, fun id => sound.remove_eq_of_ended, ?_⟩
  · exact List.pairwise_map.2 (sound.ascending.imp Nat.ne_of_lt)
  · intro m listeners
    have turns : m.notice.turns = t.registry.receivers.map (·, m.state) :=
      congrArg (·.receivers.map (·, m.state)) listeners
    have told : m.notice.turns.map (·.1) = t.registry.receivers := by
      simp [turns, Function.comp_def]
    refine ⟨?_, told ▸ sound.nodup, told ▸ sound.inOrder⟩
    intro l state
    simp [turns, sound.mem_receivers, @eq_comm _ m.state]

theorem registrations_stay_distinct_after_clear :
    let calls : List (Call String) := [.add "a", .add "b", .remove 0, .add "b", .add "a", .clear,
      .add "b", .remove 1, .add "a"]
    let t := new.run calls
    let m : Manager Text.Document Text.Edit String :=
      { (Manager.new ['x'] : Manager Text.Document Text.Edit String) with
        listeners := t.registry }
    additions calls < Width.values64 ∧
      t.log = [.added "a" 0, .added "b" 1, .removed 0 true, .added "b" 1, .added "a" 2, .cleared,
        .added "b" 3, .removed 1 false, .added "a" 4] ∧
      t.registry.add "b" = (3, t.registry) ∧ t.registry.remove 2 = (false, t.registry) ∧
      m.notice.turns = [("b", ['x']), ("a", ['x'])] ∧ Precedes t.log "b" "a" := by
  intro calls t m
  have few : additions calls < Width.values64 := by decide
  obtain ⟨-, -, registered, -, again, -, ended, told⟩ :=
    @registrations_stay_distinct String _ Text.Document Text.Edit calls few
  have entries : t.registry.entries = [(3, "b"), (4, "a")] := by decide
  have turns : m.notice.turns = [("b", ['x']), ("a", ['x'])] := by decide
  have inOrder := (told m rfl).2.2
  rw [turns] at inOrder
  refine ⟨few, by decide, again "b" 3 ?_, ended 2 fun l stands => ?_, turns, ?_⟩
  · rw [← registered, entries]
    decide
  · rw [← registered, entries] at stands
    simp at stands
  · simpa using inOrder

end Recorded

end Reconcile.Listener
