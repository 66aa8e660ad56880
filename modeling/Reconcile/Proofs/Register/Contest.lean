import Reconcile.Proofs.Register.Convergence
import Reconcile.Proofs.Sync.Solo

/-! Clients that write to one key at the same revision and then sync, one after the other. The first
write is committed as it is; each later one meets what the earlier ones have committed, and goes on
from the last of these if it is greater than all of them, or it is dropped. So what is committed to
the key rises, and comes to rest at the greatest value that was written, whoever syncs first. -/

namespace Reconcile.Register

open Diamond (Grid grid_nil_left grid_nil_right)
open Text (Quoted)

variable {K V : Type}

section Peaks

variable [Ord V]

def raise (values : List V) (x : V) : List V :=
  if ∀ u ∈ values, compare u x = .lt then values ++ [x] else values

/-- Of the values that were written these were taken up: each was greater than those before it, and
none of the others is greater than all of them. -/
structure Peaks (written taken : List V) : Prop where
  rising : taken.Pairwise (compare · · = .lt)
  among : ∀ u ∈ taken, u ∈ written
  covers : ∀ x ∈ written, ∃ u ∈ taken, (compare x u).isLE = true

theorem peaks_nil : Peaks ([] : List V) [] := ⟨.nil, by simp, by simp⟩

variable {written taken : List V} [Std.TransOrd V]

theorem Peaks.raise (peaks : Peaks written taken) (x : V) :
    Peaks (written ++ [x]) (raise taken x) := by
  obtain ⟨rising, among, covers⟩ := peaks
  have kept (u : V) (h : u ∈ taken) : u ∈ written ++ [x] := List.mem_append_left _ (among u h)
  simp only [Register.raise]
  split
  · rename_i greatest
    refine ⟨?_, ?_, ?_⟩
    · exact List.pairwise_append.2 ⟨rising, .cons (by simp) .nil, by simpa using greatest⟩
    · simp only [List.forall_mem_append, List.forall_mem_singleton]
      exact ⟨kept, by simp⟩
    · simp only [List.forall_mem_append, List.forall_mem_singleton]
      refine ⟨fun y h => ?_, x, by simp, by simp [Std.ReflOrd.compare_self]⟩
      obtain ⟨u, taken, below⟩ := covers y h
      exact ⟨u, List.mem_append_left _ taken, below⟩
  · rename_i lower
    refine ⟨rising, kept, ?_⟩
    simp only [List.forall_mem_append, List.forall_mem_singleton]
    refine ⟨covers, ?_⟩
    push Not at lower
    obtain ⟨u, taken, notLess⟩ := lower
    refine ⟨u, taken, ?_⟩
    cases greater : compare x u with
    | lt | eq => rfl
    | gt => exact absurd (Std.OrientedCmp.gt_iff_lt.1 greater) notLess

theorem Peaks.top (peaks : Peaks written taken) (some : written ≠ []) (start : V) :
    taken.getLastD start ∈ written ∧
      ∀ x ∈ written, (compare x (taken.getLastD start)).isLE = true := by
  obtain ⟨rising, among, covers⟩ := peaks
  obtain ⟨x, written, rfl⟩ := List.exists_cons_of_ne_nil some
  obtain ⟨u, member, -⟩ := covers x (List.mem_cons_self ..)
  rcases List.eq_nil_or_concat taken with rfl | ⟨lower, top, rfl⟩
  · cases member
  · rw [List.concat_eq_append] at *
    rw [List.getLastD_concat]
    refine ⟨among top (by simp), fun y h => ?_⟩
    obtain ⟨u, member, below⟩ := covers y h
    rcases List.mem_append.1 member with member | last
    · have less := (List.pairwise_append.1 rising).2.2 u member top (List.mem_singleton_self top)
      exact Std.TransCmp.isLE_trans below (by simp [less])
    · rwa [List.mem_singleton.1 last] at below

end Peaks

def climb (key : K) : Option V → List (Option V) → List (Write K V)
  | _, [] => []
  | v, u :: values => ⟨key, v, u⟩ :: climb key u values

theorem climb_concat (key : K) (v x : Option V) (values : List (Option V)) :
    climb key v (values ++ [x]) = climb key v values ++ [⟨key, values.getLastD v, x⟩] := by
  induction values generalizing v with
  | nil => rfl
  | cons u values ih => simp only [List.cons_append, climb, ih, List.getLastD_cons]

theorem nonempty_climb [DecidableEq V] (key : K) {v : Option V} {values : List (Option V)}
    (distinct : (v :: values).Nodup) : ∀ w ∈ climb key v values, w.isEmpty = false := by
  induction values generalizing v with
  | nil => simp [climb]
  | cons u values ih =>
    obtain ⟨absent, distinct⟩ := List.nodup_cons.1 distinct
    have moves : v ≠ u := fun same => absent (same ▸ List.mem_cons_self ..)
    exact List.forall_mem_cons.2 ⟨by simp [Write.isEmpty, moves], ih distinct⟩

section Crossing

variable [Ord K] [Std.TransOrd K] [DecidableEq K] [Quoted K] [Ord V] [Std.TransOrd V]
  [Std.LawfulEqOrd V] [DecidableEq V] [Quoted V] {w : Write K V} {d : Diamond (Write K V)}

theorem left_of_grid_elsewhere (effective : w.isEmpty = false) {others : List (Write K V)}
    (elsewhere : ∀ o ∈ others, o.key ≠ w.key)
    (g : Grid (algebra K V).isEmpty (algebra K V).cross [w] others d) : d.left = [w] := by
  induction others generalizing d with
  | nil =>
    obtain rfl := grid_nil_right g
    rfl
  | cons o others ih =>
    obtain ⟨first, elsewhere⟩ := List.forall_mem_cons.1 elsewhere
    obtain ⟨e, tail, crossed, far, rfl⟩ := g.uncons_right
    obtain rfl : e = .unchanged w o := by
      cases algebra_cross.1 crossed with
      | apart different => rfl
      | agree same | keepLeft same | keepRight same => exact absurd same.symm first
    have kept : (Diamond.prune (algebra K V).isEmpty (.unchanged w o)).left = [w] := by
      simp [Diamond.prune, Diamond.unchanged, algebra, effective]
    rw [kept] at far
    have left : tail.left = [w] := ih elsewhere far
    exact left

theorem left_of_grid_climb {key : K} {v x : Option V} {values : List (Option V)}
    (distinct : (v :: values).Nodup) (effective : v ≠ x)
    (g : Grid (algebra K V).isEmpty (algebra K V).cross [⟨key, v, x⟩] (climb key v values) d) :
    d.left = if ∀ u ∈ values, compare u x = .lt then [⟨key, values.getLastD v, x⟩] else [] := by
  induction values generalizing v d with
  | nil =>
    obtain rfl := grid_nil_right g
    simp
  | cons u values ih =>
    obtain ⟨absent, distinct⟩ := List.nodup_cons.1 distinct
    have moves : v ≠ u := fun same => absent (same ▸ List.mem_cons_self ..)
    obtain ⟨e, tail, crossed, far, rfl⟩ := g.uncons_right
    have dropped (none : e.left = []) (notLess : compare u x ≠ .lt) : tail.left =
        if ∀ y ∈ u :: values, compare y x = .lt then
          [⟨key, (u :: values).getLastD v, x⟩] else [] := by
      rw [Diamond.prune, none] at far
      obtain rfl := grid_nil_left far
      rw [if_neg fun all => notLess (all u (List.mem_cons_self ..))]
    cases algebra_cross.1 crossed with
    | apart different => exact absurd rfl different
    | agree same before after =>
      obtain rfl : x = u := after
      exact dropped rfl (by simp [Std.ReflOrd.compare_self])
    | keepRight same before greater =>
      have greater : compare u x = .gt := greater
      exact dropped rfl (by simp [greater])
    | keepLeft same before greater =>
      have less : compare u x = .lt := Std.OrientedCmp.gt_iff_lt.1 greater
      have effective : u ≠ x := fun equal => by simp [equal, Std.ReflOrd.compare_self] at less
      have kept : (Diamond.prune (algebra K V).isEmpty ⟨[(⟨key, u, x⟩ : Write K V)], []⟩).left =
          [⟨key, u, x⟩] := by
        simp [Diamond.prune, algebra, Write.isEmpty, effective]
      rw [kept] at far
      simp only [List.forall_mem_cons, less, true_and, List.getLastD_cons]
      exact ih distinct effective far

theorem left_of_transform {values : List (Option V)} {others : List (Write K V)}
    (effective : w.isEmpty = false) (distinct : (w.before :: values).Nodup)
    (elsewhere : ∀ o ∈ others, o.key ≠ w.key)
    (crossed : (algebra K V).transform [w] (others ++ climb w.key w.before values) = .ok d) :
    climb w.key w.before values ++ d.left =
      climb w.key w.before (raise values w.after) := by
  have g := Algebra.grid_of_transform crossed
  have single : [w].filter (!(algebra K V).isEmpty ·) = [w] := by simp [algebra, effective]
  have chain : (climb w.key w.before values).filter (!(algebra K V).isEmpty ·) =
      climb w.key w.before values :=
    List.filter_eq_self.2 fun o h => by simp [algebra, nonempty_climb w.key distinct o h]
  rw [single, List.filter_append, chain] at g
  obtain ⟨head, tail, near, far, rfl⟩ := g.cut_right
  rw [left_of_grid_elsewhere effective (fun o h => elsewhere o (List.mem_filter.1 h).1) near] at far
  have moves : w.before ≠ w.after := by simpa [Write.isEmpty] using effective
  have left := left_of_grid_climb distinct moves far
  simp only [left, raise]
  split
  · rw [climb_concat]
  · rw [List.append_nil]

variable [Std.LawfulEqOrd K]

omit [Std.TransOrd V] [Std.LawfulEqOrd V] in
theorem applyAll_climb {held : Registers K V} {key : K} {v : Option V} (start : held[key]? = v)
    (values : List (Option V)) : (algebra K V).applyAll held (climb key v values) =
      .ok (put held key (values.getLastD v)) := by
  induction values generalizing held v with
  | nil =>
    subst start
    rw [List.getLastD_nil, put_getElem?]
    rfl
  | cons u values ih =>
    have applied : (algebra K V).apply held ⟨key, v, u⟩ = .ok (put held key u) :=
      keyed.apply_eq_ok.2 ⟨u, single_apply.2 ⟨start, rfl⟩, rfl⟩
    rw [climb, Algebra.applyAll_cons, applied, ok_bind, ih (getElem?_put_self ..), put_put,
      List.getLastD_cons]

end Crossing

end Reconcile.Register

namespace Reconcile.Network

open Register (Registers Write Peaks climb raise algebra)
open Text (Quoted)

variable {κ ι K V : Type} [DecidableEq κ] [Ord K] [Std.TransOrd K] [Std.LawfulEqOrd K]
  [DecidableEq K] [Quoted K] [Ord V] [Std.TransOrd V] [Std.LawfulEqOrd V] [DecidableEq V]
  [Quoted V] {net net' : Network κ (Registers K V) (Write K V) ι} {initial : Registers K V}
  {made : Revision} {log : List (Write K V)} {key : K} {before : Option V}
  {written taken : List (Option V)}

structure Wrote (net : Network κ (Registers K V) (Write K V) ι) (made : Revision) (key : K)
    (client : κ) (w : Write K V) : Prop where
  rests : (net.sessions client).manager.Rests [w]
  made : (net.sessions client).manager.revision = made
  key : w.key = key

structure Contested (log : List (Write K V)) (key : K) (before : Option V)
    (written taken : List (Option V)) (net : Network κ (Registers K V) (Write K V) ι) : Prop where
  peaks : Peaks written taken
  fresh : before ∉ taken
  log : net.history.operations = log ++ climb key before taken

omit [DecidableEq κ] [Std.TransOrd V] [Std.LawfulEqOrd V] in
theorem Wrote.effective {client : κ} {w : Write K V} (wrote : net.Wrote made key client w)
    (inv : net.Invariant (algebra K V) initial) {held : Registers K V}
    (latest : (algebra K V).applyAll initial net.history.operations = .ok held)
    (elsewhere : ∀ o ∈ net.history.operations.drop made.value, o.key ≠ key) :
    w.before = held[key]? ∧ w.isEmpty = false := by
  obtain ⟨rests, rfl, rfl⟩ := wrote
  have anchored := inv.anchored client
  have sound := anchored.steady.sound
  simp only [Manager.Sound, rests.inflight, rests.pending, List.nil_append] at sound
  obtain ⟨applied, effective⟩ := Algebra.path_singleton.1 sound
  obtain ⟨v, atBase, -⟩ := Register.keyed.apply_eq_ok.1 applied
  have start := (Register.single_apply.1 atBase).1
  refine ⟨?_, by simpa [algebra] using effective⟩
  obtain ⟨-, base⟩ := anchored.places
  rw [← List.take_append_drop (net.sessions client).manager.revision.value net.history.operations,
    Algebra.applyAll_append, base, ok_bind] at latest
  have kept := Register.keyed.applyAll_at w.key latest
  rw [List.filter_eq_nil_iff.2 fun o h => by simpa using elsewhere o h] at kept
  exact start.symm.trans (Except.ok.inj kept)

theorem Contested.sync {client : κ} {w : Write K V}
    (contested : Contested log key before written taken net)
    (inv : net.Invariant (algebra K V) initial) (wrote : net.Wrote made key client w)
    (start : w.before = before) (effective : w.isEmpty = false) (within : made.value ≤ log.length)
    (elsewhere : ∀ o ∈ log.drop made.value, o.key ≠ key)
    (completes : net.Completes (algebra K V) .sync client net') :
    Contested log key before (written ++ [w.after]) (raise taken w.after) net' ∧
      (net'.sessions client).manager.Rests [] := by
  obtain ⟨peaks, fresh, grown⟩ := contested
  obtain ⟨rests, rfl, rfl⟩ := wrote
  subst start
  have batch : (algebra K V).squashAll [w] = [w] := by
    simp [Algebra.squashAll, Algebra.squashInto, algebra, effective]
  obtain ⟨⟨d, crossed, after⟩, rested⟩ :=
    completes.sync (.registers K V) inv rests (by simp [batch])
  rw [batch, grown, List.drop_append_of_le_length within] at crossed
  have distinct : (w.before :: taken).Nodup := by
    refine List.nodup_cons.2 ⟨fresh, peaks.rising.imp fun {u v} less same => ?_⟩
    simp [same, Std.ReflOrd.compare_self] at less
  have left := Register.left_of_transform effective distinct elsewhere crossed
  refine ⟨⟨peaks.raise w.after, ?_, ?_⟩, rested⟩
  · have moves : w.before ≠ w.after := by simpa [Write.isEmpty] using effective
    simp only [raise]
    split
    · simp [fresh, moves]
    · exact fresh
  · rw [after, grown, List.append_assoc, left]

theorem CompleteAll.writes {order : List κ} {w : κ → Write K V}
    (all : CompleteAll (algebra K V) .sync order net net')
    (contested : Contested log key before written taken net)
    (inv : net.Invariant (algebra K V) initial) (distinct : order.Nodup)
    (wrote : ∀ k ∈ order, net.Wrote made key k (w k))
    (effective : ∀ k ∈ order, (w k).before = before ∧ (w k).isEmpty = false)
    (within : made.value ≤ log.length) (elsewhere : ∀ o ∈ log.drop made.value, o.key ≠ key) :
    (∃ taken, Contested log key before (written ++ order.map fun k => (w k).after) taken net') ∧
      ∀ k ∈ order, (net'.sessions k).manager.Rests [] := by
  induction all generalizing written taken with
  | nil net => exact ⟨⟨taken, by rwa [List.map_nil, List.append_nil]⟩, by simp⟩
  | @cons client clients net mid net' first rest ih =>
    obtain ⟨now, others⟩ := List.forall_mem_cons.1 wrote
    obtain ⟨⟨start, acts⟩, effective⟩ := List.forall_mem_cons.1 effective
    have same := first.sessions_of_nodup distinct
    obtain ⟨absent, distinct⟩ := List.nodup_cons.1 distinct
    obtain ⟨higher, rested⟩ := contested.sync inv now start acts within elsewhere first
    have waiting (k : κ) (h : k ∈ clients) : mid.Wrote made key k (w k) := by
      obtain ⟨rests, made, key⟩ := others k h
      rw [← same k h] at rests made
      exact ⟨rests, made, key⟩
    obtain ⟨⟨taken', contested'⟩, rests⟩ := ih higher
      (first.invariant Register.lawful inv) distinct waiting effective
    rw [List.append_assoc] at contested'
    refine ⟨⟨taken', contested'⟩, List.forall_mem_cons.2 ⟨?_, rests⟩⟩
    rw [rest.sessions_of_not_mem absent]
    exact rested

/-- Clients that know the same revision have each queued one write to the same key, and nothing that
was committed since concerns that key. They can sync one after the other in any order, and however
they do so, the key then holds the greatest of the values that they wrote, where no value is the
lowest, and every other key holds what it held. Once each of them has pulled, again in any order,
they all show the committed registers. -/
theorem greatest_write_wins {reached : Registers K V}
    (applies : (algebra K V).applyAll initial log = .ok reached)
    (events : List (Event κ (Write K V))) (order : List κ) (w : κ → Write K V) :
    let net := (new initial log : Network κ _ _ ι).run (algebra K V) events
    order ≠ [] → order.Nodup → (∀ k ∈ order, net.Wrote made key k (w k)) →
      (∀ o ∈ net.history.operations.drop made.value, o.key ≠ key) →
      (∃ net', CompleteAll (algebra K V) .sync order net net') ∧
        ∀ net', CompleteAll (algebra K V) .sync order net net' → ∃ held held',
          (algebra K V).applyAll initial net.history.operations = .ok held ∧
          (algebra K V).applyAll initial net'.history.operations = .ok held' ∧
          (∃ k ∈ order, held'[key]? = (w k).after) ∧
          (∀ k ∈ order, (compare (w k).after held'[key]?).isLE = true) ∧
          (∀ other, other ≠ key → held'[other]? = held[other]?) ∧
          ∀ later, later.Perm order → (∃ net'', CompleteAll (algebra K V) .pull later net' net'') ∧
            ∀ net'', CompleteAll (algebra K V) .pull later net' net'' →
              net''.history.operations = net'.history.operations ∧
              ∀ k ∈ order, (net''.sessions k).manager.IsSynced ∧
                (net''.sessions k).manager.state = held' := by
  intro net some distinct wrote elsewhere
  have limited : Limited (algebra K V) .unlimited := .registers K V
  have lawful := limited.lawful
  have inv : net.Invariant (algebra K V) initial := (invariant_new applies).run lawful events
  obtain ⟨held, latest⟩ := inv.applies
  have effective (k : κ) (h : k ∈ order) := (wrote k h).effective inv latest elsewhere
  have squashed (v : Write K V) (acts : v.isEmpty = false) : (algebra K V).squashAll [v] ≠ [] := by
    simp [Algebra.squashAll, Algebra.squashInto, algebra, acts]
  constructor
  · exact exists_completeAll
      (fun k s => s.manager.Rests [w k] ∧ (algebra K V).squashAll [w k] ≠ [])
      (fun inv ready => exists_completes_sync limited inv ready.1 ready.2) lawful inv distinct
      fun k h => ⟨(wrote k h).rests, squashed _ (effective k h).2⟩
  intro net' all
  obtain ⟨first, rest, rfl⟩ := List.exists_cons_of_ne_nil some
  have within : made.value ≤ net.history.operations.length := by
    rw [← (wrote first (List.mem_cons_self ..)).made]
    exact (inv.anchored first).places.1
  have uncontested : Contested net.history.operations key held[key]? [] [] net :=
    ⟨Register.peaks_nil, by simp, by rw [climb, List.append_nil]⟩
  obtain ⟨⟨taken, contested⟩, rests⟩ :=
    all.writes uncontested inv distinct wrote effective within elsewhere
  have inv' := all.invariant lawful inv
  have latest' : (algebra K V).applyAll initial net'.history.operations =
      .ok (put held key (taken.getLastD held[key]?)) := by
    rw [contested.log, Algebra.applyAll_append, latest, ok_bind, Register.applyAll_climb rfl]
  obtain ⟨written, greatest⟩ := contested.peaks.top (by simp) held[key]?
  refine ⟨held, _, latest, latest', ?_, ?_, ?_, ?_⟩
  · rw [getElem?_put_self]
    obtain ⟨k, h, same⟩ := List.mem_map.1 written
    exact ⟨k, h, same.symm⟩
  · rw [getElem?_put_self]
    exact fun k h => greatest _ (List.mem_map_of_mem h)
  · exact fun other different => getElem?_put_of_ne (Ne.symm different) held _
  · intro later reordered
    have distinct := reordered.nodup_iff.2 distinct
    have rests (k : κ) (h : k ∈ later) := rests k (reordered.mem_iff.1 h)
    constructor
    · exact exists_completeAll (fun _ s => s.manager.Rests [])
        (fun inv ready => exists_completes_pull lawful inv ready) lawful inv' distinct rests
    · intro net'' pulled
      refine ⟨(pulled.pull lawful inv' distinct rests).1, fun k h => ?_⟩
      exact pulled.pull_state lawful inv' distinct rests latest' (reordered.mem_iff.2 h)

theorem greatest_write_wins_among_three :
    let log : List (Write String Int) := [⟨"a", none, some 5⟩, ⟨"b", none, some 1⟩]
    let w : Fin 4 → Write String Int
      | 0 => ⟨"a", some 5, some 7⟩
      | 1 => ⟨"a", some 5, none⟩
      | 2 => ⟨"a", some 5, some 9⟩
      | 3 => ⟨"b", some 1, some 2⟩
    let events : List (Event (Fin 4) (Write String Int)) :=
      [0, 1, 2, 3].flatMap (fun k => callEvents k .checkout 1 ++ [.act k (.add [w k])]) ++
        callEvents 3 .sync 1
    let net : Network (Fin 4) (Registers String Int) (Write String Int) String :=
      (new ∅ log).run (algebra String Int) events
    net.history.operations.length = 3 ∧ ∃ net' held,
      CompleteAll (algebra String Int) .sync [1, 2, 0] net net' ∧
      (algebra String Int).applyAll ∅ net'.history.operations = .ok held ∧
      held["a"]? = some 9 ∧ held["b"]? = some 2 := by
  intro log w events net
  have applies : (algebra String Int).applyAll ∅ log =
      .ok (put (put ∅ "a" (some 5)) "b" (some 1)) := by decide +kernel
  have queued : ∀ k ∈ [1, 2, 0],
      let m := (net.sessions k).manager
      (m.closed = false ∧ m.halted = false) ∧ m.checkedOut = true ∧ m.activity = none ∧
        m.rejected = [] ∧ m.inflight = [] ∧ m.pending = [w k] ∧ m.revision = ⟨2⟩ ∧
        (w k).key = "a" := by
    decide +kernel
  have wrote (k : Fin 4) (h : k ∈ [1, 2, 0]) : net.Wrote ⟨2⟩ "a" k (w k) := by
    obtain ⟨isOpen, checkedOut, idle, reported, inflight, pending, revision, key⟩ := queued k h
    have known := Manager.ensureCheckedOut_eq_ok.2 ⟨Manager.ensureOpen_eq_ok.2 isOpen, checkedOut⟩
    exact ⟨⟨known, idle, reported, inflight, pending⟩, revision, key⟩
  have elsewhere : ∀ o ∈ net.history.operations.drop 2, o.key ≠ "a" := by decide +kernel
  obtain ⟨⟨net', all⟩, settles⟩ := greatest_write_wins (ι := String) applies events [1, 2, 0] w
    (by simp) (by decide) wrote elsewhere
  obtain ⟨held, held', before, after, ⟨k, member, equal⟩, greatest, same, -⟩ := settles net' all
  have committed : (algebra String Int).applyAll ∅ net.history.operations =
      .ok (put (put ∅ "a" (some 5)) "b" (some 2)) := by decide +kernel
  obtain rfl := Except.ok.inj (before.symm.trans committed)
  refine ⟨by decide +kernel, net', held', all, after, ?_, ?_⟩
  · have top : ∀ k ∈ [1, 2, 0], (compare (w 2).after (w k).after).isLE = true →
        (w k).after = some 9 := by decide
    have highest := greatest 2 (by simp)
    rw [equal] at highest ⊢
    exact top k member highest
  · rw [same "b" (by decide)]
    decide +kernel

end Reconcile.Network
