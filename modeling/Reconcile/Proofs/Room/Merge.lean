import Reconcile.Proofs.Room.Forward
import Reconcile.Proofs.Tiling
import Reconcile.Proofs.Limits

/-! What concurrent additions and deletions merge to, room by room. A room that was there keeps its
participants and is deleted if either side deleted it. Of two rooms created under one identifier
with different participants the committed one stays: all that was done to the other is undone before
it is created. -/

namespace Reconcile.Room

open Reconcile.Algebra (path_append path_cons path_nil path_singleton applies_iff)
open Reconcile.Diamond (Grid grid_nil_left grid_nil_right)

variable {dir dirL dirR : Directory} {room roomL roomR mid after : Room}
  {before onL onR merged : Option Room} {p q : Participants} {id id₂ : String} {c l r : Change}
  {ops undo left right : List Change} {d : Diamond Change}

/-- The merged room, from the room before and from what the local and the committed changes have
made of it. -/
def outcome : Option Room → Option Room → Option Room → Option Room
  | some room, onL, onR =>
    some ⟨room.participants, onL.any (·.deleted) || onR.any (·.deleted)⟩
  | none, onL, none => onL
  | none, none, onR => onR
  | none, some roomL, some roomR =>
    if roomL.participants = roomR.participants then
      some ⟨roomR.participants, roomL.deleted || roomR.deleted⟩
    else some roomR

abbrev PlainPath : Option Room → List Change → Option Room → Prop :=
  single.Path fun _ c => c.IsPlain

theorem Advances.refl (room : Room) : room.Advances room := ⟨rfl, fun deleted => deleted⟩

theorem Advances.trans (first : room.Advances roomL) (second : roomL.Advances roomR) :
    room.Advances roomR :=
  ⟨second.participants.trans first.participants, second.deleted ∘ first.deleted⟩

theorem present_of_path (path : PlainPath (some room) ops merged) :
    ∃ after, merged = some after ∧ room.Advances after := by
  generalize start : some room = before at path
  induction path generalizing room with
  | nil before => exact ⟨room, start.symm, .refl room⟩
  | cons applied plain rest ih =>
    subst start
    obtain ⟨mid, rfl, first⟩ := advances_applyAt plain (single_apply.1 applied)
    obtain ⟨after, rfl, second⟩ := ih rfl
    exact ⟨after, rfl, first.trans second⟩

theorem advances_of_path (path : PlainPath (some room) ops (some after)) : room.Advances after := by
  obtain ⟨_, found, later⟩ := present_of_path path
  exact Option.some.inj found ▸ later

/-- The room as two histories of it leave it together: deleted if either one deletes it. -/
def joint (room roomL roomR : Room) : Room :=
  ⟨room.participants, roomL.deleted || roomR.deleted⟩

theorem joint_comm (room roomL roomR : Room) : joint room roomL roomR = joint room roomR roomL := by
  rw [joint, Bool.or_comm, joint]

theorem joint_self (later : room.Advances after) : joint room after room = after := by
  have kept := later.participants
  have lasting := later.deleted
  rcases room with ⟨p, _ | _⟩ <;> rcases after with ⟨q, _ | _⟩ <;> simp_all [joint]

theorem joint_trans (early : room.Advances mid) (late : mid.Advances roomL) :
    joint mid roomL (joint room mid roomR) = joint room roomL roomR := by
  have kept := early.participants
  have lasting := late.deleted
  rcases mid with ⟨p, _ | _⟩ <;> rcases roomL with ⟨q, _ | _⟩ <;> simp_all [joint]

theorem closes_present (plainL : l.IsPlain) (plainR : r.IsPlain)
    (hl : l.applyAt (some room) = .ok (some roomL)) (hr : r.applyAt (some room) = .ok (some roomR))
    (crossed : l.crossSame r = .ok d) :
    PlainPath (some roomL) d.right (some (joint room roomL roomR)) ∧
      PlainPath (some roomR) d.left (some (joint room roomL roomR)) := by
  rcases room with ⟨p, _ | _⟩ <;> cases l <;> cases r <;>
    simp only [Change.IsPlain] at plainL plainR <;> simp at hl hr <;>
    simp only [Change.crossSame] at crossed <;> (try split at crossed) <;> cases crossed <;>
    simp_all [path_cons, path_nil, single_apply, joint, Change.IsPlain]

theorem grid_present (g : Grid single.isEmpty single.cross left right d)
    (hl : PlainPath (some room) left (some roomL))
    (hr : PlainPath (some room) right (some roomR)) :
    PlainPath (some roomL) d.right (some (joint room roomL roomR)) ∧
      PlainPath (some roomR) d.left (some (joint room roomL roomR)) := by
  induction g generalizing room roomL roomR with
  | noLeft right =>
    obtain rfl := Option.some.inj (path_nil.1 hl)
    rw [joint_comm, joint_self (advances_of_path hr)]
    exact ⟨hr, path_nil.2 rfl⟩
  | noRight left =>
    obtain rfl := Option.some.inj (path_nil.1 hr)
    rw [joint_self (advances_of_path hl)]
    exact ⟨path_nil.2 rfl, hl⟩
  | cell crossed =>
    obtain ⟨applyL, plainL⟩ := path_singleton.1 hl
    obtain ⟨applyR, plainR⟩ := path_singleton.1 hr
    rw [single_prune]
    exact closes_present plainL plainR (single_apply.1 applyL) (single_apply.1 applyR)
      (single_cross.1 crossed)
  | alongLeft before after ihBefore ihAfter =>
    obtain ⟨_, first, second⟩ := path_append.1 hl
    obtain ⟨mid, rfl, early⟩ := present_of_path first
    obtain ⟨midR, onLeft⟩ := ihBefore first hr
    obtain ⟨onRight, rest⟩ := ihAfter second midR
    rw [joint_trans early (advances_of_path second)] at onRight rest
    exact ⟨onRight, path_append.2 ⟨_, onLeft, rest⟩⟩
  | alongRight before after ihBefore ihAfter =>
    obtain ⟨_, first, second⟩ := path_append.1 hr
    obtain ⟨mid, rfl, early⟩ := present_of_path first
    obtain ⟨onRight, midL⟩ := ihBefore hl first
    obtain ⟨rest, onLeft⟩ := ihAfter midL second
    have both : joint mid (joint room roomL mid) roomR = joint room roomL roomR := by
      rw [joint_comm mid, joint_comm room roomL, joint_trans early (advances_of_path second),
        joint_comm]
    rw [both] at rest onLeft
    exact ⟨path_append.2 ⟨_, onRight, rest⟩, onLeft⟩

inductive Undoes : List Change → Room → Prop
  | live (id : String) (p : Participants) : Undoes [.withdraw id p] ⟨p, false⟩
  | tombstone (id id₂ : String) (p : Participants) :
      Undoes [.restore id, .withdraw id₂ p] ⟨p, true⟩

theorem grid_pair (crossed : l.crossSame r = .ok d) :
    Grid single.isEmpty single.cross [l] [r] d := by
  have cell : Grid single.isEmpty single.cross [l] [r] (d.prune single.isEmpty) :=
    .cell (single_cross.2 crossed)
  rwa [single_prune] at cell

theorem grid_undo_change (plain : c.IsPlain) (applied : c.applyAt (some room) = .ok (some after))
    (undoes : Undoes undo room) :
    ∃ undo', Undoes undo' after ∧ Grid single.isEmpty single.cross [c] undo ⟨[], undo'⟩ := by
  cases c with
  | add id p =>
    simp only [Change.applyAt_add, Option.some.injEq, reduceCtorEq, false_or] at applied
    obtain ⟨rfl, rfl⟩ := applied
    cases undoes with
    | live id p => exact ⟨_, .live id p, grid_pair rfl⟩
  | delete id =>
    simp only [Change.applyAt_delete, Option.some.injEq] at applied
    obtain ⟨p, deleted, rfl, rfl⟩ := applied
    cases undoes with
    | live id₂ p => exact ⟨_, .tombstone id id₂ p, grid_pair rfl⟩
    | tombstone id₂ id₃ p =>
      have restored : Grid single.isEmpty single.cross [.delete id] [.restore id₂]
          ⟨[.delete id], []⟩ := grid_pair rfl
      have withdrawn : Grid single.isEmpty single.cross [.delete id] [.withdraw id₃ p]
          ⟨[], [.restore id, .withdraw id₃ p]⟩ := grid_pair rfl
      exact ⟨_, .tombstone id id₃ p, restored.alongRight withdrawn⟩
  | restore id => exact plain.elim
  | withdraw id p => exact plain.elim

theorem grid_undo (path : PlainPath (some room) ops (some after)) (undoes : Undoes undo room) :
    ∃ undo', Undoes undo' after ∧ Grid single.isEmpty single.cross ops undo ⟨[], undo'⟩ := by
  induction ops generalizing room undo with
  | nil =>
    obtain rfl := Option.some.inj (path_nil.1 path)
    exact ⟨undo, undoes, .noLeft undo⟩
  | cons c ops ih =>
    obtain ⟨_, applied, plain, path⟩ := path_cons.1 path
    rw [single_apply] at applied
    obtain ⟨mid, rfl, -⟩ := advances_applyAt plain applied
    obtain ⟨between, undoesMid, first⟩ := grid_undo_change plain applied undoes
    obtain ⟨undo', undoesAfter, second⟩ := ih path undoesMid
    exact ⟨undo', undoesAfter, first.alongLeft second⟩

theorem grid_rivals (differ : p ≠ q) (path : PlainPath (some ⟨p, false⟩) left (some roomL)) :
    ∃ undo, Undoes undo roomL ∧
      Grid single.isEmpty single.cross (.add id p :: left) (.add id₂ q :: right)
        ⟨[], undo ++ .add id₂ q :: right⟩ := by
  have crossed : Change.crossSame (.add id p) (.add id₂ q) =
      .ok ⟨[], [.withdraw id p, .add id₂ q]⟩ := if_neg differ
  have head : Grid single.isEmpty single.cross [.add id p] (.add id₂ q :: right)
      ⟨[], [.withdraw id p] ++ .add id₂ q :: right⟩ :=
    (grid_pair crossed).alongRight (.noLeft right)
  obtain ⟨undo, undoes, undone⟩ := grid_undo path (.live id p)
  have tail : Grid single.isEmpty single.cross left ([.withdraw id p] ++ .add id₂ q :: right)
      ⟨[], undo ++ .add id₂ q :: right⟩ :=
    undone.alongRight (.noLeft _)
  exact ⟨undo, undoes, head.alongLeft tail⟩

theorem creation_of_path (path : PlainPath none (c :: ops) merged) :
    ∃ id p, c = .add id p ∧ PlainPath (some ⟨p, false⟩) ops merged := by
  obtain ⟨mid, applied, plain, rest⟩ := path_cons.1 path
  rw [single_apply] at applied
  cases c with
  | add id p =>
    obtain ⟨-, rfl⟩ := Change.applyAt_add.1 applied
    exact ⟨id, p, rfl, rest⟩
  | delete id =>
    obtain ⟨p, deleted, found, -⟩ := Change.applyAt_delete.1 applied
    cases found
  | restore id => exact plain.elim
  | withdraw id p => exact plain.elim

theorem grid_same_creation
    (g : Grid single.isEmpty single.cross (.add id p :: left) (.add id₂ p :: right) d) :
    Grid single.isEmpty single.cross left right d := by
  rw [← List.singleton_append] at g
  obtain ⟨head, tail, hhead, htail, rfl⟩ := g.cut_left
  have crossed : Change.crossSame (.add id p) (.add id₂ p) = .ok ⟨[], []⟩ := if_pos rfl
  obtain rfl := hhead.unique ((grid_pair crossed).alongRight (.noLeft right))
  exact htail

theorem grid_absent (g : Grid single.isEmpty single.cross left right d)
    (hl : PlainPath none left onL) (hr : PlainPath none right onR) :
    PlainPath onR d.left (outcome none onL onR) := by
  match left, right with
  | [], right =>
    obtain rfl := grid_nil_left g
    obtain rfl := path_nil.1 hl
    cases onR <;> exact path_nil.2 rfl
  | left, [] =>
    obtain rfl := grid_nil_right g
    obtain rfl := path_nil.1 hr
    cases onL <;> exact hl
  | c :: left, c₂ :: right =>
    obtain ⟨id, p, rfl, restL⟩ := creation_of_path hl
    obtain ⟨id₂, q, rfl, restR⟩ := creation_of_path hr
    obtain ⟨roomL, rfl, laterL⟩ := present_of_path restL
    obtain ⟨roomR, rfl, laterR⟩ := present_of_path restR
    by_cases same : p = q
    · subst same
      have merged := (grid_present (grid_same_creation g) restL restR).2
      rw [outcome, if_pos (laterL.participants.trans laterR.participants.symm),
        laterR.participants]
      exact merged
    · obtain ⟨undo, -, crossed⟩ := grid_rivals same restL
      obtain rfl := g.unique crossed
      rw [outcome, if_neg ?_]
      · exact path_nil.2 rfl
      · rw [laterL.participants, laterR.participants]
        exact same

theorem path_outcome (g : Grid single.isEmpty single.cross left right d)
    (hl : PlainPath before left onL) (hr : PlainPath before right onR) :
    PlainPath onR d.left (outcome before onL onR) := by
  cases before with
  | none => exact grid_absent g hl hr
  | some room =>
    obtain ⟨roomL, rfl, -⟩ := present_of_path hl
    obtain ⟨roomR, rfl, -⟩ := present_of_path hr
    exact (grid_present g hl hr).2

theorem path_at (plain : ∀ c ∈ ops, c.IsPlain) (applied : algebra.applyAll dir ops = .ok dirL)
    (id : String) : PlainPath dir[id]? (ops.filter (·.id = id)) dirL[id]? :=
  (applies_iff.2 (keyed.applyAll_at id applied)).path fun c h => plain c (List.mem_filter.1 h).1

theorem grid_of_transform (crossed : algebra.transform left right = .ok d) :
    Grid algebra.isEmpty algebra.cross left right d := by
  have whole (ops : List Change) : ops.filter (!algebra.isEmpty ·) = ops :=
    List.filter_eq_self.2 fun _ _ => rfl
  have grid := Algebra.grid_of_transform crossed
  rwa [whole, whole] at grid

/-- Whatever additions and deletions are made on either side, they cross, and the merged directory
has for every identifier the outcome of what the sides have made of that room. -/
theorem concurrent_histories_merge (plainL : ∀ c ∈ left, c.IsPlain)
    (plainR : ∀ c ∈ right, c.IsPlain) (hl : algebra.applyAll dir left = .ok dirL)
    (hr : algebra.applyAll dir right = .ok dirR) :
    ∃ d merged, algebra.transform left right = .ok d ∧
      algebra.applyAll dir (right ++ d.left) = .ok merged ∧
      ∀ id : String, merged[id]? = outcome dir[id]? dirL[id]? dirR[id]? := by
  obtain ⟨d, crossed⟩ := measured.crosses (Gauge.holds_unlimited dir _) hl hr
  obtain ⟨merged, -, applied⟩ := joins.converge algebra_idle crossed hl hr
  refine ⟨d, merged, crossed, applied, fun id => ?_⟩
  have grid := keyed.grid_at id (grid_of_transform crossed) (fun _ _ => rfl) fun _ _ => rfl
  rw [Algebra.applyAll_append, hr, ok_bind] at applied
  have reached := keyed.applyAll_at id applied
  have path := path_outcome grid (path_at plainL hl id) (path_at plainR hr id)
  exact (path.eq_of_applyAll reached).symm

theorem concurrent_histories_merge_on_rivals :
    ∃ d merged, algebra.transform
        [.delete "hall", .add "lobby" {"ada"}, .add "lobby" {"ada"}, .delete "lobby",
          .delete "lobby"]
        [.add "lobby" {"bob"}, .add "hall" ∅] = .ok d ∧
      algebra.applyAll (put ∅ "hall" (some ⟨∅, false⟩))
        ([.add "lobby" {"bob"}, .add "hall" ∅] ++ d.left) = .ok merged ∧
      merged["lobby"]? = some ⟨{"bob"}, false⟩ ∧ merged["hall"]? = some ⟨∅, true⟩ := by
  have hl : algebra.applyAll (put ∅ "hall" (some ⟨∅, false⟩))
      [.delete "hall", .add "lobby" {"ada"}, .add "lobby" {"ada"}, .delete "lobby",
        .delete "lobby"] =
      .ok (put (put ∅ "hall" (some ⟨∅, true⟩)) "lobby" (some ⟨{"ada"}, true⟩)) := by rfl
  have hr : algebra.applyAll (put ∅ "hall" (some ⟨∅, false⟩))
      [.add "lobby" {"bob"}, .add "hall" ∅] =
      .ok (put (put ∅ "hall" (some ⟨∅, false⟩)) "lobby" (some ⟨{"bob"}, false⟩)) := by rfl
  obtain ⟨d, merged, crossed, applied, outcomes⟩ :=
    concurrent_histories_merge (by simp [Change.IsPlain]) (by simp [Change.IsPlain]) hl hr
  refine ⟨d, merged, crossed, applied, ?_, ?_⟩
  · rw [outcomes]
    decide
  · rw [outcomes]
    decide

end Reconcile.Room
