import Reconcile.Proofs.Keyed
import Reconcile.Room.Cross

/-! Crossing changes of a room directory. A change concerns one room, so it is enough to follow a
single room, which is absent, live or a tombstone. -/

namespace Reconcile.Room

open Reconcile.Algebra (Path atKey path_cons path_nil path_singleton)

namespace Change

def changesAt (room : Option Room) : Change → Bool
  | .delete _ => room.all Room.isLive
  | .add _ participants => room.all fun r => !(r.isLive && r.participants == participants)
  | _ => true

theorem changes_eq (dir : Directory) (c : Change) : c.changes dir = changesAt dir[c.id]? c := by
  simp only [changes]
  generalize dir[c.id]? = room
  cases c <;> cases room <;> rfl

@[simp] theorem applyAt_add {room after : Option Room} {id : String} {p : Participants} :
    applyAt room (.add id p) = .ok after ↔
      (room = none ∨ room = some ⟨p, false⟩) ∧ after = some ⟨p, false⟩ := by
  rcases room with _ | ⟨q, deleted⟩
  · simp [applyAt, eq_comm]
  · cases deleted <;> by_cases h : q = p <;> simp [applyAt, h, eq_comm (a := after)]

@[simp] theorem applyAt_delete {room after : Option Room} {id : String} :
    applyAt room (.delete id) = .ok after ↔
      ∃ p deleted, room = some ⟨p, deleted⟩ ∧ after = some ⟨p, true⟩ := by
  rcases room with _ | ⟨q, deleted⟩ <;> simp [applyAt, eq_comm]

@[simp] theorem applyAt_restore {room after : Option Room} {id : String} :
    applyAt room (.restore id) = .ok after ↔
      ∃ p, room = some ⟨p, true⟩ ∧ after = some ⟨p, false⟩ := by
  rcases room with _ | ⟨q, deleted⟩
  · simp [applyAt]
  · cases deleted <;> simp [applyAt, eq_comm]

@[simp] theorem applyAt_withdraw {room after : Option Room} {id : String} {p : Participants} :
    applyAt room (.withdraw id p) = .ok after ↔ room = some ⟨p, false⟩ ∧ after = none := by
  rcases room with _ | ⟨q, deleted⟩
  · simp [applyAt]
  · cases deleted <;> by_cases h : q = p <;> simp [applyAt, isLive, h, eq_comm (a := after)]

end Change

def single : Algebra (Option Room) Change where
  apply room c := (c.applyAt room).mapError Fault.toOpError
  isEmpty _ := false
  changes := Change.changesAt
  invert := Change.invert
  squash := Change.squashSame
  cross l r := (Change.crossSame l r).mapError Fault.toOpError

theorem single_apply {room after : Option Room} {c : Change} :
    single.apply room c = .ok after ↔ c.applyAt room = .ok after :=
  mapError_eq_ok

theorem single_cross {l r : Change} {d : Diamond Change} :
    single.cross l r = .ok d ↔ Change.crossSame l r = .ok d :=
  mapError_eq_ok

theorem single_prune (d : Diamond Change) : d.prune single.isEmpty = d := by
  simp [Diamond.prune, single]

theorem id_crossSame {l r : Change} {d : Diamond Change} (same : l.id = r.id)
    (crossed : l.crossSame r = .ok d) :
    (∀ c ∈ d.left, c.id = l.id) ∧ ∀ c ∈ d.right, c.id = l.id := by
  cases l <;> cases r <;> simp only [Change.id] at same <;> subst same <;>
    simp only [Change.crossSame] at crossed <;> (try split at crossed) <;> cases crossed <;>
    simp [Change.id]

theorem id_squashSame {first second : Change} (same : first.id = second.id) :
    ∀ c ∈ first.squashSame second, c.id = first.id := by
  cases first <;> cases second <;> simp only [Change.id] at same <;> subst same <;>
    simp only [Change.squashSame] <;> (try split) <;> simp [Change.id]

theorem keyed : algebra.Keyed Change.id single where
  apply dir c := by
    simp only [algebra, single, Change.apply]
    cases c.applyAt dir[c.id]? <;> rfl
  isEmpty := rfl
  changes := Change.changes_eq
  invert c := ⟨rfl, by cases c <;> rfl⟩
  squash same := if_pos same
  squash_of_ne different := if_neg different
  key_squash same := id_squashSame same
  cross {l r} same := by
    simp only [algebra, single, Change.cross, if_pos same]
  cross_of_ne {l r} different := by
    simp only [algebra, Change.cross, if_neg different]
    rfl
  key_cross same crossed := id_crossSame same (single_cross.1 crossed)

theorem exists_crossSame {room roomL roomR : Option Room} {l r : Change}
    (hl : l.applyAt room = .ok roomL) (hr : r.applyAt room = .ok roomR) :
    ∃ d t, l.crossSame r = .ok d ∧ single.Applies roomL d.right t ∧ single.Applies roomR d.left t ∧
      (Change.changesAt room l = true → single.Effective roomR d.left t) := by
  rcases room with _ | ⟨p, _ | _⟩ <;> cases l <;> cases r <;>
    simp at hl hr <;>
    simp only [Change.crossSame] <;> (try split) <;>
    simp_all [path_cons, path_nil, single, mapError_eq_ok, Change.changesAt, isLive]

theorem closes_crossSame {room roomL roomR : Option Room} {l r : Change} {d : Diamond Change}
    (hl : single.apply room l = .ok roomL) (hr : single.apply room r = .ok roomR)
    (crossed : single.cross l r = .ok d) :
    ∃ t, single.Applies roomL (d.prune single.isEmpty).right t ∧
      single.Applies roomR (d.prune single.isEmpty).left t ∧
      (Change.changesAt room l = true →
        single.Effective roomR (d.prune single.isEmpty).left t) := by
  obtain ⟨d', t, crossed', hright, hleft, effective⟩ :=
    exists_crossSame (single_apply.1 hl) (single_apply.1 hr)
  obtain rfl := Except.ok.inj (crossed'.symm.trans (single_cross.1 crossed))
  rw [single_prune]
  exact ⟨t, hright, hleft, effective⟩

theorem single_idle : single.EmptyIdle := fun _ _ _ empty _ => nomatch empty

theorem algebra_idle : algebra.EmptyIdle := fun _ _ _ empty _ => nomatch empty

theorem single_squash {room after : Option Room} {first second : Change}
    (path : single.Effective room [first, second] after) :
    single.Effective room ((single.squash first second).filter (!single.isEmpty ·)) after := by
  obtain ⟨mid, hfirst, changedFirst, path⟩ := path_cons.1 path
  obtain ⟨hsecond, changedSecond⟩ := path_singleton.1 path
  rw [single_apply] at hfirst hsecond
  rcases room with _ | ⟨p, _ | _⟩ <;> cases first <;> cases second <;>
    simp at hfirst <;>
    simp only [single, Change.squashSame] <;> (try split) <;>
    simp_all [path_cons, path_nil, single, mapError_eq_ok, Change.changesAt, isLive]

theorem single_lawful : single.Lawful where
  idle := single_idle
  steady {room after c} applied unchanged := by
    rw [single_apply] at applied
    rcases room with _ | ⟨p, _ | _⟩ <;> cases c <;>
      simp_all [single, Change.changesAt, isLive]
  undo {room after c} applied changed := by
    rw [single_apply] at applied ⊢
    rcases room with _ | ⟨p, _ | _⟩ <;> cases c <;>
      simp_all [single, Change.changesAt, Change.invert, isLive]
  squash := single_squash
  joins := by
    intro room roomL roomR l r d crossed hl changed hr _
    obtain ⟨t, hright, -, effective⟩ := closes_crossSame hl hr crossed
    exact ⟨t, hright, effective changed⟩

theorem lawful : algebra.Lawful := keyed.lawful single_lawful

theorem joins : algebra.Joins (fun _ _ => True) fun _ _ => True := by
  show algebra.Joins (atKey Change.id fun _ _ => True) (atKey Change.id fun _ _ => True)
  refine keyed.joins single_idle ?_
  intro room roomL roomR l r d crossed hl _ hr _
  obtain ⟨t, hright, hleft, -⟩ := closes_crossSame hl hr crossed
  exact ⟨t, hright, hleft⟩

end Reconcile.Room
