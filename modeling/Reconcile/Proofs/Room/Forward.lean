import Reconcile.Proofs.Kinds
import Reconcile.Proofs.Room.Cross

/-! Additions and deletions only move a directory forward: a room that is there stays, with its
participants, and a tombstone stays one. Restorations and withdrawals come from crossing alone, and
it never puts one where only additions and deletions have been. -/

namespace Reconcile.Room

open Network (Event)

variable {κ ι : Type} {dir dir' mid : Directory} {c l r : Change} {left right : List Change}
  {d : Diamond Change}

def Change.IsPlain : Change → Prop
  | .add _ _ | .delete _ => True
  | .restore _ | .withdraw _ _ => False

theorem plain_squash {first second : Change} (hfirst : first.IsPlain) (hsecond : second.IsPlain) :
    ∀ c ∈ first.squash second, c.IsPlain := by
  have both : ∀ c ∈ [first, second], c.IsPlain := by simp [hfirst, hsecond]
  simp only [Change.squash]
  split
  · cases first <;> cases second <;> simp only [Change.IsPlain] at hfirst hsecond <;>
      simp only [Change.squashSame] <;> (try split) <;> simp [Change.IsPlain]
  · exact both

theorem left_sublist_cross (crossed : algebra.cross l r = .ok d) (plain : l.IsPlain) :
    (d.prune algebra.isEmpty).left.Sublist [l] := by
  have kept : d.left.Sublist [l] := by
    rcases keyed.cross_cases crossed with ⟨-, crossed⟩ | ⟨-, rfl⟩
    · rw [single_cross] at crossed
      cases l <;> cases r <;> simp only [Change.IsPlain] at plain <;>
        simp only [Change.crossSame] at crossed <;> (try split at crossed) <;>
        cases crossed <;> simp
    · exact .refl [l]
  exact List.filter_sublist.trans kept

theorem left_sublist_transform (crossed : algebra.transform left right = .ok d)
    (plain : ∀ c ∈ left, c.IsPlain) : d.left.Sublist left := by
  have crossedAll := (Algebra.grid_of_transform crossed).left_sublist left_sublist_cross
    fun c h => plain c (List.mem_filter.1 h).1
  exact crossedAll.trans List.filter_sublist

theorem keeps_plain : algebra.Keeps Change.IsPlain where
  squash := plain_squash
  transform crossed plain c h := plain c ((left_sublist_transform crossed plain).subset h)

structure Advances (room room' : Room) : Prop where
  participants : room'.participants = room.participants
  deleted : room.deleted = true → room'.deleted = true

/-- Every room is still there, and no further back than it was. -/
def Forward (dir dir' : Directory) : Prop :=
  ∀ (id : String) (room : Room), dir[id]? = some room →
    ∃ room', dir'[id]? = some room' ∧ room.Advances room'

theorem Forward.refl (dir : Directory) : Forward dir dir :=
  fun _ room found => ⟨room, found, rfl, id⟩

theorem Forward.trans (before : Forward dir mid) (after : Forward mid dir') : Forward dir dir' := by
  intro id room found
  obtain ⟨room₁, found₁, first⟩ := before id room found
  obtain ⟨room₂, found₂, second⟩ := after id room₁ found₁
  exact ⟨room₂, found₂, second.participants.trans first.participants,
    second.deleted ∘ first.deleted⟩

theorem advances_applyAt {room : Room} {after : Option Room} (plain : c.IsPlain)
    (applied : c.applyAt (some room) = .ok after) :
    ∃ room', after = some room' ∧ room.Advances room' := by
  cases c with
  | add id participants =>
    obtain ⟨fresh, rfl⟩ := Change.applyAt_add.1 applied
    obtain rfl := Option.some.inj (fresh.resolve_left (Option.some_ne_none room))
    exact ⟨_, rfl, rfl, fun deleted => deleted⟩
  | delete id =>
    obtain ⟨participants, deleted, found, rfl⟩ := Change.applyAt_delete.1 applied
    obtain rfl := Option.some.inj found
    exact ⟨_, rfl, rfl, fun _ => rfl⟩
  | restore id => exact plain.elim
  | withdraw id participants => exact plain.elim

theorem forward_apply (plain : c.IsPlain) (applied : algebra.apply dir c = .ok dir') :
    Forward dir dir' := by
  obtain ⟨after, atId, rfl⟩ := keyed.apply_eq_ok.1 applied
  intro id room found
  by_cases same : c.id = id
  · subst same
    rw [found, single_apply] at atId
    rw [getElem?_put_self]
    exact advances_applyAt plain atId
  · rw [getElem?_put_of_ne same]
    exact Forward.refl dir id room found

theorem forward_applyAll {changes : List Change} (plain : ∀ c ∈ changes, c.IsPlain)
    (applied : algebra.applyAll dir changes = .ok dir') : Forward dir dir' := by
  induction changes generalizing dir with
  | nil =>
    obtain rfl := Except.ok.inj applied
    exact .refl dir
  | cons c changes ih =>
    obtain ⟨hc, plain⟩ := List.forall_mem_cons.1 plain
    obtain ⟨mid, first, rest⟩ := bind_eq_ok.1 applied
    exact (forward_apply hc first).trans (ih plain rest)

theorem forward_take {log : List Change} (plain : ∀ c ∈ log, c.IsPlain)
    (applied : algebra.applyAll dir log = .ok dir') {i j : Nat} (le : i ≤ j) :
    ∃ dirI dirJ, algebra.applyAll dir (log.take i) = .ok dirI ∧
      algebra.applyAll dir (log.take j) = .ok dirJ ∧ Forward dirI dirJ := by
  rw [← List.take_append_drop j log, Algebra.applyAll_append] at applied
  obtain ⟨dirJ, hj, -⟩ := bind_eq_ok.1 applied
  have cut := (List.take_append_drop i (log.take j)).symm
  rw [List.take_take, Nat.min_eq_left le] at cut
  have parts := hj
  rw [cut, Algebra.applyAll_append] at parts
  obtain ⟨dirI, hi, between⟩ := bind_eq_ok.1 parts
  refine ⟨dirI, dirJ, hi, hj, forward_applyAll (fun c h => plain c ?_) between⟩
  exact List.mem_of_mem_take (List.mem_of_mem_drop h)

variable [DecidableEq κ]

/-- If clients are only given additions and deletions, the log never holds anything else, and the
directory only moves forward from one revision to the next. What has been committed at any moment
stays committed at every later one. -/
theorem directories_move_forward {initial reached : Directory} {log : List Change}
    (plain : ∀ c ∈ log, c.IsPlain) (applies : algebra.applyAll initial log = .ok reached)
    {events : List (Event κ Change)} (given : ∀ e ∈ events, e.Gives Change.IsPlain) :
    let start : Network κ Directory Change ι := .new initial log
    let committed := (start.run algebra events).history.operations
    (∀ c ∈ committed, c.IsPlain) ∧
      (∀ earlier rest, events = earlier ++ rest →
        (start.run algebra earlier).history.operations <+: committed) ∧
      ∀ i j, i ≤ j → ∃ dirI dirJ, algebra.applyAll initial (committed.take i) = .ok dirI ∧
        algebra.applyAll initial (committed.take j) = .ok dirJ ∧ Forward dirI dirJ := by
  intro start committed
  have holds : (start.run algebra events).Holds Change.IsPlain :=
    (Network.holds_new plain).run keeps_plain (fun _ => Session.attentive_new initial) given
  have inv : (start.run algebra events).Invariant algebra initial :=
    (Network.invariant_new applies).run lawful events
  obtain ⟨latest, applied⟩ := inv.applies
  refine ⟨holds.log, ?_, ?_⟩
  · rintro earlier rest rfl
    have grown := Network.log_prefix_run (a := algebra) (start.run algebra earlier) rest
    rwa [Network.run, Network.run, ← List.foldl_append] at grown
  · intro i j le
    exact forward_take holds.log applied le

def rivalCreations : List (Event Bool Change) :=
  Network.callEvents true .checkout 1 ++ Network.callEvents false .checkout 1 ++
    [.act true (.add [.add "lobby" {"ada"}]),
      .act false (.add [.add "lobby" {"bob"}, .delete "lobby", .delete "attic"])] ++
    Network.callEvents true .sync 1 ++ Network.callEvents false .sync 2

theorem directories_move_forward_on_rivals :
    let start : Network Bool Directory Change String := .new ∅ [.add "hall" ∅]
    let committed := (start.run algebra rivalCreations).history.operations
    (∀ c ∈ committed, c.IsPlain) ∧
      ∀ i j, i ≤ j → ∃ dirI dirJ, algebra.applyAll ∅ (committed.take i) = .ok dirI ∧
        algebra.applyAll ∅ (committed.take j) = .ok dirJ ∧ Forward dirI dirJ := by
  intro start committed
  have plain : ∀ c ∈ [Change.add "hall" ∅], c.IsPlain := by simp [Change.IsPlain]
  have applies : algebra.applyAll ∅ [.add "hall" ∅] = .ok (put ∅ "hall" (some ⟨∅, false⟩)) := by
    rfl
  have given : ∀ e ∈ rivalCreations, e.Gives Change.IsPlain := by
    simp [rivalCreations, Network.callEvents, Event.Gives, Change.IsPlain]
  have forward := directories_move_forward (ι := String) plain applies given
  exact ⟨forward.1, forward.2.2⟩

end Reconcile.Room
