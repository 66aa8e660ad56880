import Reconcile.Proofs.Manager.Begin

/-! The queues of a manager lead from its base to its working state, and each operation in them
changes something. Every act of a manager keeps it so, whatever the server answers: squashing and
crossing need operations that have an effect, and they return such operations. -/

namespace Reconcile

def Snapshot.Sound {σ op : Type} (a : Algebra σ op) (snapshot : Snapshot σ op) : Prop :=
  ∃ state, a.Effective snapshot.base (snapshot.inflight ++ snapshot.pending) state

namespace Manager

open Reconcile.Algebra (path_append path_nil)

variable {σ op ι : Type} {a : Algebra σ op} {m n : Manager σ op ι}

/-- The queues lead from the base to the working state by operations that have an effect. -/
def Sound (a : Algebra σ op) (m : Manager σ op ι) : Prop :=
  a.Effective m.base (m.inflight ++ m.pending) m.state

theorem Sound.applyAll (sound : m.Sound a) :
    a.applyAll m.base (m.inflight ++ m.pending) = .ok m.state :=
  Algebra.Path.applyAll sound

theorem Sound.parts (sound : m.Sound a) :
    ∃ mid, a.Effective m.base m.inflight mid ∧ a.Effective mid m.pending m.state :=
  path_append.1 sound

/-- Nothing is queued: all that the client has done is committed or undone. -/
def IsSynced (m : Manager σ op ι) : Prop := m.inflight = [] ∧ m.pending = []

instance [DecidableEq op] (m : Manager σ op ι) : Decidable m.IsSynced :=
  inferInstanceAs (Decidable (_ ∧ _))

theorem Sound.state_eq (sound : m.Sound a) (synced : m.IsSynced) : m.state = m.base := by
  obtain ⟨inflight, pending⟩ := synced
  simp only [Sound] at sound
  rw [inflight, pending] at sound
  exact path_nil.1 sound

theorem sound_new (initial : σ) : (new initial : Manager σ op ι).Sound a :=
  .nil initial

theorem resetTo_eq_ok {base : σ} {inflight pending : List op} :
    m.resetTo a base inflight pending = .ok n ↔ ∃ state,
      a.applyAll base (inflight ++ pending) = .ok state ∧
        n = { m with base, state, inflight, pending } := by
  simp only [resetTo, bind_eq_ok, Algebra.applyAll_append]
  constructor
  · intro given
    obtain ⟨mid, first, state, second, h⟩ := given
    exact ⟨state, ⟨mid, first, second⟩, (Except.ok.inj h).symm⟩
  · intro h
    obtain ⟨state, ⟨mid, first, second⟩, rfl⟩ := h
    exact ⟨mid, first, state, second, rfl⟩

theorem Sound.transformQueues (lawful : a.Lawful) (sound : m.Sound a)
    {committed inflight pending : List op} {base : σ}
    (applied : a.applyAll m.base committed = .ok base)
    (crossed : m.transformQueues a committed = .ok (inflight, pending)) :
    ∃ state, a.Effective base (inflight ++ pending) state := by
  obtain ⟨first, hfirst, crossed⟩ := bind_eq_ok.1 crossed
  obtain ⟨second, hsecond, crossed⟩ := bind_eq_ok.1 crossed
  obtain ⟨rfl, rfl⟩ := Prod.mk.inj (Except.ok.inj crossed)
  obtain ⟨mid, hinflight, hpending⟩ := sound.parts
  obtain ⟨u, hright, hleft⟩ := lawful.transform hfirst hinflight applied
  obtain ⟨t, -, hfar⟩ := lawful.transform hsecond hpending hright
  exact ⟨t, path_append.2 ⟨u, hleft, hfar⟩⟩

/-- What a rebase does: committed operations that do not apply halt the manager, and nothing else
changes; otherwise the base moves, and the queues follow or, where they cannot, are discarded. -/
inductive Rebases (a : Algebra σ op) (m : Manager σ op ι) (committed : List op)
    (revision : Revision) : Except SyncError Unit × Manager σ op ι → Prop
  | halted {e : OpError} {error : SyncError} (fails : a.applyAll m.base committed = .error e) :
    Rebases a m committed revision (.error error, { m with halted := true })
  | moved {base state : σ} {inflight pending : List op}
      (applied : a.applyAll m.base committed = .ok base)
      (crossed : m.transformQueues a committed = .ok (inflight, pending))
      (reached : a.applyAll base (inflight ++ pending) = .ok state) :
    Rebases a m committed revision (.ok (), { m with base, state, inflight, pending, revision })
  | discarded {base : σ} {error : SyncError} (applied : a.applyAll m.base committed = .ok base)
      (stuck : ∀ inflight pending state,
        m.transformQueues a committed = .ok (inflight, pending) →
          a.applyAll base (inflight ++ pending) ≠ .ok state) :
    Rebases a m committed revision
      (.error error, { m with base, state := base, revision, inflight := [], pending := [] })

theorem rebases (committed : List op) (revision : Revision) :
    Rebases a m committed revision (m.rebase a committed revision) := by
  simp only [rebase]
  split
  · rename_i e fails
    exact .halted fails
  · rename_i base applied
    split
    · rename_i rebased moved
      obtain ⟨⟨inflight, pending⟩, crossed, moved⟩ := bind_eq_ok.1 moved
      obtain ⟨state, reached, rfl⟩ := resetTo_eq_ok.1 moved
      exact .moved applied crossed reached
    · rename_i e fails
      refine .discarded applied fun inflight pending state crossed reached => ?_
      rw [crossed, ok_bind] at fails
      cases fails.symm.trans (resetTo_eq_ok.2 ⟨state, reached, rfl⟩)

theorem acknowledge_eq_ok {revision : Revision} : m.acknowledge a revision = .ok n ↔
    ∃ base, a.applyAll m.base m.inflight = .ok base ∧
      n = { m with base, inflight := [], revision } := by
  simp only [acknowledge, bind_eq_ok]
  constructor
  · intro given
    obtain ⟨base, applied, h⟩ := given
    exact ⟨base, applied, (Except.ok.inj h).symm⟩
  · intro h
    obtain ⟨base, applied, rfl⟩ := h
    exact ⟨base, applied, rfl⟩

theorem Sound.add (lawful : a.Lawful) (sound : m.Sound a) (ops : List op) :
    (m.add a ops).1.Sound a := by
  simp only [Manager.add]
  split
  · exact sound
  · have added := path_append.2 ⟨m.state, sound, lawful.offer m.state ops⟩
    rwa [List.append_assoc] at added

theorem Sound.reset (lawful : a.Lawful) (sound : m.Sound a) : (m.reset a).2.1.Sound a := by
  unfold Manager.reset
  split
  · exact sound
  · dsimp only
    split
    · exact sound
    · split
      · exact sound
      · rename_i state undone
        obtain ⟨mid, hinflight, hpending⟩ := sound.parts
        obtain rfl : mid = state :=
          Except.ok.inj ((lawful.invertAll hpending).symm.trans undone)
        rwa [← List.append_nil m.inflight] at hinflight

theorem Sound.close (sound : m.Sound a) : m.close.Sound a := by
  simp only [Manager.close]
  split <;> exact sound

theorem Sound.begins (lawful : a.Lawful) (sound : m.Sound a) {begun : Manager σ op ι × Start op}
    (h : Begins a m begun) : begun.1.Sound a := by
  have squashed (idle : m.inflight = []) :
      a.Effective m.base (a.squashAll m.pending ++ []) m.state := by
    simp only [Sound] at sound
    rw [idle, List.nil_append] at sound
    rw [List.append_nil]
    exact lawful.squashAll sound
  cases h with
  | ended rejected result => exact sound
  | vanished idle empty => exact squashed idle
  | checkout free unknown => exact sound
  | pull free known => exact sound
  | push free known => exact sound
  | squash free known idle => exact squashed idle

end Manager

end Reconcile
