import Reconcile.Proofs.Network

/-! The kinds of operations that get into queues and into the log. If neither squashing nor crossing
makes operations of a kind that was not there, then clients that are only given operations of some
kinds never queue, keep or push any other, whatever the server and their calls do. -/

namespace Reconcile

variable {κ σ op ι : Type} {a : Algebra σ op} {P : op → Prop}

namespace Algebra

structure Keeps (a : Algebra σ op) (P : op → Prop) : Prop where
  squash : ∀ {first second}, P first → P second → ∀ o ∈ a.squash first second, P o
  transform : ∀ {left right d}, a.transform left right = .ok d → (∀ o ∈ left, P o) →
    ∀ o ∈ d.left, P o

theorem Keeps.squashInto (keeps : a.Keeps P) {kept : List op} {o : op} (hkept : ∀ x ∈ kept, P x)
    (ho : P o) : ∀ x ∈ a.squashInto kept o, P x := by
  simp only [Algebra.squashInto]
  split
  · exact hkept
  · split
    · simpa using ho
    · rename_i last some
      have hlast := hkept last (List.mem_of_getLast? some)
      intro x hx
      rcases List.mem_append.1 hx with hx | hx
      · exact hkept x (List.dropLast_subset kept hx)
      · exact keeps.squash hlast ho x (List.mem_filter.1 hx).1

theorem Keeps.squashAll (keeps : a.Keeps P) {ops : List op} (h : ∀ o ∈ ops, P o) :
    ∀ o ∈ a.squashAll ops, P o := by
  induction ops using List.reverseRecOn with
  | nil => exact h
  | append_singleton ops o ih =>
    obtain ⟨hops, ho⟩ := List.forall_mem_append.1 h
    rw [squashAll_append]
    exact keeps.squashInto (ih hops) (ho o (List.mem_singleton_self o))

theorem offer_kept_sublist (s : σ) (ops : List op) : (a.offer s ops).kept.Sublist ops := by
  induction ops using List.reverseRecOn with
  | nil => exact List.Sublist.refl []
  | append_singleton ops o ih =>
    have longer := ih.trans (List.sublist_append_left ops [o])
    rw [offer_concat]
    split
    · dsimp only
      split
      · exact ih.append (List.Sublist.refl [o])
      · exact longer
    · exact longer

end Algebra

namespace Manager

variable {m : Manager σ op ι}

def Queues (P : op → Prop) (m : Manager σ op ι) : Prop := ∀ o ∈ m.inflight ++ m.pending, P o

theorem Queues.add (queues : m.Queues P) {ops : List op} (given : ∀ o ∈ ops, P o) :
    (m.add a ops).1.Queues P := by
  simp only [Manager.add]
  split
  · exact queues
  · obtain ⟨inflight, pending⟩ := List.forall_mem_append.1 queues
    have kept (o) (h : o ∈ (a.offer m.state ops).kept) : P o :=
      given o ((a.offer_kept_sublist m.state ops).subset h)
    exact List.forall_mem_append.2 ⟨inflight, List.forall_mem_append.2 ⟨pending, kept⟩⟩

theorem Queues.reset (queues : m.Queues P) : (m.reset a).2.1.Queues P := by
  unfold Manager.reset
  split
  · exact queues
  · dsimp only
    split
    · exact queues
    · split
      · exact queues
      · intro o h
        rw [List.append_nil] at h
        exact queues o (List.mem_append_left _ h)

theorem Queues.close (queues : m.Queues P) : m.close.Queues P := by
  simp only [Manager.close]
  split <;> exact queues

theorem Queues.begins (keeps : a.Keeps P) (queues : m.Queues P)
    {begun : Manager σ op ι × Start op} (h : Begins a m begun) : begun.1.Queues P := by
  have squashed : ∀ o ∈ a.squashAll m.pending ++ [], P o := by
    rw [List.append_nil]
    exact keeps.squashAll (List.forall_mem_append.1 queues).2
  cases h with
  | ended rejected result => exact queues
  | vanished idle empty => exact squashed
  | checkout free unknown => exact queues
  | pull free known => exact queues
  | push free known => exact queues
  | squash free known idle => exact squashed

theorem Requeues.kinds (keeps : a.Keeps P) (queues : m.Queues P) {base state : σ}
    {purpose : Purpose op} {response : purpose.Response} {inflight pending : List op}
    (h : m.Requeues a base purpose response inflight pending state) :
    ∀ o ∈ inflight ++ pending, P o := by
  obtain ⟨hinflight, hpending⟩ := List.forall_mem_append.1 queues
  cases h with
  | accepted => exact hpending
  | rebased crossed reached =>
    obtain ⟨first, hfirst, crossed⟩ := bind_eq_ok.1 crossed
    obtain ⟨second, hsecond, crossed⟩ := bind_eq_ok.1 crossed
    obtain ⟨rfl, rfl⟩ := Prod.mk.inj (Except.ok.inj crossed)
    exact List.forall_mem_append.2
      ⟨keeps.transform hfirst hinflight, keeps.transform hsecond hpending⟩
  | discarded => exact List.forall_mem_nil _

theorem Queues.proceeds (keeps : a.Keeps P) (queues : m.Queues P) {stage : Stage op}
    {after : Manager σ op ι × Stage op} (h : Proceeds a m stage after) : after.1.Queues P := by
  cases h with
  | stays attends unheard => exact queues
  | settles heard settled =>
    cases settled with
    | still goesOn => exact queues
    | moved heard applied requeued goesOn => exact requeued.kinds keeps queues

theorem Queues.restore (queues : m.Queues P) {snapshot : Snapshot σ op}
    (kinds : ∀ o ∈ snapshot.inflight ++ snapshot.pending, P o) :
    (m.restore a snapshot).2.1.Queues P := by
  rcases m.restore_cases (a := a) snapshot with h | ⟨state, -, -, h⟩
  · rw [h]
    exact queues
  · rw [h]
    exact kinds

end Manager

namespace Session

open Manager (Queues)

variable {s : Session σ op ι}

theorem Attentive.queues_step (keeps : a.Keeps P) (attentive : s.Attentive)
    (queues : s.manager.Queues P) {e : Event op} (given : ∀ ops, e = .add ops → ∀ o ∈ ops, P o) :
    (s.step a e).manager.Queues P := by
  cases e with
  | add ops => exact queues.add (given ops rfl)
  | reset => exact queues.reset
  | close => exact queues.close
  | start action =>
    have begun := queues.begins keeps (Manager.begins action)
    simp only [Session.step]
    generalize s.manager.start a action = started at *
    obtain ⟨m, result⟩ := started
    cases result <;> exact begun
  | proceed policy =>
    simp only [Session.step]
    split
    · rename_i stage outstanding
      have moved := Manager.proceeds (a := a) policy (attentive.attends stage outstanding)
      exact queues.proceeds keeps moved
    · exact queues
  | release => exact queues

end Session

namespace Network

variable {net : Network κ σ op ι}

def Event.Gives (P : op → Prop) : Event κ op → Prop
  | .act _ (.add ops) => ∀ o ∈ ops, P o
  | _ => True

structure Holds (P : op → Prop) (net : Network κ σ op ι) : Prop where
  log : ∀ o ∈ net.history.operations, P o
  queues : ∀ k, (net.sessions k).manager.Queues P
  kept : ∀ snapshot ∈ net.kept, ∀ o ∈ snapshot.inflight ++ snapshot.pending, P o

theorem holds_new {initial : σ} {log : List op} (h : ∀ o ∈ log, P o) :
    (new initial log : Network κ σ op ι).Holds P where
  log := h
  queues _ := List.forall_mem_nil _
  kept _ h := nomatch h

variable [DecidableEq κ]

theorem Holds.update (holds : net.Holds P) {client : κ} {s : Session σ op ι}
    (queues : s.manager.Queues P) :
    Holds P { net with sessions := update net.sessions client s } where
  log := holds.log
  queues := forall_update (P := fun s => s.manager.Queues P) queues holds.queues client
  kept := holds.kept

theorem Holds.step (keeps : a.Keeps P) (attentive : ∀ k, (net.sessions k).Attentive)
    (holds : net.Holds P) {e : Event κ op} (given : e.Gives P) : (net.step a e).Holds P := by
  cases e with
  | act client event =>
    refine holds.update ?_
    refine (attentive client).queues_step keeps (holds.queues client) fun ops added => ?_
    subst added
    exact given
  | deliver client =>
    have queues := holds.queues client
    refine ⟨?_, ?_, holds.kept⟩
    · simp only [Network.step]
      rcases (attentive client).serve_cases net.history with same | ⟨-, grown⟩
      · rw [same]
        exact holds.log
      · rw [grown]
        exact List.forall_mem_append.2 ⟨holds.log, (List.forall_mem_append.1 queues).1⟩
    · refine forall_update (P := fun s => s.manager.Queues P) ?_ holds.queues client
      rwa [Session.hear_manager]
  | fail client fault =>
    refine holds.update ?_
    rw [Session.hear_manager]
    exact holds.queues client
  | keep client =>
    simp only [Network.step]
    split
    · rename_i snapshot taken
      refine ⟨holds.log, holds.queues, ?_⟩
      intro other h
      rcases List.mem_append.1 h with h | h
      · exact holds.kept other h
      · obtain rfl := List.mem_singleton.1 h
        obtain rfl := Manager.snapshot_eq_ok taken
        exact holds.queues client
    · exact holds
  | restore client slot =>
    simp only [Network.step]
    split
    · rename_i snapshot found
      have kinds := holds.kept snapshot (List.mem_of_getElem? found)
      exact holds.update ((holds.queues client).restore kinds)
    · exact holds

theorem Holds.run (keeps : a.Keeps P) (attentive : ∀ k, (net.sessions k).Attentive)
    (holds : net.Holds P) {events : List (Event κ op)} (given : ∀ e ∈ events, e.Gives P) :
    (net.run a events).Holds P := by
  induction events generalizing net with
  | nil => exact holds
  | cons e events ih =>
    obtain ⟨first, rest⟩ := List.forall_mem_cons.1 given
    exact ih (attentive_step attentive e) (holds.step keeps attentive first) rest

end Network

end Reconcile
