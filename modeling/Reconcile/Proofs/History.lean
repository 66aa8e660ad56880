import Reconcile.History
import Reconcile.Proofs.Manager.Answer

/-! The answers of a history, as seen from a revision of it: they are the operations that follow
that revision. A history only grows, so what has been seen of it stays true. -/

namespace Reconcile

open Manager (Purpose)

variable {σ op ι : Type} {a : Algebra σ op}

def Manager.Purpose.since : Purpose op → Revision
  | .checkout => .genesis
  | .pull since => since
  | .push made _ => made

theorem Manager.Current.revision {m : Manager σ op ι} {purpose : Purpose op}
    (h : m.Current purpose) : m.revision = purpose.since := by
  cases purpose with
  | checkout => exact h.2
  | pull since => exact h.2
  | push made batch => exact h.2.1

namespace History

def answer (h : History op) :
    (purpose : Purpose op) → Except TransportFault purpose.Response × History op
  | .checkout => (h.pull .genesis, h)
  | .pull since => (h.pull since, h)
  | .push made batch => h.push made batch

def Follows (log : List op) (r : Revision) (news : Pulled op) : Prop :=
  news.operations <+: log.drop r.value ∧ news.revision = r.advance news.operations.length

/-- The log leads from the initial state to the base when it reaches the revision. -/
def Places (a : Algebra σ op) (initial : σ) (log : List op) (r : Revision) (base : σ) : Prop :=
  r.value ≤ log.length ∧ a.applyAll initial (log.take r.value) = .ok base

theorem Follows.grow {log : List op} {r : Revision} {news : Pulled op} (h : Follows log r news)
    (batch : List op) : Follows (log ++ batch) r news := by
  refine ⟨?_, h.2⟩
  rw [List.drop_append]
  exact h.1.trans (List.prefix_append _ _)

theorem Places.grow {initial base : σ} {log : List op} {r : Revision}
    (h : Places a initial log r base) (batch : List op) :
    Places a initial (log ++ batch) r base := by
  refine ⟨?_, ?_⟩
  · rw [List.length_append]
    exact Nat.le_add_right_of_le h.1
  · rw [List.take_append_of_le_length h.1]
    exact h.2

theorem places_genesis (initial : σ) (log : List op) : Places a initial log .genesis initial :=
  ⟨Nat.zero_le _, rfl⟩

theorem Places.follow {initial base next : σ} {log : List op} {r : Revision} {news : Pulled op}
    (h : Places a initial log r base) (follows : Follows log r news)
    (applied : a.applyAll base news.operations = .ok next) :
    Places a initial log news.revision next := by
  obtain ⟨continues, named⟩ := follows
  obtain ⟨within, reached⟩ := h
  rw [named]
  refine ⟨?_, ?_⟩
  · have := continues.length_le
    rw [List.length_drop] at this
    simp only [Revision.advance]
    omega
  · simp only [Revision.advance]
    rw [List.take_add, ← List.prefix_iff_eq_take.1 continues, Algebra.applyAll_append, reached]
    exact applied

variable {h : History op}

theorem value_revision (h : History op) : h.revision.value = h.operations.length :=
  Nat.zero_add _

theorem eq_revision_iff {r : Revision} : r = h.revision ↔ r.value = h.operations.length := by
  rw [← value_revision]
  exact ⟨congrArg Revision.value, fun same => by cases r; exact congrArg Revision.mk same⟩

theorem answer_latest {made : Revision} (latest : made.value = h.operations.length)
    (batch : List op) : h.answer (.push made batch) =
      (.ok (.accepted (made.advance batch.length)), ⟨h.operations ++ batch⟩) := by
  rw [answer, eq_revision_iff.2 latest]
  exact h.push_revision batch

theorem answer_stale {made : Revision} (stale : made.value < h.operations.length)
    (batch : List op) :
    let news := h.operations.drop made.value
    h.answer (.push made batch) = (.ok (.conflict news (made.advance news.length)), h) := by
  have behind : made ≠ h.revision := fun here => by
    rw [eq_revision_iff.1 here] at stale
    exact Nat.lt_irrefl _ stale
  have latest : h.revision = made.advance (h.operations.drop made.value).length := by
    refine (eq_revision_iff.2 ?_).symm
    simp only [Revision.advance, List.length_drop]
    omega
  simp only [answer, push, if_neg behind, since, if_pos (Nat.le_of_lt stale), ← latest]
  rfl

theorem follows_since {r : Revision} {missed : List op} (since : h.since r = .ok missed) :
    Follows h.operations r ⟨h.revision, missed⟩ := by
  simp only [History.since] at since
  split at since
  · rename_i within
    obtain rfl := Except.ok.inj since
    refine ⟨List.prefix_refl _, ?_⟩
    simp only [revision, Revision.genesis, Revision.advance, List.length_drop, Revision.mk.injEq]
    omega
  · cases since

theorem follows_pull {r : Revision} {pulled : Pulled op} (answered : h.pull r = .ok pulled) :
    Follows h.operations r pulled := by
  obtain ⟨missed, since, rfl⟩ := map_eq_ok.1 answered
  exact follows_since since

theorem follows_push {made : Revision} {batch : List op} {outcome : PushOutcome op}
    (answered : (h.push made batch).1 = .ok outcome) :
    Follows (h.push made batch).2.operations made ((Purpose.push made batch).news outcome) := by
  by_cases latest : made = h.revision
  · subst latest
    rw [push_revision] at answered ⊢
    obtain rfl := Except.ok.inj answered
    refine ⟨?_, rfl⟩
    simp only [Purpose.news, revision, Revision.genesis, Revision.advance, Nat.zero_add,
      List.drop_left]
    exact List.prefix_refl batch
  · rw [push_of_ne h latest]
    rw [push, if_neg latest] at answered
    obtain ⟨missed, since, rfl⟩ := map_eq_ok.1 answered
    exact follows_since since

theorem follows_answer {purpose : Purpose op} {response : purpose.Response}
    (answered : (h.answer purpose).1 = .ok response) :
    Follows (h.answer purpose).2.operations purpose.since (purpose.news response) := by
  match purpose, response, answered with
  | .checkout, pulled, answered => exact follows_pull answered
  | .pull since, pulled, answered => exact follows_pull answered
  | .push made batch, outcome, answered => exact follows_push answered

theorem answer_cases (h : History op) (purpose : Purpose op) :
    (h.answer purpose).2.operations = h.operations ∨
      ∃ batch, purpose = .push h.revision batch ∧
        (h.answer purpose).2.operations = h.operations ++ batch := by
  match purpose with
  | .checkout => exact .inl rfl
  | .pull since => exact .inl rfl
  | .push made batch =>
    by_cases latest : made = h.revision
    · subst latest
      exact .inr ⟨batch, rfl, by rw [answer, push_revision]⟩
    · exact .inl (congrArg operations (push_of_ne h latest batch))

end History

end Reconcile
