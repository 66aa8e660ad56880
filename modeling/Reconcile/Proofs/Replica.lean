import Mathlib.Logic.Function.Basic
import Reconcile.Proofs.History

/-! Copies of a log. A client that names the revision it is at, and takes the news of every answer,
always holds a beginning of the log, however late it looks at an answer, whatever others commit
meanwhile, and also if its requests or the answers to them get lost. -/

namespace Reconcile

open Manager (Purpose)

inductive Errand (op : Type)
  | idle
  | sent (purpose : Purpose op)
  | heard (purpose : Purpose op) (answer : Except TransportFault purpose.Response)

/-- The operations that a client holds, and the revision at which it thinks it is with them. -/
structure Replica (op : Type) where
  revision : Revision
  held : List op
  errand : Errand op

structure Mirror (κ op : Type) where
  history : History op
  replicas : κ → Replica op

namespace Replica

variable {op : Type} (r : Replica op)

def ofLog (log : List op) (count : Nat) : Replica op := ⟨⟨count⟩, log.take count, .idle⟩

def ask (batch : Option (List op)) : Replica op :=
  match r.errand with
  | .idle =>
    { r with errand := .sent (match batch with
      | none => .pull r.revision
      | some batch => .push r.revision batch) }
  | _ => r

def hear (h : History op) : Replica op :=
  match r.errand with
  | .sent purpose => { r with errand := .heard purpose (h.answer purpose).1 }
  | _ => r

def take : Replica op :=
  match r.errand with
  | .heard purpose (.ok response) =>
    let news := purpose.news response
    ⟨news.revision, r.held ++ news.operations, .idle⟩
  | .heard _ (.error _) => { r with errand := .idle }
  | _ => r

def lose : Replica op := { r with errand := .idle }

end Replica

namespace Mirror

variable {κ op : Type}

inductive Event (κ op : Type)
  | call (purpose : Purpose op)
  | ask (client : κ) (batch : Option (List op))
  | arrive (client : κ)
  | take (client : κ)
  | lose (client : κ)

def new (log : List op) (known : κ → Nat) : Mirror κ op := ⟨⟨log⟩, fun k => .ofLog log (known k)⟩

def request (w : Mirror κ op) : Event κ op → Option (Purpose op)
  | .call purpose => some purpose
  | .arrive client =>
    match (w.replicas client).errand with
    | .sent purpose => some purpose
    | _ => none
  | _ => none

def serve (w : Mirror κ op) (e : Event κ op) : History op :=
  match w.request e with
  | some purpose => (w.history.answer purpose).2
  | none => w.history

variable [DecidableEq κ]

def step (w : Mirror κ op) (e : Event κ op) : Mirror κ op where
  history := w.serve e
  replicas := match e with
    | .call _ => w.replicas
    | .ask client batch =>
      Function.update w.replicas client ((w.replicas client).ask batch)
    | .arrive client =>
      Function.update w.replicas client ((w.replicas client).hear w.history)
    | .take client => Function.update w.replicas client (w.replicas client).take
    | .lose client => Function.update w.replicas client (w.replicas client).lose

def run (w : Mirror κ op) (events : List (Event κ op)) : Mirror κ op := events.foldl step w

end Mirror

namespace History

variable {op : Type} {h : History op}

theorem answer_ahead {purpose : Purpose op}
    (ahead : h.operations.length < purpose.since.value) :
    h.answer purpose = (.error (.protocol
      s!"revision {purpose.since.display} is ahead of the server (at {h.revision.display})"), h) := by
  have beyond : ¬purpose.since.value ≤ h.operations.length := Nat.not_le.2 ahead
  cases purpose with
  | checkout => exact absurd ahead (Nat.not_lt_zero _)
  | pull since =>
    simp only [Purpose.since] at beyond
    simp only [answer, pull, History.since, if_neg beyond]
    rfl
  | push made batch =>
    simp only [Purpose.since] at beyond
    have stale : ¬made = h.revision := fun here => beyond (by rw [eq_revision_iff.1 here])
    simp only [answer, push, if_neg stale, History.since, if_neg beyond]
    rfl

end History

namespace Replica

open History (Follows)

variable {op : Type} {r : Replica op} {log : List op}

/-- The copy is the log up to its revision, and what it has under way goes on from there. -/
structure Tracks (log : List op) (r : Replica op) : Prop where
  within : r.revision.value ≤ log.length
  held : r.held = log.take r.revision.value
  asked : ∀ purpose, r.errand = .sent purpose → purpose.since = r.revision
  truthful : ∀ purpose response, r.errand = .heard purpose (.ok response) →
    Follows log r.revision (purpose.news response)

theorem tracks_ofLog {count : Nat} (within : count ≤ log.length) :
    Tracks log (.ofLog log count) where
  within := within
  held := rfl
  asked _ h := nomatch h
  truthful _ _ h := nomatch h

theorem Tracks.grow (tracks : r.Tracks log) (batch : List op) : r.Tracks (log ++ batch) where
  within := by
    rw [List.length_append]
    exact Nat.le_add_right_of_le tracks.within
  held := by
    rw [List.take_append_of_le_length tracks.within]
    exact tracks.held
  asked := tracks.asked
  truthful purpose response heard := (tracks.truthful purpose response heard).grow batch

theorem Tracks.lose (tracks : r.Tracks log) : r.lose.Tracks log where
  within := tracks.within
  held := tracks.held
  asked _ h := nomatch h
  truthful _ _ h := nomatch h

theorem Tracks.ask (tracks : r.Tracks log) (batch : Option (List op)) :
    (r.ask batch).Tracks log := by
  simp only [Replica.ask]
  split
  · refine ⟨tracks.within, tracks.held, ?_, fun _ _ h => nomatch h⟩
    intro purpose h
    obtain rfl := Errand.sent.inj h
    cases batch <;> rfl
  · exact tracks

theorem Tracks.hear {h : History op} (tracks : r.Tracks h.operations) :
    match r.errand with
    | .sent purpose => (r.hear h).Tracks (h.answer purpose).2.operations
    | _ => r.hear h = r := by
  cases errand : r.errand with
  | sent purpose =>
    have grown : r.Tracks (h.answer purpose).2.operations := by
      rcases h.answer_cases purpose with same | ⟨batch, -, grown⟩
      · rwa [same]
      · rw [grown]
        exact tracks.grow batch
    simp only [Replica.hear, errand]
    refine ⟨grown.within, grown.held, (fun _ h => nomatch h), ?_⟩
    intro asked response heard
    injection heard with same answered
    subst same
    rw [← tracks.asked purpose errand]
    exact History.follows_answer (eq_of_heq answered)
  | idle => simp only [Replica.hear, errand]
  | heard purpose answer => simp only [Replica.hear, errand]

theorem Tracks.take (tracks : r.Tracks log) : r.take.Tracks log := by
  simp only [Replica.take]
  split
  · rename_i purpose response heard
    obtain ⟨continues, named⟩ := tracks.truthful purpose response heard
    have fits := continues.length_le
    rw [List.length_drop] at fits
    have within := tracks.within
    refine ⟨?_, ?_, (fun _ h => nomatch h), fun _ _ h => nomatch h⟩
    · simp only [named, Revision.advance]
      omega
    · simp only [named, Revision.advance, tracks.held]
      rw [List.take_add, ← List.prefix_iff_eq_take.1 continues]
  · exact tracks.lose
  · exact tracks

end Replica

namespace Mirror

open Replica (Tracks)

variable {κ op : Type} {w : Mirror κ op}

theorem serve_cases (w : Mirror κ op) (e : Event κ op) :
    (w.serve e).operations = w.history.operations ∨
      ∃ made batch, w.request e = some (.push made batch) ∧
        made.value = w.history.operations.length ∧
        (w.serve e).operations = w.history.operations ++ batch := by
  simp only [serve]
  split
  · rename_i purpose requested
    rcases w.history.answer_cases purpose with same | ⟨batch, rfl, grown⟩
    · exact .inl same
    · exact .inr ⟨_, batch, requested, w.history.value_revision, grown⟩
  · exact .inl rfl

theorem serve_grows (w : Mirror κ op) (e : Event κ op) :
    ∃ batch, (w.serve e).operations = w.history.operations ++ batch := by
  rcases w.serve_cases e with same | ⟨made, batch, -, -, grown⟩
  · exact ⟨[], by rw [same, List.append_nil]⟩
  · exact ⟨batch, grown⟩

variable [DecidableEq κ]

theorem tracks_step (tracks : ∀ k, (w.replicas k).Tracks w.history.operations) (e : Event κ op)
    (k : κ) : ((w.step e).replicas k).Tracks (w.step e).history.operations := by
  obtain ⟨batch, grown⟩ := w.serve_grows e
  have still (j : κ) : (w.replicas j).Tracks (w.serve e).operations := by
    rw [grown]
    exact (tracks j).grow batch
  have updated {client : κ} {r : Replica op} (moved : r.Tracks (w.serve e).operations) :
      (Function.update w.replicas client r k).Tracks (w.serve e).operations := by
    by_cases mine : k = client
    · subst mine
      rwa [Function.update_self]
    · rw [Function.update_of_ne mine]
      exact still k
  cases e with
  | call purpose => exact still k
  | ask client batch => exact updated ((still client).ask batch)
  | arrive client =>
    refine updated ?_
    have heard := (tracks client).hear
    have same := still client
    simp only [serve, request] at same ⊢
    cases errand : (w.replicas client).errand <;> simp only [errand] at heard same ⊢
    · rwa [heard]
    · exact heard
    · rwa [heard]
  | take client => exact updated (still client).take
  | lose client => exact updated (still client).lose

theorem tracks_run (tracks : ∀ k, (w.replicas k).Tracks w.history.operations)
    (events : List (Event κ op)) (k : κ) :
    ((w.run events).replicas k).Tracks (w.run events).history.operations := by
  induction events generalizing w with
  | nil => exact tracks k
  | cons e events ih => exact ih (tracks_step tracks e)

theorem log_prefix_run (w : Mirror κ op) (events : List (Event κ op)) :
    w.history.operations <+: (w.run events).history.operations := by
  induction events generalizing w with
  | nil => exact List.prefix_refl _
  | cons e events ih =>
    obtain ⟨batch, grown⟩ := w.serve_grows e
    have first : w.history.operations <+: (w.step e).history.operations :=
      ⟨batch, grown.symm⟩
    exact first.trans (ih (w.step e))

/-- After any calls by anybody: the log has only grown at its end, and grows next only by the whole
batch of a push that was made there; a call that is ahead of it fails and changes nothing; and every
client that goes by the answers holds the log up to its own revision. -/
theorem answers_rebuild_log (log : List op) (known : κ → Nat)
    (within : ∀ k, known k ≤ log.length) (events : List (Event κ op)) :
    let w := (new log known).run events
    let committed := w.history.operations
    log <+: committed ∧
      (∀ e, (w.step e).history.operations = committed ∨
        ∃ made batch, w.request e = some (.push made batch) ∧ made.value = committed.length ∧
          (w.step e).history.operations = committed ++ batch) ∧
      (∀ made batch, made.value = committed.length → w.history.answer (.push made batch) =
        (.ok (.accepted ⟨committed.length + batch.length⟩), ⟨committed ++ batch⟩)) ∧
      (∀ purpose : Purpose op, committed.length < purpose.since.value →
        w.history.answer purpose = (.error (.protocol
          s!"revision {purpose.since.display} is ahead of the server (at {w.history.revision.display})"),
            w.history)) ∧
      ∀ k, (w.replicas k).revision.value ≤ committed.length ∧
        (w.replicas k).held = committed.take (w.replicas k).revision.value := by
  intro w committed
  have tracks k : (w.replicas k).Tracks committed :=
    tracks_run (fun k => Replica.tracks_ofLog (within k)) events k
  refine ⟨log_prefix_run (new log known) events, w.serve_cases, ?_, ?_, ?_⟩
  · intro made batch latest
    rw [History.answer_latest latest, Revision.advance, latest]
  · exact fun purpose ahead => History.answer_ahead ahead
  · exact fun k => ⟨(tracks k).within, (tracks k).held⟩

theorem answers_rebuild_log_for_latecomer :
    let known (k : Bool) : Nat := if k then 2 else 0
    let events : List (Event Bool Nat) :=
      [.ask false (some [7]), .ask true (some [8, 9]), .arrive true, .arrive false,
        .call (.push ⟨9⟩ [0]), .call (.push ⟨4⟩ [5]), .take false, .ask false none, .arrive false]
    let w := (new [1, 2] known).run events
    (∀ k, known k ≤ [1, 2].length) ∧ w.history.operations = [1, 2, 8, 9, 5] ∧
      (w.replicas false).held = w.history.operations.take 4 ∧
      (w.replicas true).held = w.history.operations.take 2 := by
  intro known events w
  have within : ∀ k, known k ≤ [1, 2].length := by decide
  obtain ⟨-, -, -, -, holds⟩ := answers_rebuild_log [1, 2] known within events
  exact ⟨within, by decide, (holds false).2, (holds true).2⟩

end Mirror

end Reconcile
