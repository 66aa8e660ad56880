import Reconcile.Proofs.Manager.Session

/-! The phases of a sync, and how one turn at a time leads from each of them to the next, together
with the log that it pushes to. A conflict takes a sync on to a later revision, so that its pushes
are counted by how far it has come. -/

namespace Reconcile

open Manager (Call Stage Undisturbed)

structure Push (op : Type) where
  made : Revision
  batch : List op
  deriving DecidableEq, Repr

namespace Push

variable {op : Type}

def call (push : Push op) : Call op := .first (.push push.made push.batch)

end Push

/-- Where a sync stands: it is about to push, waits, has heard that the batch was taken or what it
has missed, has rebased, or is over, as it should be or because the manager was closed. -/
inductive Phase (op : Type)
  | asking (push : Push op)
  | sent (push : Push op)
  | taken (push : Push op)
  | missed (push : Push op) (news : List op)
  | again (push : Push op)
  | done (revision : Revision)
  | shut

namespace Phase

variable {σ op ι : Type} {m n : Manager σ op ι}

def stage : Phase op → Stage op
  | asking push => .asking push.call
  | sent push => .sent push.call
  | taken push => .heard push.call (.ok (.accepted (push.made.advance push.batch.length)))
  | missed push news => .heard push.call (.ok (.conflict news (push.made.advance news.length)))
  | again _ => .settled .pushAgain
  | done _ => .settled (.ended (.ok 0))
  | shut => .settled (.ended (.error .closed))

def Fits (m : Manager σ op ι) : Phase op → Prop
  | asking push | sent push | taken push | missed push _ | again push =>
    m.revision = push.made ∧ m.inflight = push.batch ∧ push.batch ≠ [] ∧ m.halted = false
  | done revision => m.revision = revision ∧ m.inflight = []
  | shut => m.closed = true

def acts : Phase op → Bool
  | asking _ | taken _ | missed _ _ | again _ => true
  | sent _ | done _ | shut => false

def waits : Phase op → Bool
  | sent _ => true
  | _ => false

theorem Fits.undisturbed {phase : Phase op} (fits : phase.Fits m) (u : Undisturbed m n)
    (halted : n.halted = m.halted) (closed : m.closed = true → n.closed = true) :
    phase.Fits n := by
  cases phase with
  | done revision => exact ⟨u.revision.trans fits.1, u.inflight.trans fits.2⟩
  | shut => exact closed fits
  | _ => exact ⟨u.revision.trans fits.1, u.inflight.trans fits.2.1, fits.2.2.1,
      halted.trans fits.2.2.2⟩

/-- One turn of a sync: the phase and the log before it, what is pushed, and the phase and the log
after it. -/
inductive Turn (a : Algebra σ op) :
    Phase op → List op → List (Push op) → Phase op → List op → Prop
  | asks (push : Push op) (log : List op) : Turn a (.asking push) log [push] (.sent push) log
  | shuts (push : Push op) (log : List op) : Turn a (.asking push) log [] .shut log
  | taken (push : Push op) {log : List op} (latest : push.made.value = log.length) :
    Turn a (.sent push) log [] (.taken push) (log ++ push.batch)
  | missed (push : Push op) {log : List op} (stale : push.made.value < log.length) :
    Turn a (.sent push) log [] (.missed push (log.drop push.made.value)) log
  | acknowledges (push : Push op) (log : List op) :
    Turn a (.taken push) log [] (.done (push.made.advance push.batch.length)) log
  | rebases (push : Push op) (log : List op) {news : List op} {d : Diamond op}
      (crossed : a.transform push.batch news = .ok d) (left : d.left ≠ []) :
    Turn a (.missed push news) log [] (.again ⟨push.made.advance news.length, d.left⟩) log
  | vanishes (push : Push op) (log : List op) {news : List op} {d : Diamond op}
      (crossed : a.transform push.batch news = .ok d) (nothing : d.left = []) :
    Turn a (.missed push news) log [] (.done (push.made.advance news.length)) log
  | goesOn (push : Push op) (log : List op) : Turn a (.again push) log [] (.asking push) log

variable {a : Algebra σ op} {phase phase' : Phase op} {start : Revision}
  {initially log log' : List op} {pushes new : List (Push op)}

/-- Every push but the last one has taken the sync on by a revision, and none of them is ahead of
the log. -/
def Counted (start : Revision) (pushes : List (Push op)) (log : List op) : Phase op → Prop
  | asking push | again push =>
    pushes.length + start.value ≤ push.made.value ∧ push.made.value ≤ log.length
  | sent push | taken push =>
    pushes.length + start.value ≤ push.made.value + 1 ∧ push.made.value ≤ log.length
  | missed push news =>
    pushes.length + start.value ≤ push.made.value + 1 ∧ news ≠ [] ∧
      push.made.value + news.length ≤ log.length
  | done _ | shut => pushes.length + start.value ≤ log.length + 1

theorem Counted.le (counted : phase.Counted start pushes log) :
    pushes.length + start.value ≤ log.length + 1 := by
  cases phase <;> simp only [Counted] at counted <;> omega

theorem Counted.grow (counted : phase.Counted start pushes log) (grown : log <+: log') :
    phase.Counted start pushes log' := by
  have longer := grown.length_le
  cases phase <;> simp only [Counted] at counted ⊢ <;> grind

theorem Counted.turn (counted : phase.Counted start pushes log)
    (turn : Turn a phase log new phase' log') : phase'.Counted start (pushes ++ new) log' := by
  cases turn with
  | asks push =>
    simp only [Counted, List.length_append, List.length_singleton] at counted ⊢
    omega
  | shuts push =>
    rw [List.append_nil]
    exact counted.le
  | taken push latest =>
    simp only [Counted, List.append_nil, List.length_append] at counted ⊢
    omega
  | missed push stale =>
    simp only [Counted, List.append_nil, List.length_drop, ne_eq, List.drop_eq_nil_iff]
      at counted ⊢
    omega
  | acknowledges push | vanishes push log crossed nothing =>
    rw [List.append_nil]
    exact counted.le
  | @rebases push log news d crossed left =>
    obtain ⟨few, heard, within⟩ := counted
    have more := List.length_pos_of_ne_nil heard
    simp only [Counted, List.append_nil, Revision.advance]
    omega
  | goesOn push =>
    rw [List.append_nil]
    exact counted

def Alone (a : Algebra σ op) (initially : List op) (pushes : List (Push op)) (log : List op) :
    Phase op → Prop
  | asking push =>
    log = initially ∧ (pushes = [] ∨ pushes.length = 1 ∧ push.made.value = initially.length)
  | sent push =>
    log = initially ∧ (pushes = [push] ∨
      ∃ first, pushes = [first, push] ∧ push.made.value = initially.length)
  | taken push =>
    log = initially ++ push.batch ∧ push.made.value = initially.length ∧
      pushes.getLast? = some push ∧ pushes.length ≤ 2
  | missed push news =>
    log = initially ∧ pushes = [push] ∧ push.made.value ≤ initially.length ∧
      news = initially.drop push.made.value
  | again push => log = initially ∧ pushes.length = 1 ∧ push.made.value = initially.length
  | done revision =>
    pushes.length ≤ 2 ∧ revision.value = log.length ∧ ∃ last, pushes.getLast? = some last ∧
      (log = initially ++ last.batch ∨ log = initially ∧ ∃ d,
        a.transform last.batch (initially.drop last.made.value) = .ok d ∧ d.left = [])
  | shut => pushes.length ≤ 2

theorem Alone.le_two (alone : phase.Alone a initially pushes log) : pushes.length ≤ 2 := by
  cases phase <;> simp only [Alone] at alone <;> grind

theorem Alone.turn (alone : phase.Alone a initially pushes log)
    (turn : Turn a phase log new phase' log') : phase'.Alone a initially (pushes ++ new) log' := by
  cases turn with
  | asks push =>
    obtain ⟨unchanged, rfl | ⟨once, latest⟩⟩ := alone
    · exact ⟨unchanged, .inl rfl⟩
    · obtain ⟨first, rfl⟩ := List.length_eq_one_iff.1 once
      exact ⟨unchanged, .inr ⟨first, rfl, latest⟩⟩
  | shuts push =>
    rw [List.append_nil]
    exact alone.le_two
  | taken push latest =>
    obtain ⟨rfl, rfl | ⟨first, rfl, -⟩⟩ := alone
    · exact ⟨rfl, latest, rfl, Nat.le_succ 1⟩
    · exact ⟨rfl, latest, rfl, Nat.le_refl 2⟩
  | missed push stale =>
    obtain ⟨rfl, rfl | ⟨first, rfl, latest⟩⟩ := alone
    · exact ⟨rfl, rfl, Nat.le_of_lt stale, rfl⟩
    · omega
  | acknowledges push =>
    obtain ⟨rfl, latest, last, few⟩ := alone
    rw [List.append_nil]
    refine ⟨few, ?_, push, last, .inl rfl⟩
    simp only [Revision.advance, latest, List.length_append]
  | rebases push log crossed left =>
    obtain ⟨rfl, rfl, behind, rfl⟩ := alone
    refine ⟨rfl, rfl, ?_⟩
    simp only [Revision.advance, List.length_drop]
    omega
  | vanishes push log crossed nothing =>
    obtain ⟨rfl, rfl, behind, rfl⟩ := alone
    refine ⟨Nat.le_succ 1, ?_, push, rfl, .inr ⟨rfl, _, crossed, nothing⟩⟩
    simp only [Revision.advance, List.length_drop]
    omega
  | goesOn push =>
    obtain ⟨unchanged, once, latest⟩ := alone
    rw [List.append_nil]
    exact ⟨unchanged, .inr ⟨once, latest⟩⟩

def detour (log : List op) (known : Nat) : Nat := if known < log.length then 4 else 0

def rest (log : List op) : Phase op → Nat
  | asking push => 3 + detour log push.made.value
  | sent push => 2 + detour log push.made.value
  | taken _ => 1
  | missed push news => 5 + detour log (push.made.value + news.length)
  | again push => 4 + detour log push.made.value
  | done _ | shut => 0

theorem rest_le (phase : Phase op) (log : List op) : phase.rest log ≤ 9 := by
  have few (known : Nat) : detour log known ≤ 4 := by
    simp only [detour]
    split <;> omega
  cases phase <;> grind [rest]

theorem rest_lt_of_turn (turn : Turn a phase log new phase' log') :
    phase'.rest log' < phase.rest log := by
  cases turn with
  | asks push | acknowledges push | vanishes push log crossed nothing | shuts push =>
    simp only [rest]
    omega
  | goesOn push => exact Nat.add_lt_add_right (Nat.lt_succ_self 3) _
  | taken push latest =>
    simp only [rest]
    omega
  | missed push stale =>
    have whole : push.made.value + (log.drop push.made.value).length = log.length := by
      rw [List.length_drop]
      omega
    simp only [rest, detour, whole, if_pos stale, Nat.lt_irrefl, if_false]
    omega
  | rebases push log crossed left =>
    simp only [rest, Revision.advance]
    omega

end Phase

end Reconcile
