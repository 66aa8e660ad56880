import Reconcile.Proofs.Json.Records

/-! What is exchanged as JSON: the snapshots that clients keep, and what servers answer. Their texts
are read back to exactly the values that they were written for, so that no two values have one text.
Any characters may stand in them, and lists of any length; their integers are those of 64 bits. -/

namespace Reconcile.Json

variable {σ op α V : Type}

structure SnapshotOf (State : σ → Prop) (Op : op → Prop) (s : Snapshot σ op) : Prop where
  revision : Width.Unsigned64 s.revision.value
  base : State s.base
  inflight : ∀ o ∈ s.inflight, Op o
  pending : ∀ o ∈ s.pending, Op o

structure PulledOf (Op : op → Prop) (p : Pulled op) : Prop where
  revision : Width.Unsigned64 p.revision.value
  operations : ∀ o ∈ p.operations, Op o

def OutcomeOf (Op : op → Prop) : PushOutcome op → Prop
  | .accepted revision => Width.Unsigned64 revision.value
  | .conflict operations revision => Width.Unsigned64 revision.value ∧ ∀ o ∈ operations, Op o

section answers

variable [Coded op] [Lossless op]

theorem decode_pulled {p : Pulled op} (fits : PulledOf Fits p) : decode? (encode p) = some p := by
  refine Option.bind_eq_some_iff.2 ⟨_, record?_object (by simp), ?_⟩
  refine Option.bind_eq_some_iff.2 ⟨_, decode_encode p.revision fits.revision, ?_⟩
  exact Option.bind_eq_some_iff.2 ⟨_, decode_encode p.operations fits.operations, rfl⟩

instance : Lossless (Pulled op) where
  Fits := PulledOf Fits
  levels := levels op + 2
  legible p fits := by
    refine .object ?_
    simp only [List.forall_mem_cons, List.not_mem_nil, false_imp_iff, implies_true, and_true]
    exact ⟨(legible p.revision fits.revision).mono (Nat.zero_le _),
      legible p.operations fits.operations⟩
  decode_encode _ := decode_pulled
  decodePart_encode _ := decode_pulled
  encode_ne_null _ := Value.noConfusion

theorem legible_outcome {o : PushOutcome op} (fits : OutcomeOf Fits o) :
    Legible (levels op + 2) (encode o) := by
  cases o with
  | accepted revision =>
    refine .object ?_
    simp only [List.forall_mem_cons, List.not_mem_nil, false_imp_iff, implies_true, and_true]
    exact ⟨.string _, (legible revision fits).mono (Nat.zero_le _)⟩
  | conflict operations revision =>
    refine .object ?_
    simp only [List.forall_mem_cons, List.not_mem_nil, false_imp_iff, implies_true, and_true]
    exact ⟨.string _, legible operations fits.2, (legible revision fits.1).mono (Nat.zero_le _)⟩

theorem decode_outcome {o : PushOutcome op} (fits : OutcomeOf Fits o) :
    decode? (encode o) = some o := by
  cases o with
  | accepted revision =>
    have tagged : Value.tagged? "outcome" [] (encode (.accepted revision : PushOutcome op)) =
        some ("Accepted", .object [("revision", encode revision)]) :=
      tagged?_object [] (fieldsReadable_of_forall (by simp [(legible revision fits).isReadable]))
        (by simp)
    refine Option.bind_eq_some_iff.2 ⟨_, tagged, ?_⟩
    refine Option.bind_eq_some_iff.2 ⟨_, record?_object (by simp), ?_⟩
    exact Option.bind_eq_some_iff.2 ⟨_, decode_encode revision fits, rfl⟩
  | conflict operations revision =>
    have readable : ∀ field ∈ [("operations", encode operations), ("revision", encode revision)],
        field.2.isReadable = true := by
      simp [(legible operations fits.2).isReadable, (legible revision fits.1).isReadable]
    have tagged : Value.tagged? "outcome" [] (encode (PushOutcome.conflict operations revision)) =
        some ("Conflict",
          .object [("operations", encode operations), ("revision", encode revision)]) :=
      tagged?_object [] (fieldsReadable_of_forall readable) (by simp)
    refine Option.bind_eq_some_iff.2 ⟨_, tagged, ?_⟩
    refine Option.bind_eq_some_iff.2 ⟨_, record?_object (by simp), ?_⟩
    refine Option.bind_eq_some_iff.2 ⟨_, decodePart_encode operations fits.2, ?_⟩
    exact Option.bind_eq_some_iff.2 ⟨_, decode_encode revision fits.1, rfl⟩

instance : Lossless (PushOutcome op) where
  Fits := OutcomeOf Fits
  levels := levels op + 2
  legible _ := legible_outcome
  decode_encode _ := decode_outcome
  decodePart_encode _ := decode_outcome
  encode_ne_null o := by cases o <;> exact Value.noConfusion

end answers

/-- These values are read back from their texts, and told apart by them. -/
structure Recovered [Coded α] (P : α → Prop) : Prop where
  read_pretty : ∀ x, P x → (read? (encode x).pretty >>= decode?) = some x
  pretty_injective : ∀ x y, P x → P y → (encode x).pretty = (encode y).pretty → x = y

theorem recovered_of_fits [Coded α] [Lossless α] (shallow : levels α ≤ maxDepth) {P : α → Prop}
    (fits : ∀ x, P x → Fits x) : Recovered P where
  read_pretty x hx := read?_encode shallow (fits x hx)
  pretty_injective x y hx hy same := by
    have back := read?_encode shallow (fits x hx)
    rw [same, read?_encode shallow (fits y hy)] at back
    exact (Option.some.inj back).symm

/-- Everything that is exchanged about a kind of resource, for states and operations such as these. -/
structure Exchanged [Coded σ] [Coded op] (State : σ → Prop) (Op : op → Prop) : Prop where
  snapshots : Recovered (SnapshotOf State Op)
  pulled : Recovered (PulledOf Op)
  outcomes : Recovered (OutcomeOf Op)

theorem exchanged_of_fits [Coded σ] [Coded op] [Lossless σ] [Lossless op]
    (shallowState : levels σ < maxDepth) (shallowOp : levels op + 1 < maxDepth)
    {State : σ → Prop} {Op : op → Prop} (state : ∀ s, State s → Fits s)
    (operation : ∀ o, Op o → Fits o) : Exchanged State Op where
  snapshots := by
    refine recovered_of_fits (Nat.max_lt.2 ⟨shallowState, shallowOp⟩) fun s h => ?_
    exact ⟨h.revision, state s.base h.base, fun o member => operation o (h.inflight o member),
      fun o member => operation o (h.pending o member)⟩
  pulled := by
    refine recovered_of_fits shallowOp fun p h => ?_
    exact ⟨h.revision, fun o member => operation o (h.operations o member)⟩
  outcomes := by
    refine recovered_of_fits shallowOp fun o h => ?_
    cases o with
    | accepted revision => exact h
    | conflict operations revision => exact ⟨h.1, fun o member => operation o (h.2 o member)⟩

/-- Snapshots, pulled operations and answers to pushes of documents, of directories and of
registers that hold strings or integers, whatever is in them: their texts lose nothing. -/
theorem exchange_loses_nothing :
    Exchanged (fun _ : Text.Document => True) (fun e : Text.Edit => Width.Unsigned64 e.pos) ∧
      Exchanged (fun _ : Room.Directory => True) (fun _ : Room.Change => True) ∧
      Exchanged (fun _ : Register.Registers String String => True)
        (fun _ : Register.Write String String => True) ∧
      Exchanged
        (fun values : Register.Registers String Int =>
          ∀ entry ∈ values.toList, Width.Signed64 entry.2)
        (fun w : Register.Write String Int =>
          (∀ n ∈ w.before, Width.Signed64 n) ∧ ∀ n ∈ w.after, Width.Signed64 n) := by
  refine ⟨?_, ?_, ?_, ?_⟩
  · exact exchanged_of_fits (by decide) (by decide) (fun _ _ => trivial) fun _ inRange => inRange
  · exact exchanged_of_fits (by decide) (by decide) (fun _ _ _ _ => trivial) fun _ _ => trivial
  · refine exchanged_of_fits (by decide) (by decide) (fun _ _ _ _ => trivial) fun _ _ => ?_
    exact ⟨fun _ _ => trivial, fun _ _ => trivial⟩
  · exact exchanged_of_fits (by decide) (by decide) (fun _ inRange => inRange) fun _ inRange => inRange

theorem exchange_loses_nothing_on_awkward_values :
    let snapshot : Snapshot Text.Document Text.Edit :=
      ⟨⟨18446744073709551615⟩, ['"', '\\', '\n', Char.ofNat 0, Char.ofNat 128512],
        [.replace 18446744073709551615 [] ['\t']], []⟩
    let outcome : PushOutcome (Register.Write String Int) :=
      .conflict [⟨"outcome", some (-9223372036854775808), none⟩, ⟨"", none, none⟩] ⟨0⟩
    (read? (encode snapshot).pretty >>= decode?) = some snapshot ∧
      (read? (encode outcome).pretty >>= decode?) = some outcome := by
  intro snapshot outcome
  obtain ⟨text, -, -, integers⟩ := exchange_loses_nothing
  constructor
  · exact text.snapshots.read_pretty snapshot
      ⟨by decide, trivial, by simp [snapshot, Text.Edit.pos, Width.Unsigned64, Width.values64],
        by simp [snapshot]⟩
  · exact integers.outcomes.read_pretty outcome ⟨by decide, by simp [Width.Signed64]⟩

end Reconcile.Json
