import Reconcile.Proofs.Recursion
import Reconcile.Proofs.Text.Depth
import Reconcile.Proofs.Text.Merge

/-! The rules for crossing edits in the arithmetic of a machine, whose words hold the positions below
`positionLimit`. A machine has to be right only where a result can be represented; what it does below
zero and beyond the limit is left open. For edits at positions in range the rules come out the same
on every machine, so that none of them ever takes a number from a smaller one, or lets a sum wrap. -/

namespace Reconcile.Text

/-- A machine's subtraction and addition: exact where the result can be represented, and otherwise
anything at all, a failure included. -/
structure Arithmetic where
  minus : Nat → Nat → Except Fault Nat
  plus : Nat → Nat → Except Fault Nat
  minus_exact : ∀ {n m : Nat}, n < positionLimit → m ≤ n → minus n m = .ok (n - m)
  plus_exact : ∀ {n m : Nat}, n + m < positionLimit → plus n m = .ok (n + m)

def slice (text : List Char) (start stop : Nat) : List Char :=
  (text.drop start).take (stop - start)

namespace Arithmetic

def words : Arithmetic where
  minus n m := .ok (UInt64.ofNat n - UInt64.ofNat m).toNat
  plus n m := .ok (UInt64.ofNat n + UInt64.ofNat m).toNat
  minus_exact {n m} inRange le := by
    have small : n < UInt64.size := inRange
    rw [UInt64.toNat_sub_of_le, UInt64.toNat_ofNat_of_lt' small,
      UInt64.toNat_ofNat_of_lt' (Nat.lt_of_le_of_lt le small)]
    rw [UInt64.le_iff_toNat_le, UInt64.toNat_ofNat_of_lt' small,
      UInt64.toNat_ofNat_of_lt' (Nat.lt_of_le_of_lt le small)]
    exact le
  plus_exact {n m} inRange := by
    have small : n + m < UInt64.size := inRange
    rw [← UInt64.ofNat_add, UInt64.toNat_ofNat_of_lt' small]

variable (a : Arithmetic)

def shift (pos length : Nat) : Except Fault Nat :=
  if pos + length < positionLimit then a.plus pos length else .error (.overflow pos length)

def crossInsertDelete (insPos : Nat) (ins : List Char) (delPos : Nat) (del : List Char) :
    Except Fault (Diamond Edit) := do
  let shifted ← a.shift delPos ins.length
  if insPos ≤ delPos then
    return .unchanged (.insert insPos ins) (.delete shifted del)
  else
    let stop ← a.shift delPos del.length
    if stop ≤ insPos then
      return .unchanged (.insert (← a.minus insPos del.length) ins) (.delete delPos del)
    else
      let split ← a.minus insPos delPos
      return ⟨[.insert delPos ins],
        [.delete delPos (slice del 0 split), .delete shifted (slice del split del.length)]⟩

def deleteAfter (pos : Nat) (text : List Char) (otherPos : Nat) (other : List Char) :
    Except Fault Edit := do
  let stop ← a.shift pos text.length
  let otherStop ← a.shift otherPos other.length
  if stop ≤ otherPos then
    return .delete pos text
  else if otherStop ≤ pos then
    return .delete (← a.minus pos other.length) text
  else
    let head := min (otherPos - pos) text.length
    let tail := min (← a.minus otherStop pos) text.length
    return .delete (min pos otherPos) (slice text 0 head ++ slice text tail text.length)

def crossSimple : Edit → Edit → Except Fault (Diamond Edit)
  | .insert p t, .insert q u => do
    if p < q then
      return .unchanged (.insert p t) (.insert (← a.shift q t.length) u)
    else
      return .unchanged (.insert (← a.shift p u.length) t) (.insert q u)
  | .insert p t, .delete q d => a.crossInsertDelete p t q d
  | .delete p d, .insert q t => Diamond.swap <$> a.crossInsertDelete q t p d
  | .delete p d, .delete q e =>
    return .unchanged (← a.deleteAfter p d q e) (← a.deleteAfter q e p d)
  | l, r => return .unchanged l r

/-- What two edits cross to. A replacement crosses as the list that it expands to, by the recursion
that crosses lists. -/
inductive Crosses : Edit → Edit → Except OpError (Diamond Edit) → Prop
  | simple {l r : Edit} (plain : (l.isReplace || r.isReplace) = false) :
      Crosses l r ((a.crossSimple l r).mapError Fault.toOpError)
  | expanded {l r : Edit} {result : Except OpError (Diamond Edit)}
      (compound : (l.isReplace || r.isReplace) = true)
      (ended : Diamond.Computes Edit.isEmpty Crosses (l.expand.filter (!·.isEmpty))
        (r.expand.filter (!·.isEmpty)) result) :
      Crosses l r result

def Ends (left right : List Edit) (result : Except OpError (Diamond Edit)) : Prop :=
  Diamond.Computes Edit.isEmpty a.Crosses (left.filter (!·.isEmpty)) (right.filter (!·.isEmpty))
    result

end Arithmetic

variable {p q : Nat} {t d e : List Char} {l r : Edit} {left right : List Edit}
  {diamond : Diamond Edit} {result : Except OpError (Diamond Edit)}

theorem slice_take (text : List Char) (n : Nat) :
    slice text 0 (min n text.length) = text.take n := by
  rw [slice, List.drop_zero, Nat.sub_zero]
  rcases Nat.le_total n text.length with short | long
  · rw [Nat.min_eq_left short]
  · rw [Nat.min_eq_right long, List.take_length, List.take_of_length_le long]

theorem slice_drop (text : List Char) (n : Nat) : slice text n text.length = text.drop n := by
  rw [slice, List.take_of_length_le]
  rw [List.length_drop]

theorem slice_drop_min (text : List Char) (n : Nat) :
    slice text (min n text.length) text.length = text.drop n := by
  rw [slice_drop]
  rcases Nat.le_total n text.length with short | long
  · rw [Nat.min_eq_left short]
  · rw [Nat.min_eq_right long, List.drop_length, List.drop_eq_nil_of_le long]

namespace Edit

def InRange (e : Edit) : Prop := e.pos < positionLimit

theorem inRange_crossInsertDelete (crossed : crossInsertDelete p t q d = .ok diamond)
    (hp : p < positionLimit) (hq : q < positionLimit) :
    (∀ e ∈ diamond.left, e.InRange) ∧ ∀ e ∈ diamond.right, e.InRange := by
  obtain ⟨shifted, hshifted, crossed⟩ := bind_eq_ok.1 crossed
  obtain ⟨shiftedInRange, rfl⟩ := shift_eq_ok.1 hshifted
  split at crossed
  · obtain rfl := Except.ok.inj crossed
    exact ⟨List.forall_mem_singleton.2 hp, List.forall_mem_singleton.2 shiftedInRange⟩
  · obtain ⟨stop, -, crossed⟩ := bind_eq_ok.1 crossed
    split at crossed
    · obtain rfl := Except.ok.inj crossed
      have moved : p - d.length < positionLimit := Nat.lt_of_le_of_lt (Nat.sub_le p d.length) hp
      exact ⟨List.forall_mem_singleton.2 moved, List.forall_mem_singleton.2 hq⟩
    · obtain rfl := Except.ok.inj crossed
      exact ⟨List.forall_mem_singleton.2 hq,
        List.forall_mem_cons.2 ⟨hq, List.forall_mem_singleton.2 shiftedInRange⟩⟩

theorem inRange_deleteAfter (left : deleteAfter p d q e = .ok l) (hp : p < positionLimit) :
    l.InRange := by
  obtain ⟨-, rfl⟩ := deleteAfter_eq_ok.1 left
  split
  · exact hp
  · split
    · exact Nat.lt_of_le_of_lt (Nat.sub_le p e.length) hp
    · exact Nat.lt_of_le_of_lt (Nat.min_le_left p q) hp

theorem inRange_crossSimple (crossed : crossSimple l r = .ok diamond) (hl : l.InRange)
    (hr : r.InRange) :
    (∀ e ∈ diamond.left, e.InRange) ∧ ∀ e ∈ diamond.right, e.InRange := by
  match l, r with
  | .insert p t, .insert q u =>
    simp only [crossSimple] at crossed
    split at crossed
    · obtain ⟨shifted, hshifted, crossed⟩ := bind_eq_ok.1 crossed
      obtain ⟨shiftedInRange, rfl⟩ := shift_eq_ok.1 hshifted
      obtain rfl := Except.ok.inj crossed
      exact ⟨List.forall_mem_singleton.2 hl, List.forall_mem_singleton.2 shiftedInRange⟩
    · obtain ⟨shifted, hshifted, crossed⟩ := bind_eq_ok.1 crossed
      obtain ⟨shiftedInRange, rfl⟩ := shift_eq_ok.1 hshifted
      obtain rfl := Except.ok.inj crossed
      exact ⟨List.forall_mem_singleton.2 shiftedInRange, List.forall_mem_singleton.2 hr⟩
  | .insert p t, .delete q d => exact inRange_crossInsertDelete crossed hl hr
  | .delete p d, .insert q t =>
    obtain ⟨swapped, hswapped, rfl⟩ := map_eq_ok.1 crossed
    exact (inRange_crossInsertDelete hswapped hr hl).symm
  | .delete p d, .delete q e =>
    obtain ⟨left, hleft, crossed⟩ := bind_eq_ok.1 crossed
    obtain ⟨right, hright, crossed⟩ := bind_eq_ok.1 crossed
    obtain rfl := Except.ok.inj crossed
    exact ⟨List.forall_mem_singleton.2 (inRange_deleteAfter hleft hl),
      List.forall_mem_singleton.2 (inRange_deleteAfter hright hr)⟩
  | .replace .., .insert .. | .replace .., .delete .. | .replace .., .replace .. |
    .insert .., .replace .. | .delete .., .replace .. =>
    obtain rfl := Except.ok.inj crossed
    exact ⟨List.forall_mem_singleton.2 hl, List.forall_mem_singleton.2 hr⟩

structure Plain (e : Edit) : Prop where
  simple : e.isReplace = false
  inRange : e.InRange

theorem pos_expand (e : Edit) : ∀ f ∈ e.expand, f.pos = e.pos := by
  cases e <;> simp [expand, pos]

theorem plain_expand_of_inRange {e : Edit} (inRange : e.InRange) :
    ∀ f ∈ e.expand.filter (!·.isEmpty), f.Plain := by
  intro f member
  have expanded := (List.mem_filter.1 member).1
  refine ⟨plain_expand e f expanded, ?_⟩
  rw [InRange, pos_expand e f expanded]
  exact inRange

theorem keeping_plain : Diamond.Keeping isEmpty
    (fun l r crossed => simpleAlgebra.cross l r = crossed) Plain Plain := by
  intro l r diamond crossed hl hr
  obtain ⟨simpleL, simpleR⟩ := plain_prune crossed hl.simple hr.simple
  obtain ⟨inRangeL, inRangeR⟩ :=
    inRange_crossSimple (mapError_eq_ok.1 crossed) hl.inRange hr.inRange
  exact ⟨fun e member => ⟨simpleL e member, inRangeL e (List.mem_filter.1 member).1⟩,
    fun e member => ⟨simpleR e member, inRangeR e (List.mem_filter.1 member).1⟩⟩

theorem keeping_inRange : Diamond.Keeping isEmpty
    (fun l r crossed => l.cross r = crossed) InRange InRange := by
  intro l r diamond crossed hl hr
  have kept : (∀ e ∈ diamond.left, e.InRange) ∧ ∀ e ∈ diamond.right, e.InRange := by
    simp only [cross] at crossed
    split at crossed
    · obtain ⟨plainL, plainR⟩ := (Algebra.grid_of_transform crossed).forall_mem
        (fun crossed onLeft onRight => keeping_plain crossed onLeft onRight)
        (plain_expand_of_inRange hl) (plain_expand_of_inRange hr)
      exact ⟨fun e member => (plainL e member).inRange, fun e member => (plainR e member).inRange⟩
    · exact inRange_crossSimple (mapError_eq_ok.1 crossed) hl hr
  exact ⟨fun e member => kept.1 e (List.mem_filter.1 member).1,
    fun e member => kept.2 e (List.mem_filter.1 member).1⟩

end Edit

namespace Arithmetic

variable (a : Arithmetic)

theorem shift_eq (pos length : Nat) : a.shift pos length = Text.shift pos length := by
  simp only [shift, Text.shift]
  split
  · rename_i inRange
    exact a.plus_exact inRange
  · rfl

theorem crossInsertDelete_eq (hp : p < positionLimit) :
    a.crossInsertDelete p t q d = Edit.crossInsertDelete p t q d := by
  simp only [crossInsertDelete, Edit.crossInsertDelete, shift_eq]
  refine bind_congr fun shifted => ?_
  split
  · rfl
  · rename_i after
    cases hstop : Text.shift q d.length with
    | error fault => rfl
    | ok stop =>
      obtain ⟨-, rfl⟩ := shift_eq_ok.1 hstop
      rw [ok_bind, ok_bind]
      split
      · rename_i behind
        -- The whole deletion lies before the insertion, and so does its length.
        rw [a.minus_exact hp (by omega), ok_bind]
      · rw [a.minus_exact hp (by omega), ok_bind, slice_drop]
        rfl

theorem deleteAfter_eq (hp : p < positionLimit) :
    a.deleteAfter p d q e = Edit.deleteAfter p d q e := by
  simp only [deleteAfter, Edit.deleteAfter, shift_eq]
  refine bind_congr fun stop => ?_
  cases hstop : Text.shift q e.length with
  | error fault => rfl
  | ok otherStop =>
    obtain ⟨inRange, rfl⟩ := shift_eq_ok.1 hstop
    rw [ok_bind, ok_bind]
    split
    · rfl
    · split
      · rename_i behind
        rw [a.minus_exact hp (by omega), ok_bind]
      · rw [a.minus_exact inRange (by omega), ok_bind, slice_take, slice_drop_min]

theorem crossSimple_eq (hl : l.InRange) (hr : r.InRange) :
    a.crossSimple l r = Edit.crossSimple l r := by
  match l, r with
  | .insert p t, .insert q u => simp only [crossSimple, Edit.crossSimple, shift_eq]
  | .insert p t, .delete q d => exact a.crossInsertDelete_eq hl
  | .delete p d, .insert q t =>
    have hq : q < positionLimit := hr
    simp only [crossSimple, Edit.crossSimple]
    rw [a.crossInsertDelete_eq hq]
  | .delete p d, .delete q e =>
    have hp : p < positionLimit := hl
    have hq : q < positionLimit := hr
    simp only [crossSimple, Edit.crossSimple]
    rw [a.deleteAfter_eq hp, a.deleteAfter_eq hq]
  | .replace .., .insert .. | .replace .., .delete .. | .replace .., .replace .. |
    .insert .., .replace .. | .delete .., .replace .. => rfl

theorem crosses_iff_of_plain (hl : l.Plain) (hr : r.Plain) :
    a.Crosses l r result ↔ Edit.simpleAlgebra.cross l r = result := by
  have plain : (l.isReplace || r.isReplace) = false := by rw [hl.simple, hr.simple]; rfl
  have same := a.crossSimple_eq hl.inRange hr.inRange
  constructor
  · intro crossed
    cases crossed with
    | simple _ => rw [same]; rfl
    | expanded compound ended => exact absurd compound (by simp [plain])
  · intro crossed
    subst crossed
    have simple := Crosses.simple (a := a) plain
    rwa [same] at simple

theorem crosses_iff (hl : l.InRange) (hr : r.InRange) :
    a.Crosses l r result ↔ l.cross r = result := by
  cases compound : l.isReplace || r.isReplace with
  | false =>
    rw [Bool.or_eq_false_iff] at compound
    rw [a.crosses_iff_of_plain ⟨compound.1, hl⟩ ⟨compound.2, hr⟩, Edit.cross, compound.1,
      compound.2]
    rfl
  | true =>
    have expanded : a.Crosses l r result ↔ a.Ends l.expand r.expand result := by
      constructor
      · intro crossed
        cases crossed with
        | simple plain => exact absurd compound (by simp [plain])
        | expanded _ ended => exact ended
      · exact .expanded compound
    -- The lists that the two expand to hold insertions and deletions only, and so does what
    -- becomes of them; the rules for those are the same already.
    have keeps : Diamond.Keeping Edit.isEmpty a.Crosses Edit.Plain Edit.Plain :=
      fun l r d crossed onLeft onRight =>
        Edit.keeping_plain ((a.crosses_iff_of_plain onLeft onRight).1 crossed) onLeft onRight
    have machine : a.Ends l.expand r.expand result ↔
        Edit.simpleAlgebra.Ends l.expand r.expand result :=
      Diamond.computes_congr (fun _ _ _ => a.crosses_iff_of_plain) keeps
        (Edit.plain_expand_of_inRange hl) (Edit.plain_expand_of_inRange hr)
    rw [expanded, machine, Algebra.ends_iff (Edit.simple_transform_ne_unfinished _ _), Edit.cross,
      compound, if_pos rfl, eq_comm]

theorem ends_iff (hl : ∀ e ∈ left, e.InRange) (hr : ∀ e ∈ right, e.InRange) :
    a.Ends left right result ↔ result = algebra.transform left right := by
  have keeps : Diamond.Keeping Edit.isEmpty a.Crosses Edit.InRange Edit.InRange :=
    fun l r d crossed onLeft onRight =>
      Edit.keeping_inRange ((a.crosses_iff onLeft onRight).1 crossed) onLeft onRight
  have machine : a.Ends left right result ↔ algebra.Ends left right result :=
    Diamond.computes_congr (fun _ _ _ => a.crosses_iff) keeps
      (fun e member => hl e (List.mem_filter.1 member).1)
      (fun e member => hr e (List.mem_filter.1 member).1)
  rw [machine, Algebra.ends_iff (transform_ne_unfinished left right)]

end Arithmetic

end Reconcile.Text
