import Mathlib.Data.List.Induction
import Mathlib.Data.List.Nodup
import Reconcile.Proofs.Text.Cross

/-! What two edits made at one document merge to, told from the document and the two edits alone.
The characters that neither of them takes out stay, and each inserted text stands where its position
is among the characters that stay; the committed one comes first where both stand in one place. -/

namespace Reconcile.Text

namespace Edit

def covers (e : Edit) (i : Nat) : Bool := decide (e.pos ≤ i) && decide (i < e.pos + e.removed.length)

def collapse (e : Edit) (pos : Nat) : Nat := pos - min e.removed.length (pos - e.pos)

theorem collapse_eq_self {e : Edit} (nothing : e.removed = []) (pos : Nat) :
    e.collapse pos = pos := by
  simp [collapse, nothing]

end Edit

/-- The characters that neither edit takes out, of a text that begins at index `n`. -/
def survivors (l r : Edit) (n : Nat) (text : List Char) : List Char :=
  ((text.zipIdx n).filter fun x => !l.covers x.2 && !r.covers x.2).map Prod.fst

def place (l r : Edit) (doc : Document) (pos : Nat) : Nat :=
  (survivors l r 0 (doc.take pos)).length

def weave (kept : List Char) (i : Nat) (new : List Char) (j : Nat) (new₂ : List Char) : List Char :=
  if i < j then kept.take i ++ new ++ (kept.drop i).take (j - i) ++ new₂ ++ kept.drop j
  else kept.take j ++ new₂ ++ (kept.drop j).take (i - j) ++ new ++ kept.drop i

/-- What the local edit `l` and the committed edit `r` make of the document together. -/
def merge (l r : Edit) (doc : Document) : Document :=
  weave (survivors l r 0 doc) (place l r doc l.pos) l.inserted (place l r doc r.pos) r.inserted

variable {l r : Edit} {doc docL docR mid merged kept : Document} {p i j : Nat}
  {old t u : List Char} {d : Diamond Edit}

theorem survivors_comm (l r : Edit) (n : Nat) (text : List Char) :
    survivors l r n text = survivors r l n text := by
  simp only [survivors, Bool.and_comm]

theorem survivors_append (l r : Edit) (n : Nat) (text more : List Char) :
    survivors l r n (text ++ more) =
      survivors l r n text ++ survivors l r (n + text.length) more := by
  simp only [survivors, List.zipIdx_append, List.filter_append, List.map_append]

theorem length_survivors {text : List Char} (before : text.length ≤ l.pos) :
    (survivors l r 0 text).length = r.collapse text.length := by
  induction text using List.reverseRecOn with
  | nil => simp [survivors, Edit.collapse]
  | append_singleton text c ih =>
    rw [List.length_append, List.length_singleton] at before
    have last : (survivors l r text.length [c]).length =
        if r.covers text.length then 0 else 1 := by
      have free : l.covers text.length = false := by
        simp only [Edit.covers, Bool.and_eq_false_imp, decide_eq_true_eq]
        omega
      cases taken : r.covers text.length <;> simp [survivors, free, taken]
    rw [survivors_append, List.length_append, ih (by omega), Nat.zero_add, last,
      List.length_append, List.length_singleton]
    simp only [Edit.collapse, Edit.covers, Bool.and_eq_true, decide_eq_true_eq]
    split <;> omega

theorem place_left (within : l.pos ≤ doc.length) : place l r doc l.pos = r.collapse l.pos := by
  have length : (doc.take l.pos).length = l.pos := List.length_take_of_le within
  have counted := length_survivors (l := l) (r := r) (Nat.le_of_eq length)
  rwa [length] at counted

theorem place_right (within : r.pos ≤ doc.length) : place l r doc r.pos = l.collapse r.pos := by
  rw [place, survivors_comm]
  exact place_left within

theorem take_between (h : i ≤ j) (kept : List Char) :
    kept.take i ++ (kept.drop i).take (j - i) = kept.take j := by
  rw [← List.take_add, Nat.add_sub_cancel' h]

theorem drop_between (h : i ≤ j) (kept : List Char) :
    (kept.drop i).take (j - i) ++ kept.drop j = kept.drop i := by
  nth_rewrite 2 [← Nat.add_sub_cancel' h]
  rw [← List.drop_drop, List.take_append_drop]

theorem weave_nil_left (kept : List Char) (i j : Nat) (u : List Char) :
    weave kept i [] j u = kept.take j ++ u ++ kept.drop j := by
  simp only [weave, List.append_nil]
  split
  · rename_i before
    rw [take_between (Nat.le_of_lt before)]
  · rename_i after
    rw [List.append_assoc, drop_between (Nat.le_of_not_lt after)]

theorem weave_nil_right (kept : List Char) (i j : Nat) (t : List Char) :
    weave kept i t j [] = kept.take i ++ t ++ kept.drop i := by
  simp only [weave, List.append_nil]
  split
  · rename_i before
    rw [List.append_assoc, drop_between (Nat.le_of_lt before)]
  · rename_i after
    rw [take_between (Nat.le_of_not_lt after)]

theorem weave_of_lt (second : Splices kept j [] u mid) (first : Splices mid i [] t merged)
    (before : i < j) : merged = weave kept i t j u := by
  obtain ⟨a, b, rfl, rfl, rfl⟩ := second
  obtain ⟨a', b', rfl, eq, rfl⟩ := first
  rw [List.nil_append] at eq
  obtain ⟨m, rfl, rfl⟩ := exists_between eq.symm (Nat.le_of_lt before)
  rw [List.length_append] at before ⊢
  simp only [weave, if_pos before, List.nil_append, Nat.add_sub_cancel_left]
  rw [← List.length_append, List.drop_left' rfl, List.append_assoc a' m b, List.take_left' rfl,
    List.drop_left' rfl, List.take_left' rfl]
  simp only [List.append_assoc]

theorem weave_of_ge (second : Splices kept j [] u mid)
    (first : Splices mid (i + u.length) [] t merged) (after : ¬i < j) :
    merged = weave kept i t j u := by
  obtain ⟨a, b, rfl, rfl, rfl⟩ := second
  obtain ⟨a', b', length, eq, rfl⟩ := first
  rw [List.nil_append, ← List.append_assoc] at eq
  obtain ⟨m, rfl, rfl⟩ := exists_between eq (by rw [List.length_append]; omega)
  obtain rfl : i = a.length + m.length := by
    simp only [List.length_append] at length
    omega
  simp only [weave, if_neg after, List.nil_append, Nat.add_sub_cancel_left]
  rw [List.take_left' rfl, List.drop_left' rfl, List.take_left' rfl, ← List.append_assoc a m b',
    List.drop_left' List.length_append]
  simp only [List.append_assoc]

theorem Splices.unique (h : Splices doc p old t docL) (h' : Splices doc p old t docR) :
    docL = docR :=
  h.eq_take_drop.trans h'.eq_take_drop.symm

theorem Splices.zipIdx {e : Edit} (h : Splices doc e.pos e.removed [] docL) :
    Splices doc.zipIdx e.pos (e.removed.zipIdx e.pos) []
      (doc.zipIdx.filter fun x => !e.covers x.2) := by
  obtain ⟨a, b, length, rfl, rfl⟩ := h
  have whole : (a ++ (e.removed ++ b)).zipIdx = a.zipIdx ++
      (e.removed.zipIdx e.pos ++ b.zipIdx (e.pos + e.removed.length)) := by
    rw [List.zipIdx_append, List.zipIdx_append, Nat.zero_add, length]
  refine ⟨a.zipIdx, b.zipIdx (e.pos + e.removed.length), ?_, whole, ?_⟩
  · rw [List.length_zipIdx, length]
  · rw [whole, List.nil_append]
    refine filter_ends ?_ ?_ ?_ <;> intro x hx <;>
      have lower := List.le_snd_of_mem_zipIdx hx <;>
      have upper := List.snd_lt_of_mem_zipIdx hx <;>
      simp [Edit.covers] <;> omega

theorem survivors_eq_right (nothing : l.removed = [])
    (removed : Splices doc r.pos r.removed [] docR) : survivors l r 0 doc = docR := by
  have free (i : Nat) : l.covers i = false := by
    simp only [Edit.covers, nothing, List.length_nil, Bool.and_eq_false_imp, decide_eq_true_eq,
      decide_eq_false_iff_not]
    omega
  have marked := removed.zipIdx.map Prod.fst
  rw [List.zipIdx_map_fst, List.zipIdx_map_fst] at marked
  simp only [survivors, free, Bool.not_false, Bool.true_and]
  exact marked.unique removed

theorem survivors_eq_left (nothing : r.removed = [])
    (removed : Splices doc l.pos l.removed [] docL) : survivors l r 0 doc = docL := by
  rw [survivors_comm]
  exact survivors_eq_right nothing removed

theorem Trace.eq_filter {α : Type} [DecidableEq α] {read : α → Char} {doc doc' gone : List α}
    {edits : List Edit} (h : Trace read doc edits [] gone doc') (distinct : doc.Nodup)
    {keep : α → Bool} (members : ∀ x ∈ doc, (x ∈ doc' ↔ keep x = true)) :
    doc' = doc.filter keep := by
  have fresh : (doc ++ []).Nodup := by rwa [List.append_nil]
  have within : doc'.filter (· ∈ doc) = doc' := by
    refine List.filter_eq_self.2 fun x hx => ?_
    have present := ((h.mem_iff fresh).1 hx).1
    rw [List.append_nil] at present
    exact decide_eq_true present
  calc doc' = doc'.filter (· ∈ doc) := within.symm
    _ = doc.filter (· ∈ doc') := (h.sameOrder fresh).symm
    _ = doc.filter keep := by
      refine List.filter_congr fun x hx => ?_
      rw [Bool.eq_iff_iff, decide_eq_true_iff]
      exact members x hx

theorem nodup_zipIdx (text : List Char) : text.zipIdx.Nodup := by
  have numbered : (text.zipIdx.map Prod.snd).Nodup := by
    rw [List.zipIdx_map_snd]
    exact List.nodup_range'
  exact numbered.of_map Prod.snd

theorem survivors_eq_of_cross
    (crossed : Edit.crossSimple (.delete l.pos l.removed) (.delete r.pos r.removed) = .ok d)
    (onL : Splices doc l.pos l.removed [] docL) (onR : Splices doc r.pos r.removed [] docR)
    (reached : Edit.simpleAlgebra.Applies docR d.left kept) : survivors l r 0 doc = kept := by
  -- Equal characters are told apart by their indices, so the deletions are run on numbered ones.
  have markedL := onL.zipIdx
  have markedR := onR.zipIdx
  have traceL : Trace Prod.fst doc.zipIdx [.delete l.pos l.removed] [] _ _ :=
    .single markedL rfl (List.zipIdx_map_fst _ _)
  have traceR : Trace Prod.fst doc.zipIdx [.delete r.pos r.removed] [] _ _ :=
    .single markedR rfl (List.zipIdx_map_fst _ _)
  obtain ⟨merged, goneL, goneR, viaLeft, viaRight, subL, -⟩ :=
    Edit.carries_crossSimple rfl rfl crossed traceL traceR
  have distinct := nodup_zipIdx doc
  have members (x : Char × Nat) (hx : x ∈ doc.zipIdx) :
      x ∈ merged ↔ (!l.covers x.2 && !r.covers x.2) = true := by
    have keptL := traceL.mem_iff (by rwa [List.append_nil]) (x := x)
    have onLeft := viaLeft.mem_iff (by rw [List.append_nil]; exact distinct.filter _) (x := x)
    have onRight := viaRight.mem_iff (by rw [List.append_nil]; exact distinct.filter _) (x := x)
    have taken : x ∈ goneL → x ∈ l.removed.zipIdx l.pos := fun h => subL h
    simp only [List.append_nil, List.mem_filter, hx, true_and] at keptL onLeft onRight
    grind
  have marked := (traceR.append viaRight).eq_filter distinct members
  have chars : merged.map Prod.fst = kept := by
    have start := markedR.map Prod.fst
    rw [List.zipIdx_map_fst, List.zipIdx_map_fst] at start
    have again := Edit.applies_of_trace viaRight
    rw [start.unique onR] at again
    exact again.eq_of_applyAll reached.applyAll
  rw [survivors, ← marked, chars]

end Reconcile.Text
