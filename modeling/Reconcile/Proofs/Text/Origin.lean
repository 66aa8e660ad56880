import Mathlib.Data.List.Nodup
import Reconcile.Proofs.Text.Cross

/-! Where each character of a document comes from. Characters that a document begins with are named
by their place, and those that a side inserts by their number among all that it inserts. Every
character has a name of its own, so that it can be told whether edits have kept it. -/

namespace Reconcile.Text

inductive Origin
  | base (index : Nat)
  | left (number : Nat)
  | right (number : Nat)
  deriving DecidableEq, Repr

structure Tagged where
  char : Char
  origin : Origin
  deriving DecidableEq, Repr

def tag (origin : Nat → Origin) : Nat → List Char → List Tagged
  | _, [] => []
  | n, c :: text => ⟨c, origin n⟩ :: tag origin (n + 1) text

/-- What a side that has inserted `n` characters makes of a document. An empty edit does nothing. -/
def track (origin : Nat → Origin) : Nat → List Tagged → List Edit → List Tagged
  | _, doc, [] => doc
  | n, doc, e :: edits =>
    if e.isEmpty then track origin n doc edits
    else track origin (n + e.inserted.length)
      (doc.take e.pos ++ tag origin n e.inserted ++ doc.drop (e.pos + e.removed.length)) edits

variable {origin : Nat → Origin} {doc doc' ins gone xs ys : List Tagged} {edits : List Edit}

theorem tag_append (n : Nat) (text more : List Char) :
    tag origin n (text ++ more) = tag origin n text ++ tag origin (n + text.length) more := by
  induction text generalizing n with
  | nil => rfl
  | cons c text ih =>
    rw [List.cons_append, tag, tag, ih, List.cons_append, List.length_cons, Nat.add_assoc n 1,
      Nat.add_comm 1]

@[simp] theorem map_char_tag (n : Nat) (text : List Char) :
    (tag origin n text).map Tagged.char = text := by
  induction text generalizing n with
  | nil => rfl
  | cons c text ih => rw [tag, List.map_cons, ih]

theorem map_origin_tag (n : Nat) (text : List Char) :
    (tag origin n text).map Tagged.origin = (List.range' n text.length).map origin := by
  induction text generalizing n with
  | nil => rfl
  | cons c text ih => rw [tag, List.map_cons, ih, List.length_cons, List.range'_succ, List.map_cons]

@[simp] theorem length_tag (n : Nat) (text : List Char) :
    (tag origin n text).length = text.length := by
  rw [← List.length_map Tagged.char, map_char_tag]

theorem distinct_origins (doc textL textR : List Char) :
    ((tag .base 0 doc ++ tag .left 0 textL ++ tag .right 0 textR).map Tagged.origin).Nodup := by
  have numbered (origin : Nat → Origin) (distinct : ∀ i j, origin i = origin j → i = j)
      (text : List Char) : ((List.range' 0 text.length).map origin).Nodup :=
    List.Nodup.map distinct List.nodup_range'
  have base := numbered .base (fun _ _ => Origin.base.inj) doc
  have left := numbered .left (fun _ _ => Origin.left.inj) textL
  have right := numbered .right (fun _ _ => Origin.right.inj) textR
  simp only [List.map_append, map_origin_tag, List.nodup_append, List.mem_append, List.mem_map]
  refine ⟨⟨base, left, ?_⟩, right, ?_⟩
  · rintro - ⟨i, -, rfl⟩ - ⟨j, -, rfl⟩
    exact Origin.noConfusion
  · rintro - (⟨i, -, rfl⟩ | ⟨i, -, rfl⟩) - ⟨j, -, rfl⟩ <;> exact Origin.noConfusion

theorem not_mem_tag {n : Nat} {text : List Char} {x : Tagged}
    (other : ∀ i, origin i ≠ x.origin) : x ∉ tag origin n text := by
  intro member
  have named : x.origin ∈ (tag origin n text).map Tagged.origin := List.mem_map_of_mem member
  rw [map_origin_tag] at named
  obtain ⟨i, -, origin⟩ := List.mem_map.1 named
  exact other i origin

theorem tag_eq_append {n : Nat} {text : List Char} (h : tag origin n text = xs ++ ys) :
    xs = tag origin n (xs.map Tagged.char) ∧
      ys = tag origin (n + xs.length) (ys.map Tagged.char) := by
  have whole : text = xs.map Tagged.char ++ ys.map Tagged.char := by
    rw [← List.map_append, ← h, map_char_tag]
  rw [whole, tag_append, List.length_map] at h
  obtain ⟨hxs, hys⟩ := List.append_inj h (by rw [length_tag, List.length_map])
  exact ⟨hxs.symm, hys.symm⟩

theorem exists_splices {mid : Document} {p : Nat} {removed inserted : List Char}
    (spliced : Splices (doc.map Tagged.char) p removed inserted mid) :
    ∃ old, old.map Tagged.char = removed ∧ ∀ new, new.map Tagged.char = inserted →
      Splices doc p old new (doc.take p ++ new ++ doc.drop (p + removed.length)) ∧
        (doc.take p ++ new ++ doc.drop (p + removed.length)).map Tagged.char = mid := by
  obtain ⟨a, b, length, before, rfl⟩ := spliced
  obtain ⟨a, rest, rfl, rfl, hrest⟩ := List.map_eq_append_iff.1 before
  obtain ⟨old, b, rfl, rfl, rfl⟩ := List.map_eq_append_iff.1 hrest
  rw [List.length_map] at length
  subst length
  refine ⟨old, rfl, fun new hnew => ?_⟩
  have spliced : Splices (a ++ (old ++ b)) a.length old new (a ++ (new ++ b)) :=
    ⟨a, b, rfl, rfl, rfl⟩
  rw [List.length_map, ← spliced.eq_take_drop]
  exact ⟨spliced, by rw [List.map_append, List.map_append, hnew]⟩

theorem trace_track (origin : Nat → Origin) (n : Nat) {reached : Document}
    (applied : algebra.applyAll (doc.map Tagged.char) edits = .ok reached) :
    ∃ text gone, (track origin n doc edits).map Tagged.char = reached ∧
      Trace Tagged.char doc (edits.filter (!Edit.isEmpty ·)) (tag origin n text) gone
        (track origin n doc edits) := by
  induction edits generalizing n doc with
  | nil =>
    obtain rfl := Except.ok.inj applied
    exact ⟨[], [], rfl, .nil doc⟩
  | cons e edits ih =>
    obtain ⟨mid, first, rest⟩ := bind_eq_ok.1 applied
    cases empty : e.isEmpty with
    | true =>
      obtain rfl := idle empty first
      rw [track, if_pos empty, List.filter_cons_of_neg (by simp [empty])]
      exact ih n rest
    | false =>
      obtain ⟨old, removes, splice⟩ := exists_splices (Edit.simple_apply.1 first)
      obtain ⟨spliced, rfl⟩ := splice (tag origin n e.inserted) (map_char_tag n e.inserted)
      obtain ⟨text, gone, reached, traced⟩ := ih (n + e.inserted.length) rest
      rw [track, if_neg (by simp [empty]), List.filter_cons_of_pos (by simp [empty])]
      refine ⟨e.inserted ++ text, old ++ gone, reached, ?_⟩
      rw [tag_append]
      exact .cons spliced (map_char_tag n e.inserted) removes traced

theorem track_eq_of_trace {n : Nat} {text : List Char}
    (traced : Trace Tagged.char doc edits ins gone doc') (numbered : ins = tag origin n text)
    (nonempty : ∀ e ∈ edits, e.isEmpty = false) : track origin n doc edits = doc' := by
  induction traced generalizing n text with
  | nil doc => rfl
  | @cons doc mid doc' new ins old gone e edits spliced inserts removes rest ih =>
    obtain ⟨he, nonempty⟩ := List.forall_mem_cons.1 nonempty
    obtain ⟨hnew, hins⟩ := tag_eq_append numbered.symm
    rw [inserts] at hnew
    have step : doc.take e.pos ++ tag origin n e.inserted ++ doc.drop (e.pos + e.removed.length) =
        mid := by
      rw [← hnew, ← removes, List.length_map]
      exact spliced.eq_take_drop.symm
    have count : new.length = e.inserted.length := by rw [← inserts, List.length_map]
    rw [track, if_neg (by simp [he]), step, ← count]
    exact ih hins nonempty

end Reconcile.Text
