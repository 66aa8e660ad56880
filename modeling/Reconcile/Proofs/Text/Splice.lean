import Reconcile.Proofs.Grid
import Reconcile.Text.Edit

/-! Every edit puts some text in the place of other text, which stands between the two ends of the
document that it keeps. Where two edits of one document are apart, inside each other or overlap is
read off these ends. -/

namespace Reconcile.Text

variable {α : Type} {doc docL docR : List α} {p q : Nat} {old new old₂ new₂ ins del d e : List α}

/-- The second document is the first one with `new` in place of the `old` that stands at `pos`. -/
def Splices (doc : List α) (pos : Nat) (old new doc' : List α) : Prop :=
  ∃ a b, a.length = pos ∧ doc = a ++ (old ++ b) ∧ doc' = a ++ (new ++ b)

theorem Splices.symm (h : Splices doc p old new docL) : Splices docL p new old doc := by
  obtain ⟨a, b, length, before, after⟩ := h
  exact ⟨a, b, length, after, before⟩

theorem Splices.bound (h : Splices doc p old new docL) : p + old.length ≤ doc.length := by
  obtain ⟨a, b, rfl, rfl, -⟩ := h
  simp only [List.length_append]
  omega

theorem Splices.length (h : Splices doc p old new docL) :
    docL.length + old.length = doc.length + new.length := by
  obtain ⟨a, b, -, rfl, rfl⟩ := h
  simp only [List.length_append]
  omega

theorem Splices.eq_take_drop (h : Splices doc p old new docL) :
    docL = doc.take p ++ new ++ doc.drop (p + old.length) := by
  obtain ⟨a, b, rfl, rfl, rfl⟩ := h
  rw [List.take_left' rfl, ← List.drop_drop, List.drop_left' rfl, List.drop_left' rfl,
    List.append_assoc]

theorem Splices.eq_of_same (h : Splices doc p old old docL) : docL = doc := by
  obtain ⟨a, b, -, rfl, rfl⟩ := h
  rfl

theorem Splices.map {β : Type} (f : α → β) (h : Splices doc p old new docL) :
    Splices (doc.map f) p (old.map f) (new.map f) (docL.map f) := by
  obtain ⟨a, b, rfl, rfl, rfl⟩ := h
  exact ⟨a.map f, b.map f, List.length_map f, by simp only [List.map_append],
    by simp only [List.map_append]⟩

theorem Splices.within {mid x y y' z : List α}
    (first : Splices doc p old (x ++ (y ++ z)) mid)
    (second : Splices mid (p + x.length) y y' docR) :
    Splices doc p old (x ++ (y' ++ z)) docR := by
  obtain ⟨a, b, rfl, rfl, rfl⟩ := first
  obtain ⟨a', b', length, eq, rfl⟩ := second
  have regrouped : (a ++ x) ++ (y ++ (z ++ b)) = a' ++ (y ++ b') := by
    simpa only [List.append_assoc] using eq
  obtain ⟨rfl, rest⟩ := List.append_inj regrouped (by rw [List.length_append]; exact length.symm)
  obtain rfl := List.append_cancel_left rest
  exact ⟨a, b, rfl, rfl, by simp only [List.append_assoc]⟩

theorem Splices.trans (first : Splices doc p old new docL) (second : Splices docL p new new₂ docR) :
    Splices doc p old new₂ docR := by
  have within := Splices.within (x := []) (z := []) (y := new) (by simpa using first) second
  simpa using within

theorem splices_iff_trans : Splices doc p old new docR ↔
    ∃ mid, Splices doc p old [] mid ∧ Splices mid p [] new docR := by
  constructor
  · intro h
    obtain ⟨a, b, length, rfl, rfl⟩ := h
    exact ⟨a ++ b, ⟨a, b, length, rfl, rfl⟩, a, b, length, rfl, rfl⟩
  · intro h
    obtain ⟨mid, removed, inserted⟩ := h
    exact removed.trans inserted

theorem exists_between {xs ys us vs : List α} (h : xs ++ ys = us ++ vs)
    (le : xs.length ≤ us.length) : ∃ ws, us = xs ++ ws ∧ ys = ws ++ vs := by
  rcases List.append_eq_append_iff.1 h with ⟨ws, hus, hys⟩ | ⟨ws, hxs, hvs⟩
  · exact ⟨ws, hus, hys⟩
  · obtain rfl : ws = [] := by
      have := congrArg List.length hxs
      rw [List.length_append] at this
      exact List.length_eq_zero_iff.1 (by omega)
    exact ⟨[], by rw [hxs, List.append_nil, List.append_nil], hvs.symm⟩

theorem Splices.apart (hl : Splices doc p old new docL) (hr : Splices doc q old₂ new₂ docR)
    (h : p + old.length ≤ q) :
    ∃ t, Splices docL (q - old.length + new.length) old₂ new₂ t ∧ Splices docR p old new t := by
  obtain ⟨a, b, rfl, rfl, rfl⟩ := hl
  obtain ⟨a', b', rfl, eq, rfl⟩ := hr
  rw [← List.append_assoc] at eq
  obtain ⟨m, rfl, rfl⟩ := exists_between eq (by rw [List.length_append]; exact h)
  refine ⟨a ++ (new ++ (m ++ (new₂ ++ b'))), ⟨a ++ (new ++ m), b', ?_, ?_, ?_⟩,
    ⟨a, m ++ (new₂ ++ b'), rfl, ?_, rfl⟩⟩
  · simp only [List.length_append]
    omega
  · simp only [List.append_assoc]
  · simp only [List.append_assoc]
  · simp only [List.append_assoc]

theorem Splices.inside (hl : Splices doc p [] ins docL) (hr : Splices doc q del [] docR)
    (after : q ≤ p) (before : p ≤ q + del.length) :
    ∃ u t, Splices docL q (del.take (p - q)) [] u ∧
      Splices u (q + ins.length) (del.drop (p - q)) [] t ∧ Splices docR q [] ins t := by
  obtain ⟨a, b, rfl, eq, rfl⟩ := hl
  obtain ⟨a', b', rfl, rfl, rfl⟩ := hr
  obtain ⟨x, rfl, rest⟩ := exists_between eq after
  rw [List.nil_append] at rest
  rw [List.length_append] at before ⊢
  obtain ⟨y, rfl, rfl⟩ := exists_between rest.symm (by omega)
  rw [Nat.add_sub_cancel_left, List.take_left' rfl, List.drop_left' rfl]
  refine ⟨a' ++ (ins ++ (y ++ b')), a' ++ (ins ++ b'), ⟨a', ins ++ (y ++ b'), rfl, ?_, rfl⟩,
    ⟨a' ++ ins, b', List.length_append, ?_, ?_⟩, ⟨a', b', rfl, rfl, rfl⟩⟩
  · simp only [List.append_assoc]
  · simp only [List.append_assoc]
  · simp only [List.append_assoc, List.nil_append]

theorem Splices.overlap (hl : Splices doc p d [] docL) (hr : Splices doc q e [] docR)
    (after : p ≤ q) (before : q ≤ p + d.length) :
    ∃ t, Splices docL p (e.drop (p + d.length - q)) [] t ∧
      Splices docR p (d.take (q - p) ++ d.drop (q + e.length - p)) [] t := by
  obtain ⟨a, b, rfl, rfl, rfl⟩ := hl
  obtain ⟨a', b', rfl, eq, rfl⟩ := hr
  obtain ⟨x, rfl, rest⟩ := exists_between eq after
  rw [List.length_append] at before ⊢
  obtain ⟨y, rfl, common⟩ := exists_between rest.symm (by omega)
  rw [Nat.add_sub_cancel_left, List.take_left' rfl]
  rcases List.append_eq_append_iff.1 common with ⟨z, rfl, rfl⟩ | ⟨z, rfl, rfl⟩
  · have hdropE : e.drop (a.length + (x ++ (e ++ z)).length - (a.length + x.length)) = [] := by
      rw [List.drop_eq_nil_iff]
      simp only [List.length_append]
      omega
    have hdropD : (x ++ (e ++ z)).drop (a.length + x.length + e.length - a.length) = z := by
      rw [← List.append_assoc]
      refine List.drop_left' ?_
      rw [List.length_append]
      omega
    rw [hdropE, hdropD]
    exact ⟨a ++ b, ⟨a, b, rfl, rfl, rfl⟩, ⟨a, b, rfl, by simp, rfl⟩⟩
  · have hdropE : a.length + (x ++ y).length - (a.length + x.length) = y.length := by
      rw [List.length_append]
      omega
    have hdropD : (x ++ y).drop (a.length + x.length + (y ++ z).length - a.length) = [] := by
      rw [List.drop_eq_nil_iff]
      simp only [List.length_append]
      omega
    rw [hdropE, List.drop_left' rfl, hdropD, List.append_nil]
    exact ⟨a ++ b', ⟨a, b', rfl, rfl, rfl⟩, ⟨a, b', rfl, by simp, rfl⟩⟩

namespace Edit

def pos : Edit → Nat
  | .insert pos _ | .delete pos _ | .replace pos _ _ => pos

def removed : Edit → List Char
  | .insert _ _ => []
  | .delete _ text => text
  | .replace _ old _ => old

def inserted : Edit → List Char
  | .insert _ text => text
  | .delete _ _ => []
  | .replace _ _ new => new

variable {doc doc' : Document} {old new : List Char}

theorem splice_eq_ok : splice doc p old new = .ok doc' ↔ Splices doc p old new doc' := by
  simp only [splice]
  constructor
  · intro h
    split at h
    · cases h
    · split at h
      · rename_i short prefixed
        obtain ⟨b, hb⟩ := List.isPrefixOf_iff_prefix.1 prefixed
        obtain rfl := Except.ok.inj h
        refine ⟨doc.take p, b, List.length_take_of_le (by omega), ?_, ?_⟩
        · rw [hb, List.take_append_drop]
        · rw [← List.drop_drop, ← hb, List.drop_left' rfl, List.append_assoc]
      · cases h
  · intro h
    obtain ⟨a, b, rfl, rfl, rfl⟩ := h
    rw [if_neg (by rw [List.length_append]; omega), List.drop_left' rfl, List.take_left' rfl,
      if_pos (List.isPrefixOf_iff_prefix.2 (List.prefix_append old b)), ← List.drop_drop,
      List.drop_left' rfl, List.drop_left' rfl, List.append_assoc]

theorem apply_eq_ok {edit : Edit} :
    edit.apply doc = .ok doc' ↔ Splices doc edit.pos edit.removed edit.inserted doc' := by
  cases edit with
  | insert place text =>
    simp only [apply, pos, removed, inserted]
    constructor
    · intro h
      split at h
      · cases h
      · obtain rfl := Except.ok.inj h
        refine ⟨doc.take place, doc.drop place, List.length_take_of_le (by omega), ?_, ?_⟩
        · exact (List.take_append_drop place doc).symm
        · rw [List.append_assoc]
    · intro h
      obtain ⟨a, b, rfl, rfl, rfl⟩ := h
      rw [List.nil_append, if_neg (by rw [List.length_append]; omega), List.take_left' rfl,
        List.drop_left' rfl, List.append_assoc]
  | delete pos text => exact splice_eq_ok
  | replace pos old new => exact splice_eq_ok

end Edit

end Reconcile.Text
