import Reconcile.Proofs.Path
import Reconcile.Proofs.Text.Trace
import Reconcile.Text.Cross

/-! Crossed edits close their diamond. Insertions and deletions are followed through the document
pair by pair; replacements cross as the lists that they expand to. -/

namespace Reconcile.Text

open Reconcile.Algebra (Path path_cons path_nil path_singleton applies_iff)

variable {doc docL docR : Document} {p q : Nat} {t u d e : List Char}

theorem shift_eq_ok {pos length place : Nat} :
    shift pos length = .ok place ↔ pos + length < positionLimit ∧ pos + length = place := by
  simp only [shift]
  split
  · rename_i fits
    simp [fits]
  · rename_i far
    simp [far]

namespace Edit

theorem simple_apply {edit : Edit} : simpleAlgebra.apply doc edit = .ok docL ↔
    Splices doc edit.pos edit.removed edit.inserted docL :=
  mapError_eq_ok.trans apply_eq_ok

theorem simple_idle : simpleAlgebra.EmptyIdle := by
  intro doc doc' edit empty applied
  have spliced := simple_apply.1 applied
  have same : edit.inserted = edit.removed := by
    cases edit <;> simp_all [simpleAlgebra, isEmpty, inserted, removed]
  rw [same] at spliced
  exact spliced.eq_of_same

def Closes (docL docR : Document) (d : Diamond Edit) : Prop :=
  ∃ merged, simpleAlgebra.Applies docL d.right merged ∧ simpleAlgebra.Applies docR d.left merged

theorem applies_singleton {edit : Edit} : simpleAlgebra.Applies doc [edit] docL ↔
    Splices doc edit.pos edit.removed edit.inserted docL := by
  exact path_singleton.trans ((and_iff_left trivial).trans simple_apply)

theorem deleteAfter_eq_ok {left : Edit} : deleteAfter p d q e = .ok left ↔
    (p + d.length < positionLimit ∧ q + e.length < positionLimit) ∧
      left = if p + d.length ≤ q then .delete p d
        else if q + e.length ≤ p then .delete (p - e.length) d
        else .delete (min p q) (d.take (q - p) ++ d.drop (q + e.length - p)) := by
  simp only [deleteAfter, bind_eq_ok, shift_eq_ok]
  constructor
  · intro given
    obtain ⟨_, ⟨hp, rfl⟩, _, ⟨hq, rfl⟩, h⟩ := given
    refine ⟨⟨hp, hq⟩, ?_⟩
    split at h
    · rw [if_pos (by assumption)]
      exact (Except.ok.inj h).symm
    · rw [if_neg (by assumption)]
      split at h
      · rw [if_pos (by assumption)]
        exact (Except.ok.inj h).symm
      · rw [if_neg (by assumption)]
        exact (Except.ok.inj h).symm
  · intro h
    obtain ⟨⟨hp, hq⟩, rfl⟩ := h
    refine ⟨_, ⟨hp, rfl⟩, _, ⟨hq, rfl⟩, ?_⟩
    split
    · rfl
    · split <;> rfl

section Carries

variable {α : Type} {read : α → Char} {doc docL docR new new₂ old old₂ : List α}

theorem carries_insert_insert (hl : Splices doc p [] new docL) (hr : Splices doc q [] new₂ docR)
    (h : p ≤ q) : Carries read docL docR
      (.unchanged (.insert p (new.map read)) (.insert (q + (new.map read).length) (new₂.map read)))
      new [] new₂ [] := by
  obtain ⟨merged, hright, hleft⟩ := hl.apart hr h
  rw [List.length_map]
  exact .unchanged hright rfl rfl hleft rfl rfl (List.Subset.refl _) (List.Subset.refl _)

theorem carries_insert_delete (hl : Splices doc p [] new docL) (hr : Splices doc q old [] docR)
    {diamond : Diamond Edit}
    (crossed : crossInsertDelete p (new.map read) q (old.map read) = .ok diamond) :
    Carries read docL docR diamond new [] [] old := by
  obtain ⟨shifted, hshifted, crossed⟩ := bind_eq_ok.1 crossed
  obtain ⟨-, rfl⟩ := shift_eq_ok.1 hshifted
  split at crossed
  · rename_i before
    obtain rfl := Except.ok.inj crossed
    obtain ⟨merged, hright, hleft⟩ := hl.apart hr before
    rw [List.length_map]
    exact .unchanged hright rfl rfl hleft rfl rfl (List.Subset.refl _) (List.Subset.refl _)
  · rename_i before
    obtain ⟨stop, hstop, crossed⟩ := bind_eq_ok.1 crossed
    obtain ⟨-, rfl⟩ := shift_eq_ok.1 hstop
    simp only [List.length_map] at crossed
    split at crossed
    · rename_i after
      obtain rfl := Except.ok.inj crossed
      obtain ⟨merged, hleft, hright⟩ := hr.apart hl after
      exact .unchanged hright rfl rfl hleft rfl rfl (List.Subset.refl _) (List.Subset.refl _)
    · -- The insertion stands inside the deletion and splits it.
      obtain rfl := Except.ok.inj crossed
      obtain ⟨mid, merged, hhead, htail, hleft⟩ := hl.inside hr (by omega) (by omega)
      have viaLeft : Trace read docR [.insert q (new.map read)] new [] merged :=
        .single hleft rfl rfl
      have whole : old.take (p - q) ++ old.drop (p - q) = old := List.take_append_drop _ _
      have viaRight := (Trace.single
        (e := .delete q ((old.map read).take (p - q))) hhead rfl List.map_take).append
        (Trace.single (e := .delete (q + new.length) ((old.map read).drop (p - q))) htail rfl
          List.map_drop)
      rw [whole] at viaRight
      exact ⟨merged, [], old, viaRight, viaLeft, List.Subset.refl _, List.Subset.refl _⟩

theorem carries_delete_delete (hl : Splices doc p old [] docL) (hr : Splices doc q old₂ [] docR)
    (h : p ≤ q) {l r : Edit} (left : deleteAfter p (old.map read) q (old₂.map read) = .ok l)
    (right : deleteAfter q (old₂.map read) p (old.map read) = .ok r) :
    Carries read docL docR (.unchanged l r) [] old [] old₂ := by
  obtain ⟨-, left⟩ := deleteAfter_eq_ok.1 left
  obtain ⟨-, right⟩ := deleteAfter_eq_ok.1 right
  simp only [List.length_map] at left right
  by_cases before : p + old.length ≤ q
  · obtain rfl : r = .delete (q - old.length) (old₂.map read) := by
      rw [if_pos before] at right
      split at right
      · rename_i after
        rw [right, show old.length = 0 by omega, Nat.sub_zero]
      · exact right
    rw [if_pos before] at left
    subst left
    obtain ⟨merged, hright, hleft⟩ := hl.apart hr before
    exact .unchanged hright rfl rfl hleft rfl rfl (List.Subset.refl _) (List.Subset.refl _)
  · rw [if_neg before] at left right
    by_cases after : q + old₂.length ≤ p
    · rw [if_pos after] at left right
      subst left right
      obtain ⟨merged, hleft, hright⟩ := hr.apart hl after
      exact .unchanged hright rfl rfl hleft rfl rfl (List.Subset.refl _) (List.Subset.refl _)
    · rw [if_neg after] at left right
      rw [Nat.min_eq_left h] at left
      rw [Nat.min_eq_right h, Nat.sub_eq_zero_of_le h, List.take_zero, List.nil_append] at right
      subst left right
      obtain ⟨merged, hright, hleft⟩ := hl.overlap hr h (by omega)
      refine .unchanged hright rfl List.map_drop hleft rfl ?_ ?_ (List.drop_subset _ _)
      · rw [List.map_append, List.map_take, List.map_drop]
        rfl
      · exact List.append_subset.2 ⟨List.take_subset _ _, List.drop_subset _ _⟩

theorem carries_crossSimple {l r : Edit} (plainL : l.isReplace = false)
    (plainR : r.isReplace = false) {diamond : Diamond Edit}
    (crossed : crossSimple l r = .ok diamond) {insL goneL insR goneR : List α}
    (hl : Trace read doc [l] insL goneL docL) (hr : Trace read doc [r] insR goneR docR) :
    Carries read docL docR diamond insL goneL insR goneR := by
  obtain ⟨hl, insertsL, removesL⟩ := trace_singleton.1 hl
  obtain ⟨hr, insertsR, removesR⟩ := trace_singleton.1 hr
  match l, r with
  | .insert p t, .insert q u =>
    obtain rfl := List.map_eq_nil_iff.1 removesL
    obtain rfl := List.map_eq_nil_iff.1 removesR
    subst insertsL insertsR
    simp only [crossSimple] at crossed
    split at crossed
    · rename_i before
      obtain ⟨shifted, hshifted, crossed⟩ := bind_eq_ok.1 crossed
      obtain ⟨-, rfl⟩ := shift_eq_ok.1 hshifted
      obtain rfl := Except.ok.inj crossed
      exact carries_insert_insert hl hr (Nat.le_of_lt before)
    · rename_i before
      obtain ⟨shifted, hshifted, crossed⟩ := bind_eq_ok.1 crossed
      obtain ⟨-, rfl⟩ := shift_eq_ok.1 hshifted
      obtain rfl := Except.ok.inj crossed
      exact (carries_insert_insert hr hl (Nat.le_of_not_lt before)).swap
  | .insert p t, .delete q d =>
    obtain rfl := List.map_eq_nil_iff.1 removesL
    obtain rfl := List.map_eq_nil_iff.1 insertsR
    subst insertsL removesR
    exact carries_insert_delete hl hr crossed
  | .delete p d, .insert q t =>
    obtain rfl := List.map_eq_nil_iff.1 insertsL
    obtain rfl := List.map_eq_nil_iff.1 removesR
    subst removesL insertsR
    obtain ⟨swapped, hswapped, rfl⟩ := map_eq_ok.1 crossed
    exact (carries_insert_delete hr hl hswapped).swap
  | .delete p d, .delete q e =>
    obtain rfl := List.map_eq_nil_iff.1 insertsL
    obtain rfl := List.map_eq_nil_iff.1 insertsR
    subst removesL removesR
    obtain ⟨left, hleft, crossed⟩ := bind_eq_ok.1 crossed
    obtain ⟨right, hright, crossed⟩ := bind_eq_ok.1 crossed
    obtain rfl := Except.ok.inj crossed
    rcases Nat.le_total p q with h | h
    · exact carries_delete_delete hl hr h hleft hright
    · exact (carries_delete_delete hr hl h hright hleft).swap
  | .replace .., _ => cases plainL
  | _, .replace .. => cases plainR

end Carries

theorem applies_of_trace {α : Type} {read : α → Char} {xs ins gone ys : List α}
    {edits : List Edit} (h : Trace read xs edits ins gone ys) :
    simpleAlgebra.Applies (xs.map read) edits (ys.map read) := by
  induction h with
  | nil doc => exact .nil _
  | cons spliced inserts removes rest ih =>
    have applied := spliced.map read
    rw [inserts, removes] at applied
    exact .cons (simple_apply.2 applied) trivial ih

theorem closes_crossSimple {l r : Edit} (plainL : l.isReplace = false)
    (plainR : r.isReplace = false) {diamond : Diamond Edit}
    (crossed : crossSimple l r = .ok diamond) (hl : Splices doc l.pos l.removed l.inserted docL)
    (hr : Splices doc r.pos r.removed r.inserted docR) : Closes docL docR diamond := by
  have traceL : Trace id doc [l] l.inserted l.removed docL :=
    .single hl (List.map_id _) (List.map_id _)
  have traceR : Trace id doc [r] r.inserted r.removed docR :=
    .single hr (List.map_id _) (List.map_id _)
  obtain ⟨merged, _, _, hright, hleft, -, -⟩ :=
    carries_crossSimple plainL plainR crossed traceL traceR
  have viaRight := applies_of_trace hright
  have viaLeft := applies_of_trace hleft
  rw [List.map_id, List.map_id] at viaRight viaLeft
  exact ⟨merged, viaRight, viaLeft⟩

def Like : Edit → Edit → Prop
  | .insert _ t, .insert _ u => t = u
  | .delete _ _, .delete _ _ => True
  | .replace _ _ t, .replace _ _ u => t = u
  | _, _ => False

theorem Like.rfl {e : Edit} : e.Like e := by
  cases e <;> simp [Like]

theorem like_deleteAfter {l : Edit} (left : deleteAfter p d q e = .ok l) :
    l.Like (.delete p d) := by
  obtain ⟨-, rfl⟩ := deleteAfter_eq_ok.1 left
  split
  · trivial
  · split <;> trivial

/-- A crossing keeps the kinds of the edits and the text that they insert; at most it splits a
deletion around an insertion. -/
inductive Crossed (l r : Edit) : Diamond Edit → Prop
  | apart {l' r' : Edit} (left : l'.Like l) (right : r'.Like r) : Crossed l r (.unchanged l' r')
  | splitRight {p q q₁ q₂ : Nat} {t d d₁ d₂ : List Char} (hl : l = .insert p t)
      (hr : r = .delete q d) : Crossed l r ⟨[.insert q t], [.delete q₁ d₁, .delete q₂ d₂]⟩
  | splitLeft {p p₁ p₂ q : Nat} {t d d₁ d₂ : List Char} (hl : l = .delete p d)
      (hr : r = .insert q t) : Crossed l r ⟨[.delete p₁ d₁, .delete p₂ d₂], [.insert p t]⟩

theorem crossed_insert_delete {diamond : Diamond Edit}
    (crossed : crossInsertDelete p t q d = .ok diamond) :
    Crossed (.insert p t) (.delete q d) diamond := by
  obtain ⟨shifted, -, crossed⟩ := bind_eq_ok.1 crossed
  split at crossed
  · obtain rfl := Except.ok.inj crossed
    exact .apart .rfl trivial
  · obtain ⟨stop, -, crossed⟩ := bind_eq_ok.1 crossed
    split at crossed
    · obtain rfl := Except.ok.inj crossed
      exact .apart (by rfl) trivial
    · obtain rfl := Except.ok.inj crossed
      exact .splitRight rfl rfl

theorem Crossed.swap {l r : Edit} {diamond : Diamond Edit} (h : Crossed l r diamond) :
    Crossed r l diamond.swap := by
  cases h with
  | apart left right => exact .apart right left
  | splitRight hl hr => exact .splitLeft hr hl
  | splitLeft hl hr => exact .splitRight hr hl

theorem crossed_crossSimple {l r : Edit} {diamond : Diamond Edit}
    (crossed : crossSimple l r = .ok diamond) : Crossed l r diamond := by
  match l, r with
  | .insert p t, .insert q u =>
    simp only [crossSimple] at crossed
    split at crossed
    · obtain ⟨shifted, -, crossed⟩ := bind_eq_ok.1 crossed
      obtain rfl := Except.ok.inj crossed
      exact .apart .rfl (by rfl)
    · obtain ⟨shifted, -, crossed⟩ := bind_eq_ok.1 crossed
      obtain rfl := Except.ok.inj crossed
      exact .apart (by rfl) .rfl
  | .insert p t, .delete q d => exact crossed_insert_delete crossed
  | .delete p d, .insert q t =>
    obtain ⟨swapped, hswapped, rfl⟩ := map_eq_ok.1 crossed
    exact (crossed_insert_delete hswapped).swap
  | .delete p d, .delete q e =>
    obtain ⟨left, hleft, crossed⟩ := bind_eq_ok.1 crossed
    obtain ⟨right, hright, crossed⟩ := bind_eq_ok.1 crossed
    obtain rfl := Except.ok.inj crossed
    exact .apart (like_deleteAfter hleft) (like_deleteAfter hright)
  | .replace .., .insert .. | .replace .., .delete .. | .replace .., .replace .. |
    .insert .., .replace .. | .delete .., .replace .. =>
    obtain rfl := Except.ok.inj crossed
    exact .apart .rfl .rfl

theorem Like.isReplace {e f : Edit} (h : e.Like f) : e.isReplace = f.isReplace := by
  cases e <;> cases f <;> simp_all [Like, Edit.isReplace]

theorem Crossed.plain {l r : Edit} {diamond : Diamond Edit} (h : Crossed l r diamond)
    (plainL : l.isReplace = false) (plainR : r.isReplace = false) :
    (∀ e ∈ diamond.left, e.isReplace = false) ∧ ∀ e ∈ diamond.right, e.isReplace = false := by
  cases h with
  | apart left right =>
    simp only [Diamond.unchanged, List.mem_singleton, forall_eq]
    exact ⟨left.isReplace.trans plainL, right.isReplace.trans plainR⟩
  | splitRight hl hr => simp [Edit.isReplace]
  | splitLeft hl hr => simp [Edit.isReplace]

theorem simple_joins : simpleAlgebra.Joins (fun _ e => e.isReplace = false)
    fun _ e => e.isReplace = false := by
  intro doc docL docR l r diamond crossed hl plainL hr plainR
  have crossed := mapError_eq_ok.1 crossed
  obtain ⟨merged, hright, hleft⟩ := closes_crossSimple plainL plainR crossed
    (simple_apply.1 hl) (simple_apply.1 hr)
  obtain ⟨keptL, keptR⟩ := (crossed_crossSimple crossed).plain plainL plainR
  refine ⟨merged, Algebra.Applies.path (hright.filter simple_idle).applies ?_,
    Algebra.Applies.path (hleft.filter simple_idle).applies ?_⟩
  · exact fun e he => keptR e (List.mem_filter.1 he).1
  · exact fun e he => keptL e (List.mem_filter.1 he).1

theorem path_expand {e : Edit} (applied : simpleAlgebra.apply doc e = .ok docL) :
    simpleAlgebra.Path (fun _ e => e.isReplace = false) doc e.expand docL := by
  cases e with
  | insert p t => exact path_singleton.2 ⟨applied, rfl⟩
  | delete p d => exact path_singleton.2 ⟨applied, rfl⟩
  | replace p old new =>
    obtain ⟨mid, removed, inserted⟩ := splices_iff_trans.1 (simple_apply.1 applied)
    refine path_cons.2 ⟨mid, ?_, rfl, path_singleton.2 ⟨?_, rfl⟩⟩
    · exact simple_apply.2 removed
    · exact simple_apply.2 inserted

theorem closes_cross {l r : Edit} {diamond : Diamond Edit} (crossed : l.cross r = .ok diamond)
    (hl : simpleAlgebra.apply doc l = .ok docL) (hr : simpleAlgebra.apply doc r = .ok docR) :
    Closes docL docR diamond := by
  simp only [cross] at crossed
  split at crossed
  · obtain ⟨merged, hright, hleft⟩ :=
      simple_joins.transform simple_idle crossed (path_expand hl) (path_expand hr)
    exact ⟨merged, hright.applies, hleft.applies⟩
  · rename_i plain
    simp only [Bool.or_eq_true, not_or, Bool.not_eq_true] at plain
    obtain ⟨plainL, plainR⟩ := plain
    exact closes_crossSimple plainL plainR (mapError_eq_ok.1 crossed) (simple_apply.1 hl)
      (simple_apply.1 hr)

end Edit

theorem idle : algebra.EmptyIdle := Edit.simple_idle

theorem exists_merged {l r : Edit} {diamond : Diamond Edit} (crossed : l.cross r = .ok diamond)
    (hl : algebra.apply doc l = .ok docL) (hr : algebra.apply doc r = .ok docR) :
    ∃ merged, algebra.Path (fun _ e => e.isEmpty = false) docL (diamond.prune Edit.isEmpty).right
        merged ∧
      algebra.Path (fun _ e => e.isEmpty = false) docR (diamond.prune Edit.isEmpty).left
        merged := by
  obtain ⟨merged, hright, hleft⟩ := Edit.closes_cross crossed hl hr
  have viaRight := (hright.filter Edit.simple_idle).of_apply_eq (b := algebra) rfl
  have viaLeft := (hleft.filter Edit.simple_idle).of_apply_eq (b := algebra) rfl
  exact ⟨merged, viaRight.mono fun _ _ h => h.2, viaLeft.mono fun _ _ h => h.2⟩

theorem joins : algebra.Joins (fun _ _ => True) fun _ _ => True := by
  intro doc docL docR l r diamond crossed hl _ hr _
  obtain ⟨merged, hright, hleft⟩ := exists_merged crossed hl hr
  exact ⟨merged, hright.applies, hleft.applies⟩

end Reconcile.Text
