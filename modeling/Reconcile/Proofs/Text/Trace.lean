import Reconcile.Proofs.Grid
import Reconcile.Proofs.Text.Splice

/-! Edits followed element by element. A document may hold more than its characters, such as where
each of them comes from; `read` is the character that an element stands for. A trace says which
elements the edits put in and which ones they take out, and a crossing of edits keeps the former and
adds nothing to the latter. -/

namespace Reconcile.Text

variable {α : Type} {read : α → Char} {doc mid merged doc' docL docR : List α}
  {new old ins insL insR gone goneL goneR : List α} {e : Edit}
  {edits left right first second : List Edit}

/-- The edits lead from one document to another; they put `ins` in and take `gone` out. -/
inductive Trace (read : α → Char) :
    List α → List Edit → (ins gone : List α) → List α → Prop
  | nil (doc : List α) : Trace read doc [] [] [] doc
  | cons {doc mid doc' new ins old gone : List α} {e : Edit} {edits : List Edit}
      (spliced : Splices doc e.pos old new mid) (inserts : new.map read = e.inserted)
      (removes : old.map read = e.removed) (rest : Trace read mid edits ins gone doc') :
      Trace read doc (e :: edits) (new ++ ins) (old ++ gone) doc'

theorem Trace.single (spliced : Splices doc e.pos gone ins doc') (inserts : ins.map read = e.inserted)
    (removes : gone.map read = e.removed) : Trace read doc [e] ins gone doc' := by
  have traced := Trace.cons spliced inserts removes (.nil doc')
  rwa [List.append_nil, List.append_nil] at traced

theorem trace_singleton : Trace read doc [e] ins gone doc' ↔
    Splices doc e.pos gone ins doc' ∧ ins.map read = e.inserted ∧ gone.map read = e.removed := by
  constructor
  · intro h
    cases h with
    | cons spliced inserts removes rest =>
      cases rest
      rw [List.append_nil, List.append_nil]
      exact ⟨spliced, inserts, removes⟩
  · intro h
    obtain ⟨spliced, inserts, removes⟩ := h
    exact .single spliced inserts removes

theorem Trace.append (before : Trace read doc first insL goneL mid)
    (after : Trace read mid second insR goneR doc') :
    Trace read doc (first ++ second) (insL ++ insR) (goneL ++ goneR) doc' := by
  induction before with
  | nil doc => exact after
  | cons spliced inserts removes rest ih =>
    rw [List.append_assoc, List.append_assoc]
    exact .cons spliced inserts removes (ih after)

theorem Trace.split (h : Trace read doc (first ++ second) ins gone doc') :
    ∃ mid insL insR goneL goneR, ins = insL ++ insR ∧ gone = goneL ++ goneR ∧
      Trace read doc first insL goneL mid ∧ Trace read mid second insR goneR doc' := by
  induction first generalizing doc ins gone with
  | nil => exact ⟨doc, [], ins, [], gone, rfl, rfl, .nil doc, h⟩
  | cons e first ih =>
    cases h with
    | cons spliced inserts removes rest =>
      obtain ⟨mid, insL, insR, goneL, goneR, rfl, rfl, before, after⟩ := ih rest
      exact ⟨mid, _, insR, _, goneR, (List.append_assoc ..).symm, (List.append_assoc ..).symm,
        .cons spliced inserts removes before, after⟩

theorem Splices.perm {p : Nat} (h : Splices doc p old new doc') :
    (doc' ++ old).Perm (doc ++ new) := by
  obtain ⟨a, b, -, rfl, rfl⟩ := h
  simp only [List.append_assoc]
  refine List.Perm.append_left a ?_
  calc new ++ (b ++ old)
      |>.Perm (b ++ old ++ new) := List.perm_append_comm
    _ |>.Perm (old ++ b ++ new) := List.perm_append_comm.append_right new
    _ = old ++ (b ++ new) := List.append_assoc ..

theorem Trace.perm (h : Trace read doc edits ins gone doc') :
    (doc' ++ gone).Perm (doc ++ ins) := by
  induction h with
  | nil doc => exact .refl _
  | @cons doc mid doc' new ins old gone e edits spliced inserts removes rest ih =>
    calc doc' ++ (old ++ gone)
        |>.Perm (doc' ++ (gone ++ old)) := List.perm_append_comm.append_left doc'
      _ = doc' ++ gone ++ old := (List.append_assoc ..).symm
      _ |>.Perm (mid ++ ins ++ old) := ih.append_right old
      _ = mid ++ (ins ++ old) := List.append_assoc ..
      _ |>.Perm (mid ++ (old ++ ins)) := List.perm_append_comm.append_left mid
      _ = mid ++ old ++ ins := (List.append_assoc ..).symm
      _ |>.Perm (doc ++ new ++ ins) := spliced.perm.append_right ins
      _ = doc ++ (new ++ ins) := List.append_assoc ..

theorem nodup_of_perm {more : List α} (perm : (doc' ++ gone).Perm (doc ++ ins))
    (fresh : (doc ++ ins ++ more).Nodup) : (doc' ++ more).Nodup := by
  have distinct : (doc' ++ gone ++ more).Nodup := (perm.append_right more).nodup_iff.2 fresh
  exact distinct.sublist ((List.sublist_append_left doc' gone).append_right more)

theorem Trace.gone_subset (h : Trace read doc edits ins gone doc') : gone ⊆ doc ++ ins :=
  fun _ member => h.perm.subset (List.mem_append_right _ member)

theorem Trace.mem_iff (h : Trace read doc edits ins gone doc') (fresh : (doc ++ ins).Nodup) {x : α} :
    x ∈ doc' ↔ x ∈ doc ++ ins ∧ x ∉ gone := by
  have distinct := List.nodup_append.1 (h.perm.nodup_iff.2 fresh)
  constructor
  · intro member
    exact ⟨h.perm.subset (List.mem_append_left _ member),
      fun removed => distinct.2.2 x member x removed rfl⟩
  · intro present
    exact (List.mem_append.1 (h.perm.symm.subset present.1)).resolve_right present.2

theorem filter_ends {keep : α → Bool} {a b m : List α} (ha : ∀ x ∈ a, keep x = true)
    (hm : ∀ x ∈ m, keep x = false) (hb : ∀ x ∈ b, keep x = true) :
    (a ++ (m ++ b)).filter keep = a ++ b := by
  have hm' : m.filter keep = [] := List.filter_eq_nil_iff.2 (by simpa using hm)
  rw [List.filter_append, List.filter_append, List.filter_eq_self.2 ha, List.filter_eq_self.2 hb,
    hm', List.nil_append]

section Order

variable [DecidableEq α]

def SameOrder (doc doc' : List α) : Prop :=
  doc.filter (· ∈ doc') = doc'.filter (· ∈ doc)

theorem SameOrder.trans (before : SameOrder doc mid) (after : SameOrder mid doc')
    (between : ∀ x ∈ doc', x ∈ doc → x ∈ mid) : SameOrder doc doc' := by
  have onDoc : doc.filter (· ∈ doc') = (doc.filter (· ∈ mid)).filter (· ∈ doc') := by
    rw [List.filter_filter]
    refine List.filter_congr fun x hx => ?_
    rw [← Bool.decide_and, decide_eq_decide]
    exact ⟨fun hx' => ⟨hx', between x hx' hx⟩, fun both => both.1⟩
  have onDoc' : doc'.filter (· ∈ doc) = (doc'.filter (· ∈ mid)).filter (· ∈ doc) := by
    rw [List.filter_filter]
    refine List.filter_congr fun x hx' => ?_
    rw [← Bool.decide_and, decide_eq_decide]
    exact ⟨fun hx => ⟨hx, between x hx' hx⟩, fun both => both.1⟩
  have swap (xs : List α) : (xs.filter (· ∈ doc)).filter (· ∈ doc') =
      (xs.filter (· ∈ doc')).filter (· ∈ doc) := by
    rw [List.filter_filter, List.filter_filter]
    exact List.filter_congr fun x _ => Bool.and_comm _ _
  calc doc.filter (· ∈ doc')
      = (doc.filter (· ∈ mid)).filter (· ∈ doc') := onDoc
    _ = (mid.filter (· ∈ doc)).filter (· ∈ doc') := by rw [before]
    _ = (mid.filter (· ∈ doc')).filter (· ∈ doc) := swap mid
    _ = (doc'.filter (· ∈ mid)).filter (· ∈ doc) := by rw [after]
    _ = doc'.filter (· ∈ doc) := onDoc'.symm

theorem Splices.sameOrder {p : Nat} (h : Splices doc p old new doc') (fresh : (doc ++ new).Nodup) :
    SameOrder doc doc' := by
  obtain ⟨a, b, -, rfl, rfl⟩ := h
  -- The two ends stay, and the middles have nothing to do with them or with each other.
  have before : (a ++ (old ++ b)).filter (· ∈ a ++ (new ++ b)) = a ++ b := by
    refine filter_ends ?_ ?_ ?_ <;> simp only [List.nodup_append, List.mem_append] at fresh ⊢ <;>
      grind
  have after : (a ++ (new ++ b)).filter (· ∈ a ++ (old ++ b)) = a ++ b := by
    refine filter_ends ?_ ?_ ?_ <;> simp only [List.nodup_append, List.mem_append] at fresh ⊢ <;>
      grind
  exact before.trans after.symm

theorem Trace.sameOrder (h : Trace read doc edits ins gone doc') (fresh : (doc ++ ins).Nodup) :
    SameOrder doc doc' := by
  induction h with
  | nil doc => rfl
  | @cons doc mid doc' new ins old gone e edits spliced inserts removes rest ih =>
    rw [← List.append_assoc] at fresh
    obtain ⟨freshNew, -, apart⟩ := List.nodup_append.1 fresh
    refine (spliced.sameOrder freshNew).trans (ih (nodup_of_perm spliced.perm fresh)) ?_
    intro x hx' hx
    rcases List.mem_append.1 (rest.perm.subset (List.mem_append_left gone hx')) with kept | put
    · exact kept
    · exact absurd rfl (apart x (List.mem_append_left new hx) x put)

end Order

/-- After either side, what is left of the other one puts the same in and takes nothing else out. -/
def Carries (read : α → Char) (docL docR : List α) (d : Diamond Edit)
    (insL goneL insR goneR : List α) : Prop :=
  ∃ merged goneL' goneR', Trace read docL d.right insR goneR' merged ∧
    Trace read docR d.left insL goneL' merged ∧ goneL' ⊆ goneL ∧ goneR' ⊆ goneR

theorem Carries.swap {d : Diamond Edit} (h : Carries read docL docR d insL goneL insR goneR) :
    Carries read docR docL d.swap insR goneR insL goneL := by
  obtain ⟨merged, goneL', goneR', hright, hleft, subL, subR⟩ := h
  exact ⟨merged, goneR', goneL', hleft, hright, subR, subL⟩

theorem Carries.unchanged {l r : Edit} {goneL' goneR' : List α}
    (right : Splices docL r.pos goneR' insR merged) (insertsR : insR.map read = r.inserted)
    (removesR : goneR'.map read = r.removed) (left : Splices docR l.pos goneL' insL merged)
    (insertsL : insL.map read = l.inserted) (removesL : goneL'.map read = l.removed)
    (subL : goneL' ⊆ goneL) (subR : goneR' ⊆ goneR) :
    Carries read docL docR (.unchanged l r) insL goneL insR goneR :=
  ⟨merged, goneL', goneR', .single right insertsR removesR, .single left insertsL removesL, subL,
    subR⟩

theorem carries_grid {isEmpty : Edit → Bool}
    {cross : Edit → Edit → Except OpError (Diamond Edit)} {P : Edit → Prop}
    (keeps : ∀ {l r d}, cross l r = .ok d → P l → P r →
      (∀ e ∈ (d.prune isEmpty).left, P e) ∧ ∀ e ∈ (d.prune isEmpty).right, P e)
    (cell : ∀ {doc docL docR insL goneL insR goneR : List α} {l r d}, cross l r = .ok d → P l → P r →
      Trace read doc [l] insL goneL docL → Trace read doc [r] insR goneR docR →
        Carries read docL docR (d.prune isEmpty) insL goneL insR goneR)
    {d : Diamond Edit} (g : Diamond.Grid isEmpty cross left right d) (fineL : ∀ e ∈ left, P e)
    (fineR : ∀ e ∈ right, P e) (hl : Trace read doc left insL goneL docL)
    (hr : Trace read doc right insR goneR docR) :
    Carries read docL docR d insL goneL insR goneR := by
  have parts {xs ys xs' ys' : List α} (hxs : xs' ⊆ xs) (hys : ys' ⊆ ys) :
      xs' ++ ys' ⊆ xs ++ ys :=
    List.append_subset.2 ⟨List.subset_append_of_subset_left ys hxs,
      List.subset_append_of_subset_right xs hys⟩
  induction g generalizing doc docL docR insL goneL insR goneR with
  | noLeft right =>
    cases hl
    exact ⟨docR, [], goneR, hr, .nil docR, List.Subset.refl _, List.Subset.refl _⟩
  | noRight left =>
    cases hr
    exact ⟨docL, goneL, [], .nil docL, hl, List.Subset.refl _, List.Subset.refl _⟩
  | @cell l r d crossed =>
    have onLeft : P l := fineL l (List.mem_singleton_self l)
    have onRight : P r := fineR r (List.mem_singleton_self r)
    exact cell crossed onLeft onRight hl hr
  | alongLeft before after ihBefore ihAfter =>
    obtain ⟨fineFirst, fineSecond⟩ := List.forall_mem_append.1 fineL
    have fineNext := (before.forall_mem keeps fineFirst fineR).2
    obtain ⟨mid, ins₁, ins₂, gone₁, gone₂, rfl, rfl, hfirst, hsecond⟩ := hl.split
    obtain ⟨u, gone₁', goneR', hright, hhead, sub₁, subR⟩ := ihBefore fineFirst fineR hfirst hr
    obtain ⟨merged, gone₂', goneR'', hfar, htail, sub₂, subR'⟩ :=
      ihAfter fineSecond fineNext hsecond hright
    exact ⟨merged, gone₁' ++ gone₂', goneR'', hfar, hhead.append htail,
      parts sub₁ sub₂, List.Subset.trans subR' subR⟩
  | alongRight before after ihBefore ihAfter =>
    obtain ⟨fineFirst, fineSecond⟩ := List.forall_mem_append.1 fineR
    have fineNext := (before.forall_mem keeps fineL fineFirst).1
    obtain ⟨mid, ins₁, ins₂, gone₁, gone₂, rfl, rfl, hfirst, hsecond⟩ := hr.split
    obtain ⟨u, goneL', gone₁', hhead, hleft, subL, sub₁⟩ := ihBefore fineL fineFirst hl hfirst
    obtain ⟨merged, goneL'', gone₂', htail, hfar, subL', sub₂⟩ :=
      ihAfter fineNext fineSecond hleft hsecond
    exact ⟨merged, goneL'', gone₁' ++ gone₂', hhead.append htail, hfar,
      List.Subset.trans subL' subL, parts sub₁ sub₂⟩

end Reconcile.Text
