import Mathlib.Data.List.Basic
import Mathlib.Data.List.Induction
import Reconcile.Proofs.Path

/-! The laws of an algebra on which a manager relies. They speak of one or two operations; what
squashing, undoing, offering and crossing whole lists does follows from them. -/

namespace Reconcile.Algebra

variable {σ op : Type} {a : Algebra σ op}

/-- Only operations that change the state have to be undone and squashed exactly, and crossing has
to keep them so; the committed operations that they cross may change nothing. -/
structure Lawful (a : Algebra σ op) : Prop where
  idle : a.EmptyIdle
  steady : ∀ {s t o}, a.apply s o = .ok t → a.changes s o = false → t = s
  undo : ∀ {s t o}, a.apply s o = .ok t → a.changes s o = true → a.apply t (a.invert o) = .ok s
  squash : ∀ {s t first second}, a.Effective s [first, second] t →
    a.Effective s ((a.squash first second).filter (!a.isEmpty ·)) t
  joins : a.Joins (fun s o => a.changes s o = true) fun _ _ => True

theorem Lawful.squashInto (lawful : a.Lawful) {s t u : σ} {kept : List op} {o : op}
    (path : a.Effective s kept t) (last : a.Effective t [o] u) :
    a.Effective s (a.squashInto kept o) u := by
  simp only [Algebra.squashInto]
  split
  · rename_i empty
    obtain ⟨applied, -⟩ := path_singleton.1 last
    rwa [lawful.idle empty applied]
  · split
    · rename_i none
      obtain rfl := List.getLast?_eq_none_iff.1 none
      obtain rfl := path_nil.1 path
      exact last
    · rename_i before some
      rw [← List.dropLast_append_getLast? before some] at path
      obtain ⟨v, hfirst, hlast⟩ := path_append.1 path
      have both : a.Effective v [before, o] u := path_append.2 ⟨t, hlast, last⟩
      exact path_append.2 ⟨v, hfirst, lawful.squash both⟩

theorem Lawful.squashAll (lawful : a.Lawful) {s t : σ} {ops : List op}
    (path : a.Effective s ops t) : a.Effective s (a.squashAll ops) t := by
  induction ops using List.reverseRecOn generalizing t with
  | nil => exact path
  | append_singleton ops o ih =>
    obtain ⟨u, before, last⟩ := path_append.1 path
    rw [squashAll_append]
    exact lawful.squashInto (ih before) last

theorem Lawful.invertAll (lawful : a.Lawful) {s t : σ} {ops : List op}
    (path : a.Effective s ops t) : a.applyAll t (a.invertAll ops) = .ok s := by
  induction path with
  | nil s => rfl
  | @cons s t u o ops applied changed rest ih =>
    rw [show o :: ops = [o] ++ ops from rfl, invertAll_append, applyAll_append, ih, ok_bind]
    exact bind_eq_ok.2 ⟨s, lawful.undo applied changed, rfl⟩

theorem offer_concat (s : σ) (ops : List op) (o : op) :
    a.offer s (ops ++ [o]) =
      match a.apply (a.offer s ops).state o with
      | .ok t =>
        ⟨t, if a.changes (a.offer s ops).state o then (a.offer s ops).kept ++ [o]
          else (a.offer s ops).kept, (a.offer s ops).rejected⟩
      | .error e => { a.offer s ops with rejected := (a.offer s ops).rejected ++ [e] } := by
  rw [Algebra.offer, List.foldl_append]
  rfl

theorem Lawful.offer (lawful : a.Lawful) (s : σ) (ops : List op) :
    a.Effective s (a.offer s ops).kept (a.offer s ops).state := by
  induction ops using List.reverseRecOn with
  | nil => exact .nil s
  | append_singleton ops o ih =>
    rw [offer_concat]
    cases applied : a.apply (a.offer s ops).state o with
    | error e => exact ih
    | ok t =>
      cases changed : a.changes (a.offer s ops).state o with
      | true => exact path_append.2 ⟨_, ih, path_singleton.2 ⟨applied, changed⟩⟩
      | false =>
        rw [← lawful.steady applied changed] at ih
        exact ih

theorem Lawful.transform (lawful : a.Lawful) {left right : List op} {d : Diamond op}
    (crossed : a.transform left right = .ok d) {s sl sr : σ} (hl : a.Effective s left sl)
    (hr : a.applyAll s right = .ok sr) :
    ∃ t, a.applyAll sl d.right = .ok t ∧ a.Effective sr d.left t := by
  obtain ⟨t, hright, hleft⟩ :=
    lawful.joins.transform lawful.idle crossed hl (applies_iff.2 hr)
  exact ⟨t, hright.applyAll, hleft⟩

end Reconcile.Algebra
