import Reconcile.Proofs.Register
import Reconcile.Proofs.Room.Cross
import Reconcile.Proofs.Text.Squash

/-! The kinds of state that managers keep in step, each with the laws that this needs. The counters
are not among them: their additions can overflow in one order and not in the other. -/

namespace Reconcile

/-- Text documents, room directories, and registers over any ordered keys and values. -/
inductive Domain : {σ op : Type} → Algebra σ op → Prop
  | text : Domain Text.algebra
  | rooms : Domain Room.algebra
  | registers (K V : Type) [Ord K] [Std.TransOrd K] [Std.LawfulEqOrd K] [DecidableEq K]
      [Text.Quoted K] [Ord V] [DecidableEq V] [Text.Quoted V] : Domain (Register.algebra K V)

theorem Domain.lawful {σ op : Type} {a : Algebra σ op} (domain : Domain a) : a.Lawful := by
  cases domain with
  | text => exact Text.lawful
  | rooms => exact Room.lawful
  | registers K V => exact Register.lawful

end Reconcile
