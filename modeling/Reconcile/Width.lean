/-! The integers that fixed numbers of bits can hold. -/

namespace Reconcile.Width

def values64 : Nat := 18446744073709551616

def Unsigned32 (n : Nat) : Prop := n < 4294967296

def Unsigned64 (n : Int) : Prop := 0 ≤ n ∧ n < values64

def Signed64 (n : Int) : Prop := -9223372036854775808 ≤ n ∧ n < 9223372036854775808

instance (n : Nat) : Decidable (Unsigned32 n) := inferInstanceAs (Decidable (_ < _))

instance (n : Int) : Decidable (Unsigned64 n) := inferInstanceAs (Decidable (_ ∧ _))

instance (n : Int) : Decidable (Signed64 n) := inferInstanceAs (Decidable (_ ∧ _))

end Reconcile.Width
