import Reconcile.Json.Number
import Reconcile.Json.Writer

/-! Integers of 64 bits are read as they were written, whatever follows them that does not go on
with the number. -/

namespace Reconcile.Json

def Ends (rest : List Char) : Prop :=
  ∀ c ∈ rest.head?, c.isDigit = false ∧ c ≠ '.' ∧ c ≠ 'e' ∧ c ≠ 'E'

theorem readDigits_append {digits rest : List Char} (some_ : digits ≠ [])
    (all : ∀ c ∈ digits, c.isDigit = true) (ends : Ends rest) :
    readDigits (digits ++ rest) = some (digits, rest) := by
  have stops : rest.takeWhile Char.isDigit = [] ∧ rest.dropWhile Char.isDigit = rest := by
    cases rest with
    | nil => exact ⟨rfl, rfl⟩
    | cons c rest =>
      have other := (ends c rfl).1
      exact ⟨List.takeWhile_cons_of_neg (by simp [other]),
        List.dropWhile_cons_of_neg (by simp [other])⟩
  rw [readDigits, List.takeWhile_append_of_pos all, List.dropWhile_append_of_pos all, stops.1,
    stops.2, List.append_nil]
  cases digits with
  | nil => exact absurd rfl some_
  | cons c digits => rfl

theorem readFraction_of_ends {rest : List Char} (ends : Ends rest) :
    readFraction rest = some ([], rest) := by
  cases rest with
  | nil => rfl
  | cons c rest =>
    rw [readFraction]
    rintro cs ⟨rfl, rfl⟩
    exact (ends '.' rfl).2.1 rfl

theorem readExponent_of_ends {rest : List Char} (ends : Ends rest) :
    readExponent rest = some (none, rest) := by
  cases rest with
  | nil => rfl
  | cons c rest =>
    obtain ⟨-, -, lower, upper⟩ := ends c rfl
    unfold readExponent
    exact if_neg (not_or.2 ⟨lower, upper⟩)

theorem ofDigits_toDigits (n : Nat) : Decimal.ofDigits (Nat.toDigits 10 n) = n := by
  rw [Decimal.ofDigits, ← Nat.ofDigitChars_eq_foldl, Nat.ofDigitChars_ten_toDigits]

theorem toDigits_starts (n : Nat) :
    ∃ c digits, Nat.toDigits 10 n = c :: digits ∧ c.isDigit = true := by
  obtain ⟨c, digits, first⟩ := List.exists_cons_of_ne_nil (Nat.toDigits_ne_nil (n := n) (b := 10))
  exact ⟨c, digits, first,
    Nat.isDigit_of_mem_toDigits (by decide) (by decide) (first ▸ List.mem_cons_self)⟩

theorem eq_zero_of_head? {n : Nat} (zero : (Nat.toDigits 10 n).head? = some '0') : n = 0 := by
  induction n using Nat.strongRecOn with
  | ind n ih =>
    by_cases one : n < 10
    · rw [Nat.toDigits_of_lt_base one, List.head?_cons, Option.some.injEq] at zero
      have digits : ∀ d < 10, Nat.digitChar d = '0' → d = 0 := by decide
      exact digits n one zero
    · rw [Nat.toDigits_of_base_le (by decide) (by omega)] at zero
      obtain ⟨c, digits, first, -⟩ := toDigits_starts (n / 10)
      have none := ih (n / 10) (by omega) (by rw [first] at zero ⊢; exact zero)
      omega

def Held (n : Int) : Prop := Width.Signed64 n ∨ Width.Unsigned64 n

theorem readUnsigned_toDigits {n : Nat} {rest : List Char} (negative : Bool) (ends : Ends rest)
    (fits : if negative then (n : Int) ≠ 0 ∧ Width.Signed64 (-n) else Width.Unsigned64 n) :
    readUnsigned negative (Nat.toDigits 10 n ++ rest) =
      some (some (.integer (if negative then -n else n)), rest) := by
  have all : ∀ c ∈ Nat.toDigits 10 n, c.isDigit = true := fun c =>
    Nat.isDigit_of_mem_toDigits (by decide) (by decide)
  have plain : ¬((Nat.toDigits 10 n).head? = some '0' ∧ (Nat.toDigits 10 n).length ≠ 1) := by
    rintro ⟨zero, longer⟩
    obtain rfl := eq_zero_of_head? zero
    exact longer rfl
  rw [readUnsigned, readDigits_append Nat.toDigits_ne_nil all ends]
  simp only [bind, Option.bind, if_neg plain, readFraction_of_ends ends, readExponent_of_ends ends,
    pure, Number.ofDigits?, ofDigits_toDigits]
  cases negative with
  | false =>
    simp only [Bool.false_eq_true, if_false] at fits ⊢
    rw [if_pos ⟨trivial, trivial, fits⟩]
  | true =>
    simp only [if_true] at fits ⊢
    rw [if_pos ⟨trivial, trivial, fits⟩]

theorem writeInt_starts (n : Int) :
    ∃ c cs, writeInt n = c :: cs ∧ (c.isDigit = true ∨ c = '-') := by
  rw [writeInt]
  obtain ⟨c, digits, first, digit⟩ := toDigits_starts n.natAbs
  split
  · exact ⟨'-', _, rfl, .inr rfl⟩
  · exact ⟨c, digits, first, .inl digit⟩

theorem readNumber_writeInt {n : Int} (held : Held n) {rest : List Char} (ends : Ends rest) :
    readNumber (writeInt n ++ rest) = some (some (.integer n), rest) := by
  rw [writeInt]
  by_cases negative : n < 0
  · have fits : (n.natAbs : Int) ≠ 0 ∧ Width.Signed64 (-n.natAbs) := by
      rcases held with signed | unsigned
      · exact ⟨by omega, by rwa [show -(n.natAbs : Int) = n by omega]⟩
      · exact absurd unsigned.1 (by omega)
    have read := readUnsigned_toDigits true ends fits
    simp only [if_pos negative, List.cons_append, readNumber]
    rw [read, if_pos rfl, show -(n.natAbs : Int) = n by omega]
  · have fits : Width.Unsigned64 n.natAbs := by
      rcases held with signed | unsigned
      · obtain ⟨-, below⟩ := signed
        exact ⟨by omega, by rw [Width.values64]; omega⟩
      · rwa [show (n.natAbs : Int) = n by omega]
    have read := readUnsigned_toDigits false ends fits
    obtain ⟨c, digits, first, digit⟩ := toDigits_starts n.natAbs
    simp only [if_neg negative]
    rw [first, List.cons_append] at read ⊢
    rw [readNumber, read, if_neg (by decide), show (n.natAbs : Int) = n by omega]
    rintro cs ⟨rfl, rfl⟩
    exact absurd digit (by decide)

end Reconcile.Json
