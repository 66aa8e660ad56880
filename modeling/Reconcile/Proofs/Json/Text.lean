import Reconcile.Json.Text
import Reconcile.Json.Writer

/-! Strings are read as they were written. Each character is written as one piece, itself or an
escape, and no piece holds the quote that closes the string. -/

namespace Reconcile.Json

def pieceOf (c : Char) : Piece :=
  if c.toNat < 0x20 ∧ c ∉ ['\x08', '\t', '\n', '\x0c', '\r'] then .unit c.toNat else .char c

theorem value?_unitEscape {n : Nat} (control : n < 0x20) :
    Numeral.value? 16 [hexChar (n / 4096), hexChar (n / 256), hexChar (n / 16), hexChar n] =
      some n := by
  revert n
  decide

theorem readString_visible {c : Char} (cs : List Char) (quote : c ≠ '"') (slash : c ≠ '\\')
    (visible : ¬c.toNat < 0x20) : readString (c :: cs) =
      (readString cs).map fun (pieces, rest) => (.char c :: pieces, rest) := by
  rw [readString]
  · rw [if_neg visible]
    cases readString cs <;> rfl
  · exact quote
  · intro _ _ _ _ _ h _
    exact slash h
  · intro _ _ h _
    exact slash h

theorem readString_writeChar (c : Char) (cs : List Char) :
    readString (writeChar c ++ cs) =
      (readString cs).map fun (pieces, rest) => (pieceOf c :: pieces, rest) := by
  unfold writeChar
  split
  case h_8 quote slash b t n f r =>
    split
    · rename_i control
      have long : c ∉ ['\x08', '\t', '\n', '\x0c', '\r'] := by
        simp only [List.mem_cons, List.not_mem_nil, or_false, not_or]
        exact ⟨b, t, n, f, r⟩
      rw [unitEscape, pieceOf, if_pos ⟨control, long⟩]
      simp only [List.cons_append, List.nil_append, readString, value?_unitEscape control]
      cases readString cs <;> rfl
    · rename_i visible
      rw [pieceOf, if_neg fun control => visible control.1, List.singleton_append]
      exact readString_visible cs quote slash visible
  all_goals
    cases read : readString cs <;> simp [readString, shortEscape?, pieceOf, read]

theorem readString_flatMap (text rest : List Char) :
    readString (text.flatMap writeChar ++ '"' :: rest) = some (text.map pieceOf, rest) := by
  induction text with
  | nil => rfl
  | cons c text ih =>
    rw [List.flatMap_cons, List.append_assoc, readString_writeChar, ih]
    rfl

theorem textOf?_map_pieceOf (text : List Char) : textOf? (text.map pieceOf) = some text := by
  induction text with
  | nil => rfl
  | cons c text ih =>
    rw [List.map_cons, pieceOf]
    split
    · rename_i control
      have high : isHighSurrogate c.toNat = false := by
        simp only [isHighSurrogate, Bool.and_eq_false_iff, decide_eq_false_iff_not]
        omega
      have low : isLowSurrogate c.toNat = false := by
        simp only [isLowSurrogate, Bool.and_eq_false_iff, decide_eq_false_iff_not]
        omega
      rw [textOf?.eq_def]
      simp only [high, low, ih, Bool.false_eq_true, if_false, Option.map_some, Char.ofNat_toNat]
    · rw [textOf?, ih]
      rfl

theorem readText_flatMap (text : String) (rest : List Char) :
    readText (text.toList.flatMap writeChar ++ '"' :: rest) = some (some text, rest) := by
  simp [readText, readString_flatMap, textOf?_map_pieceOf]

end Reconcile.Json
