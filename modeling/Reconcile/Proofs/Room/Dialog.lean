import Mathlib.Data.Sym.Sym2
import Reconcile.Room.Dialog

/-! What the identifier of a dialog says about its two keys. They are put in order, so that either
of them may come first, and their text has a zero character between them. Where a key has such a
character of its own, the text can fall into two keys at another place as well, and two pairs share
their bytes. Apart from that, different pairs share an identifier only where the digest, cut to
sixteen bytes, collides. -/

namespace Reconcile.Room

open Digest (hex)

def shortDigest (message : List UInt8) : List UInt8 := (Digest.Sha256.digest message).take 16

/-- Two messages that are taken for one only by what is shown of their digests. -/
def Collide (m n : List UInt8) : Prop := m ≠ n ∧ shortDigest m = shortDigest n

def parted (keys : String × String) : List Char := keys.1.toList ++ '\x00' :: keys.2.toList

def Shifted (keys others : String × String) : Prop :=
  ∃ middle, keys.1.toList = others.1.toList ++ '\x00' :: middle ∧
    others.2.toList = middle ++ '\x00' :: keys.2.toList

/-- Two pairs of keys that fall out of one text at two zero characters. -/
def Ambiguous (a b c d : String) : Prop :=
  Shifted (orderedPair a b) (orderedPair c d) ∨ Shifted (orderedPair c d) (orderedPair a b)

section order

theorem orderedPair_comm (a b : String) : orderedPair a b = orderedPair b a := by
  simp only [orderedPair]
  rcases String.le_total a b with h | h
  · by_cases back : b ≤ a
    · obtain rfl := String.le_antisymm h back
      rfl
    · rw [if_pos h, if_neg back]
  · by_cases forth : a ≤ b
    · obtain rfl := String.le_antisymm forth h
      rfl
    · rw [if_neg forth, if_pos h]

theorem orderedPair_cases (a b : String) : orderedPair a b = (a, b) ∨ orderedPair a b = (b, a) := by
  rw [orderedPair]
  split
  · exact .inl rfl
  · exact .inr rfl

theorem orderedPair_eq_iff {a b c d : String} :
    orderedPair a b = orderedPair c d ↔ s(a, b) = s(c, d) := by
  have unordered (a b : String) : s((orderedPair a b).1, (orderedPair a b).2) = s(a, b) := by
    rcases orderedPair_cases a b with h | h <;> rw [h]
    exact Sym2.eq_swap
  constructor
  · intro same
    rw [← unordered a b, same, unordered]
  · intro same
    rcases Sym2.eq_iff.1 same with ⟨rfl, rfl⟩ | ⟨rfl, rfl⟩
    · rfl
    · exact orderedPair_comm a b

end order

section bytes

theorem toList_loop (bytes : ByteArray) (i : Nat) (done : List UInt8) :
    ByteArray.toList.loop bytes i done = done.reverse ++ bytes.data.toList.drop i := by
  fun_induction ByteArray.toList.loop bytes i done with
  | case1 i done more ih =>
    have within : i < bytes.data.toList.length := by simpa using more
    have read : bytes.get! i = bytes.data.toList[i] := by
      simp only [ByteArray.get!, Array.getElem_toList]
      exact getElem!_pos bytes.data i more
    rw [ih, List.reverse_cons, List.append_assoc, List.singleton_append, read,
      List.getElem_cons_drop]
  | case2 i done ends =>
    have beyond : bytes.data.toList.length ≤ i := by simpa using ends
    rw [List.drop_eq_nil_of_le beyond, List.append_nil]

theorem toList_eq_data (bytes : ByteArray) : bytes.toList = bytes.data.toList :=
  toList_loop bytes 0 []

theorem dialogBytes_eq (a b : String) :
    dialogBytes a b = (String.ofList (parted (orderedPair a b))).toUTF8.data.toList := by
  have text (keys : String × String) :
      String.ofList (parted keys) = keys.1 ++ (String.ofList ['\x00'] ++ keys.2) := by
    apply String.toList_injective
    simp [parted]
  have zero : (String.ofList ['\x00']).toByteArray.data.toList = [0] := by
    rw [String.toByteArray_ofList]
    rfl
  simp only [dialogBytes, text, String.toUTF8, String.toByteArray_append, toList_eq_data,
    ByteArray.toList_data_append, zero, List.singleton_append]

theorem dialogBytes_eq_iff_parted {a b c d : String} : dialogBytes a b = dialogBytes c d ↔
    parted (orderedPair a b) = parted (orderedPair c d) := by
  rw [dialogBytes_eq, dialogBytes_eq]
  constructor
  · intro same
    have bytes := ByteArray.ext (Array.toList_inj.1 same)
    have texts := String.toByteArray_inj.1 bytes
    exact String.ofList_injective texts
  · intro same
    rw [same]

end bytes

section text

variable {keys others : String × String} {a b c d : String}

theorem append_cons_eq_iff {α : Type} {x : α} {first second first' second' : List α} :
    first ++ x :: second = first' ++ x :: second' ↔ (first = first' ∧ second = second') ∨
      (∃ middle, first = first' ++ x :: middle ∧ second' = middle ++ x :: second) ∨
      ∃ middle, first' = first ++ x :: middle ∧ second = middle ++ x :: second' := by
  constructor
  · intro same
    rcases List.append_eq_append_iff.1 same with ⟨gap, longer, rest⟩ | ⟨gap, longer, rest⟩
    · rcases List.cons_eq_append_iff.1 rest with ⟨rfl, tail⟩ | ⟨middle, rfl, tail⟩
      · rw [List.append_nil] at longer
        exact .inl ⟨longer.symm, (List.cons.inj tail).2.symm⟩
      · exact .inr (.inr ⟨middle, longer, tail⟩)
    · rcases List.cons_eq_append_iff.1 rest with ⟨rfl, tail⟩ | ⟨middle, rfl, tail⟩
      · rw [List.append_nil] at longer
        exact .inl ⟨longer, (List.cons.inj tail).2⟩
      · exact .inr (.inl ⟨middle, longer, tail⟩)
  · rintro (⟨rfl, rfl⟩ | ⟨middle, rfl, rfl⟩ | ⟨middle, rfl, rfl⟩)
    · rfl
    · rw [List.append_assoc, List.cons_append]
    · rw [List.append_assoc, List.cons_append]

theorem parted_eq_iff :
    parted keys = parted others ↔ keys = others ∨ Shifted keys others ∨ Shifted others keys := by
  rw [parted, parted, append_cons_eq_iff, String.toList_inj, String.toList_inj, Prod.ext_iff]
  rfl

theorem Shifted.ne (shifted : Shifted keys others) : keys ≠ others := by
  rintro rfl
  obtain ⟨middle, longer, -⟩ := shifted
  have lengths := congrArg List.length longer
  rw [List.length_append, List.length_cons] at lengths
  omega

theorem Ambiguous.ne (ambiguous : Ambiguous a b c d) : s(a, b) ≠ s(c, d) := by
  rw [Ne, ← orderedPair_eq_iff]
  rcases ambiguous with shifted | shifted
  · exact shifted.ne
  · exact shifted.ne.symm

theorem Shifted.zero_mem (shifted : Shifted keys others) :
    '\x00' ∈ keys.1.toList ∧ '\x00' ∈ others.2.toList := by
  obtain ⟨middle, longer, rest⟩ := shifted
  rw [longer, rest]
  simp

theorem Ambiguous.zero_mem (ambiguous : Ambiguous a b c d) :
    ('\x00' ∈ a.toList ∨ '\x00' ∈ b.toList) ∧ ('\x00' ∈ c.toList ∨ '\x00' ∈ d.toList) := by
  have either {x : Char} (a b : String) : (x ∈ (orderedPair a b).1.toList ∨
      x ∈ (orderedPair a b).2.toList) → x ∈ a.toList ∨ x ∈ b.toList := by
    rcases orderedPair_cases a b with h | h <;> rw [h]
    · exact id
    · exact Or.symm
  rcases ambiguous with shifted | shifted
  · exact ⟨either a b (.inl shifted.zero_mem.1), either c d (.inr shifted.zero_mem.2)⟩
  · exact ⟨either a b (.inr shifted.zero_mem.2), either c d (.inl shifted.zero_mem.1)⟩

theorem dialogBytes_eq_iff : dialogBytes a b = dialogBytes c d ↔
    s(a, b) = s(c, d) ∨ Ambiguous a b c d := by
  rw [dialogBytes_eq_iff_parted, parted_eq_iff, orderedPair_eq_iff]
  rfl

end text

section digits

theorem digitChar_inj {m n : Nat} (hm : m < 16) (hn : n < 16)
    (same : Nat.digitChar m = Nat.digitChar n) : m = n := by
  have digits : ∀ m < 16, ∀ n < 16, Nat.digitChar m = Nat.digitChar n → m = n := by decide
  exact digits m hm n hn same

theorem hex_injective : Function.Injective hex := by
  intro xs
  induction xs with
  | nil =>
    intro ys same
    cases ys with
    | nil => rfl
    | cons y ys => cases same
  | cons x xs ih =>
    intro ys same
    cases ys with
    | nil => cases same
    | cons y ys =>
      simp only [hex, List.flatMap_cons, List.cons_append, List.nil_append, List.cons.injEq] at same
      obtain ⟨high, low, rest⟩ := same
      have hx := x.toNat_lt
      have hy := y.toNat_lt
      have high := digitChar_inj (by omega) (by omega) high
      have low := digitChar_inj (by omega) (by omega) low
      have byte : x = y := UInt8.toNat_inj.1 (by omega)
      rw [byte, ih rest]

theorem take_hex (n : Nat) (bytes : List UInt8) : (hex bytes).take (2 * n) = hex (bytes.take n) := by
  induction n generalizing bytes with
  | zero => rfl
  | succ n ih =>
    cases bytes with
    | nil => rfl
    | cons x xs => exact congrArg (fun cs => _ :: _ :: cs) (ih xs)

end digits

variable {a b c d : String}

theorem dialogId_eq (a b : String) :
    dialogId a b = "dialog-" ++ String.ofList (hex (shortDigest (dialogBytes a b))) :=
  congrArg (fun cs => "dialog-" ++ String.ofList cs) (take_hex 16 _)

theorem dialogId_eq_iff : dialogId a b = dialogId c d ↔
    shortDigest (dialogBytes a b) = shortDigest (dialogBytes c d) := by
  rw [dialogId_eq, dialogId_eq]
  constructor
  · intro same
    exact hex_injective (String.ofList_injective (String.append_right_inj _ |>.1 same))
  · intro same
    rw [same]

/-- Unordered pairs have different bytes unless the zero characters in their keys make them
ambiguous, and apart from that different pairs share an identifier only by a collision. -/
theorem dialogs_identify_pairs (a b c d : String) :
    dialogId a b = dialogId b a ∧
    (dialogBytes a b = dialogBytes c d ↔ s(a, b) = s(c, d) ∨ Ambiguous a b c d) ∧
    (dialogId a b = dialogId c d ↔ s(a, b) = s(c, d) ∨ Ambiguous a b c d ∨
      Collide (dialogBytes a b) (dialogBytes c d)) ∧
    (Ambiguous a b c d → s(a, b) ≠ s(c, d) ∧
      ('\x00' ∈ a.toList ∨ '\x00' ∈ b.toList) ∧ ('\x00' ∈ c.toList ∨ '\x00' ∈ d.toList)) := by
  refine ⟨?_, dialogBytes_eq_iff, ?_, fun ambiguous => ⟨ambiguous.ne, ambiguous.zero_mem⟩⟩
  · rw [dialogId, dialogId, dialogBytes, dialogBytes, orderedPair_comm]
  · rw [dialogId_eq_iff, ← or_assoc, ← dialogBytes_eq_iff]
    constructor
    · intro shown
      by_cases same : dialogBytes a b = dialogBytes c d
      · exact .inl same
      · exact .inr ⟨same, shown⟩
    · rintro (same | ⟨-, shown⟩)
      · rw [same]
      · exact shown

theorem ambiguous_of_shared_text : Ambiguous "a\x00b" "c" "a" "b\x00c" := by
  have first : orderedPair "a\x00b" "c" = ("a\x00b", "c") := if_pos (by decide)
  have second : orderedPair "a" "b\x00c" = ("a", "b\x00c") := if_pos (by decide)
  rw [Ambiguous, first, second]
  exact .inl ⟨['b'], by simp, by simp⟩

theorem dialogs_identify_pairs_on_shared_text :
    Ambiguous "a\x00b" "c" "a" "b\x00c" ∧ dialogId "a\x00b" "c" = dialogId "a" "b\x00c" ∧
      s("a\x00b", "c") ≠ s("a", "b\x00c") := by
  obtain ⟨-, -, shared, different⟩ := dialogs_identify_pairs "a\x00b" "c" "a" "b\x00c"
  exact ⟨ambiguous_of_shared_text, shared.2 (.inr (.inl ambiguous_of_shared_text)),
    (different ambiguous_of_shared_text).1⟩

/-- A zero character in a key can be taken for the one between the keys. -/
theorem different_pairs_share_bytes : ¬∀ a b c d : String,
    dialogBytes a b = dialogBytes c d ↔ s(a, b) = s(c, d) := by
  intro identified
  have same := dialogBytes_eq_iff.2 (.inr ambiguous_of_shared_text)
  exact ambiguous_of_shared_text.ne ((identified _ _ _ _).1 same)

end Reconcile.Room
