import Reconcile.Json.Reader
import Reconcile.Proofs.Json.Number
import Reconcile.Proofs.Json.Text

/-! A value is read as it was written. What is proved of a value within a text says what may follow
it: anything that does not go on with a number, so a comma, a bracket, a line break or nothing. -/

namespace Reconcile.Json

variable {depth fuel indent : Nat} {v : Value} {rest : List Char}

/-- Values that can be read from their text: they hold nothing unreadable and no numbers but
integers, and their containers nest so many levels deep at most. -/
inductive Legible : Nat → Value → Prop
  | null {depth : Nat} : Legible depth .null
  | bool {depth : Nat} (b : Bool) : Legible depth (.bool b)
  | integer {depth : Nat} {n : Int} (held : Held n) : Legible depth (.number (.integer n))
  | string {depth : Nat} (text : String) : Legible depth (.string text)
  | array {depth : Nat} {items : List Value} (each : ∀ item ∈ items, Legible depth item) :
    Legible (depth + 1) (.array items)
  | object {depth : Nat} {fields : List (String × Value)}
    (each : ∀ field ∈ fields, Legible depth field.2) : Legible (depth + 1) (.object fields)

theorem skipBlanks_newline (cs : List Char) : skipBlanks (newline indent ++ cs) = skipBlanks cs := by
  have blank : ∀ c ∈ newline indent, isBlank c = true := by
    intro c h
    rcases List.mem_cons.1 h with rfl | h
    · rfl
    · rw [List.eq_of_mem_replicate h]
      rfl
  rw [skipBlanks, List.dropWhile_append_of_pos blank]
  rfl

theorem readValue_newline (cs : List Char) :
    readValue fuel depth (newline indent ++ cs) = readValue fuel depth cs := by
  cases fuel with
  | zero => rw [readValue, readValue]
  | succ fuel => rw [readValue, readValue, skipBlanks_newline]

theorem readItems_newline (cs : List Char) :
    readItems fuel depth (newline indent ++ cs) = readItems fuel depth cs := by
  cases fuel with
  | zero => rw [readItems, readItems]
  | succ fuel => rw [readItems, readItems, readValue_newline]

theorem readFields_newline (cs : List Char) :
    readFields fuel depth (newline indent ++ cs) = readFields fuel depth cs := by
  cases fuel with
  | zero => rw [readFields, readFields]
  | succ fuel => rw [readFields, readFields, skipBlanks_newline]

theorem ends_newline : Ends (newline indent ++ rest) := by
  rintro c ⟨⟩
  decide

def Opens (c : Char) : Prop := isBlank c = false ∧ c ≠ ']' ∧ c ≠ '\x7d'

instance (c : Char) : Decidable (Opens c) := inferInstanceAs (Decidable (_ ∧ _ ∧ _))

theorem ne_of_isDigit {c other : Char} (digit : c.isDigit = true) (letter : other.isDigit = false) :
    c ≠ other := by
  rintro rfl
  rw [digit] at letter
  cases letter

theorem opens_of_isDigit {c : Char} (digit : c.isDigit = true) : Opens c := by
  refine ⟨?_, ne_of_isDigit digit (by decide), ne_of_isDigit digit (by decide)⟩
  simp only [isBlank, Bool.or_eq_false_iff, beq_eq_false_iff_ne]
  exact ⟨⟨⟨ne_of_isDigit digit (by decide), ne_of_isDigit digit (by decide)⟩,
    ne_of_isDigit digit (by decide)⟩, ne_of_isDigit digit (by decide)⟩

def prettyField (indent : Nat) (field : String × Value) : List Char :=
  '"' :: (field.1.toList.flatMap writeChar ++ '"' :: ':' :: ' ' :: pretty (indent + 1) field.2)

theorem pretty_array (indent : Nat) (item : Value) (items : List Value) :
    pretty indent (.array (item :: items)) =
      '[' :: (newline (indent + 1) ++ (pretty (indent + 1) item ++ prettyItems indent items)) := by
  simp [pretty]

theorem prettyItems_cons (indent : Nat) (item : Value) (items : List Value) :
    prettyItems indent (item :: items) =
      ',' :: (newline (indent + 1) ++ (pretty (indent + 1) item ++ prettyItems indent items)) := by
  simp [prettyItems]

theorem pretty_object (indent : Nat) (field : String × Value) (fields : List (String × Value)) :
    pretty indent (.object (field :: fields)) =
      '\x7b' :: (newline (indent + 1) ++ (prettyField indent field ++ prettyFields indent fields)) := by
  simp [pretty, prettyField, writeString]

theorem prettyFields_cons (indent : Nat) (field : String × Value)
    (fields : List (String × Value)) :
    prettyFields indent (field :: fields) =
      ',' :: (newline (indent + 1) ++ (prettyField indent field ++ prettyFields indent fields)) := by
  simp [prettyFields, prettyField, writeString]

theorem skipBlanks_cons {c : Char} (cs : List Char) (visible : isBlank c = false) :
    skipBlanks (c :: cs) = c :: cs :=
  List.dropWhile_cons_of_neg (by simp [visible])

/-- The value is read from its text, however it is indented and whatever comes after it. The steps
that takes are bounded by the length of the text. -/
structure Reads (depth : Nat) (v : Value) : Prop where
  opens : ∀ indent, ∃ c cs, pretty indent v = c :: cs ∧ Opens c
  reads : ∀ fuel indent rest, 2 * (pretty indent v).length ≤ fuel → Ends rest →
    readValue fuel depth (pretty indent v ++ rest) = some (v, rest)

theorem reads_of_readScalar
    (starts : ∀ indent, ∃ c cs, pretty indent v = c :: cs ∧ Opens c ∧ c ≠ '[' ∧ c ≠ '\x7b')
    (read : ∀ indent rest, Ends rest → readScalar (pretty indent v ++ rest) = some (v, rest)) :
    Reads depth v := by
  refine ⟨fun indent => ?_, fun fuel indent rest enough ends => ?_⟩
  · obtain ⟨c, cs, first, opens, -⟩ := starts indent
    exact ⟨c, cs, first, opens⟩
  obtain ⟨c, cs, first, opens, square, curly⟩ := starts indent
  obtain ⟨fuel, rfl⟩ := Nat.exists_eq_succ_of_ne_zero
    (show fuel ≠ 0 by rw [first, List.length_cons] at enough; omega)
  have read := read indent rest ends
  rw [first, List.cons_append] at read ⊢
  rw [readValue, skipBlanks_cons _ opens.1]
  split
  · rename_i same
    exact absurd (List.cons.inj same).1 square
  · rename_i same
    exact absurd (List.cons.inj same).1 curly
  · exact read

theorem readScalar_writeInt {n : Int} (held : Held n) (ends : Ends rest) :
    readScalar (writeInt n ++ rest) = some (.number (.integer n), rest) := by
  have read := readNumber_writeInt held ends
  obtain ⟨c, cs, first, start⟩ := writeInt_starts n
  have other : ∀ letter : Char, letter.isDigit = false → letter ≠ '-' → c ≠ letter := by
    rintro letter plain unsigned rfl
    rcases start with digit | sign
    · exact ne_of_isDigit digit plain rfl
    · exact unsigned sign
  rw [first, List.cons_append] at read ⊢
  rw [readScalar, read]
  · rfl
  all_goals
    intro _ same
    exact other _ (by decide) (by decide) (List.cons.inj same).1

theorem ends_prettyItems (indent : Nat) (items : List Value) (rest : List Char) :
    Ends (prettyItems indent items ++ rest) := by
  cases items with
  | nil =>
    rw [prettyItems, List.append_assoc]
    exact ends_newline
  | cons item items =>
    rw [prettyItems]
    rintro c ⟨⟩
    decide

theorem ends_prettyFields (indent : Nat) (fields : List (String × Value)) (rest : List Char) :
    Ends (prettyFields indent fields ++ rest) := by
  cases fields with
  | nil =>
    rw [prettyFields, List.append_assoc]
    exact ends_newline
  | cons field fields =>
    rw [prettyFields]
    rintro c ⟨⟩
    decide

theorem readItems_pretty (fuel indent : Nat) {items : List Value} (rest : List Char)
    (each : ∀ item ∈ v :: items, Reads depth item)
    (enough : 2 * (pretty (indent + 1) v ++ prettyItems indent items).length ≤ fuel) :
    readItems fuel depth (pretty (indent + 1) v ++ (prettyItems indent items ++ rest)) =
      some (v :: items, rest) := by
  induction items generalizing v fuel with
  | nil =>
    rw [prettyItems] at enough ⊢
    simp only [List.length_append, List.length_cons, List.length_nil] at enough
    obtain ⟨fuel, rfl⟩ := Nat.exists_eq_succ_of_ne_zero (show fuel ≠ 0 by omega)
    have read := (each v List.mem_cons_self).reads fuel (indent + 1)
      (newline indent ++ (']' :: rest)) (by omega) ends_newline
    rw [readItems, List.append_assoc, List.singleton_append, read]
    simp only [bind, Option.bind, skipBlanks_newline]
    rfl
  | cons item items ih =>
    -- what follows the first item starts with a comma, which ends a number
    have first := ends_prettyItems indent (item :: items) rest
    rw [prettyItems_cons] at enough first ⊢
    simp only [List.length_append, List.length_cons] at enough
    obtain ⟨fuel, rfl⟩ := Nat.exists_eq_succ_of_ne_zero (show fuel ≠ 0 by omega)
    have others := ih fuel (fun w h => each w (List.mem_cons_of_mem v h))
      (by rw [List.length_append]; omega)
    rw [readItems, (each v List.mem_cons_self).reads fuel _ _ (by omega) first]
    simp only [bind, Option.bind, List.cons_append, List.append_assoc]
    rw [skipBlanks_cons _ (by decide)]
    simp only [readItems_newline, others]
    rfl

theorem readValue_space (cs : List Char) :
    readValue fuel depth (' ' :: cs) = readValue fuel depth cs := by
  cases fuel with
  | zero => rw [readValue, readValue]
  | succ fuel =>
    rw [readValue, readValue]
    rfl

def readRest (fuel depth : Nat) (field : String × Value) (cs : List Char) :
    Option (List (Option String × Value) × List Char) :=
  match skipBlanks cs with
  | ',' :: rest => do
    let (fields, rest) ← readFields fuel depth rest
    return ((some field.1, field.2) :: fields, rest)
  | '\x7d' :: rest => return ([(some field.1, field.2)], rest)
  | _ => none

theorem readFields_prettyField {field : String × Value} (read : Reads depth field.2)
    (enough : 2 * (prettyField indent field).length ≤ fuel) (ends : Ends rest) :
    readFields (fuel + 1) depth (prettyField indent field ++ rest) =
      readRest fuel depth field rest := by
  simp only [prettyField, List.length_append, List.length_cons] at enough
  have value := read.reads fuel (indent + 1) rest (by omega) ends
  simp only [prettyField, List.cons_append, List.append_assoc]
  rw [readFields, skipBlanks_cons _ (by decide)]
  simp only [readText_flatMap, bind, Option.bind]
  rw [skipBlanks_cons _ (by decide)]
  simp only [readValue_space, value]
  rfl

theorem readFields_pretty (fuel indent : Nat) {field : String × Value}
    {fields : List (String × Value)} (rest : List Char) (each : ∀ f ∈ field :: fields, Reads depth f.2)
    (enough : 2 * (prettyField indent field ++ prettyFields indent fields).length ≤ fuel) :
    readFields fuel depth (prettyField indent field ++ (prettyFields indent fields ++ rest)) =
      some ((field :: fields).map fun f => (some f.1, f.2), rest) := by
  induction fields generalizing field fuel with
  | nil =>
    rw [prettyFields] at enough ⊢
    simp only [List.length_append, List.length_cons, List.length_nil] at enough
    obtain ⟨fuel, rfl⟩ := Nat.exists_eq_succ_of_ne_zero (show fuel ≠ 0 by omega)
    rw [List.append_assoc,
      readFields_prettyField (each _ List.mem_cons_self) (by omega) ends_newline, readRest,
      skipBlanks_newline]
    rfl
  | cons other fields ih =>
    have first := ends_prettyFields indent (other :: fields) rest
    rw [prettyFields_cons] at enough first ⊢
    simp only [List.length_append, List.length_cons] at enough
    obtain ⟨fuel, rfl⟩ := Nat.exists_eq_succ_of_ne_zero (show fuel ≠ 0 by omega)
    have others := ih fuel (fun f h => each f (List.mem_cons_of_mem field h)) (by rw [List.length_append]; omega)
    rw [readFields_prettyField (each _ List.mem_cons_self) (by omega) first, readRest]
    simp only [List.cons_append, List.append_assoc]
    rw [skipBlanks_cons _ (by decide)]
    simp only [readFields_newline, others]
    rfl

theorem mapM_map {α β γ : Type} {e : α → β} {f : β → Option γ} {g : α → γ} {xs : List α}
    (each : ∀ x ∈ xs, f (e x) = some (g x)) : (xs.map e).mapM f = some (xs.map g) := by
  induction xs with
  | nil => rfl
  | cons x xs ih =>
    rw [List.forall_mem_cons] at each
    rw [List.map_cons, List.mapM_cons, each.1, ih each.2]
    rfl

theorem objectOf_map (fields : List (String × Value)) :
    objectOf (fields.map fun f => (some f.1, f.2)) = .object fields := by
  have named : ∀ f, (∀ field : String × Value, f (some field.1, field.2) = some field) →
      (fields.map fun field => (some field.1, field.2)).mapM f = some fields := fun f each => by
    rw [mapM_map (g := id) fun field _ => each field, List.map_id]
  rw [objectOf, named _ fun _ => rfl]

theorem reads_array {items : List Value} (each : ∀ item ∈ items, Reads depth item) :
    Reads (depth + 1) (.array items) := by
  cases items with
  | nil =>
    refine ⟨fun indent => ⟨'[', [']'], by rw [pretty], by decide⟩, fun fuel indent rest enough _ => ?_⟩
    rw [pretty] at enough ⊢
    obtain ⟨fuel, rfl⟩ := Nat.exists_eq_succ_of_ne_zero
      (show fuel ≠ 0 by simp only [List.length_cons] at enough; omega)
    rfl
  | cons item items =>
    refine ⟨fun indent => ⟨'[', _, pretty_array indent item items, by decide⟩,
      fun fuel indent rest enough _ => ?_⟩
    rw [pretty_array] at enough ⊢
    simp only [List.length_append, List.length_cons] at enough
    obtain ⟨fuel, rfl⟩ := Nat.exists_eq_succ_of_ne_zero (show fuel ≠ 0 by omega)
    have read := readItems_pretty fuel indent rest each
      (by rw [List.length_append]; omega)
    -- no item starts with the bracket that would close an empty array
    obtain ⟨c, cs, first, opens⟩ := (each item List.mem_cons_self).opens (indent + 1)
    rw [List.cons_append, readValue, skipBlanks_cons _ (by decide)]
    simp only [List.append_assoc, skipBlanks_newline, Nat.add_sub_cancel]
    rw [first, List.cons_append] at read ⊢
    rw [skipBlanks_cons _ opens.1, if_neg (Nat.succ_ne_zero depth)]
    split
    · rename_i same
      exact absurd (List.cons.inj same).1 opens.2.1
    · rw [read]
      rfl

theorem reads_object {fields : List (String × Value)} (each : ∀ f ∈ fields, Reads depth f.2) :
    Reads (depth + 1) (.object fields) := by
  cases fields with
  | nil =>
    refine ⟨fun indent => ⟨'\x7b', ['\x7d'], by rw [pretty], by decide⟩,
      fun fuel indent rest enough _ => ?_⟩
    rw [pretty] at enough ⊢
    obtain ⟨fuel, rfl⟩ := Nat.exists_eq_succ_of_ne_zero
      (show fuel ≠ 0 by simp only [List.length_cons] at enough; omega)
    rfl
  | cons field fields =>
    refine ⟨fun indent => ⟨'\x7b', _, pretty_object indent field fields, by decide⟩,
      fun fuel indent rest enough _ => ?_⟩
    rw [pretty_object] at enough ⊢
    simp only [List.length_append, List.length_cons] at enough
    obtain ⟨fuel, rfl⟩ := Nat.exists_eq_succ_of_ne_zero (show fuel ≠ 0 by omega)
    have read := readFields_pretty fuel indent rest each
      (by rw [List.length_append]; omega)
    rw [List.cons_append, readValue, skipBlanks_cons _ (by decide)]
    simp only [List.append_assoc, skipBlanks_newline, Nat.add_sub_cancel]
    rw [prettyField, List.cons_append] at read ⊢
    rw [skipBlanks_cons _ (by decide), if_neg (Nat.succ_ne_zero depth)]
    split
    · rename_i same
      exact absurd (List.cons.inj same).1 (by decide)
    · rw [read, Option.map_some, objectOf_map]

theorem Legible.reads {k : Nat} (legible : Legible k v) (within : k ≤ depth) : Reads depth v := by
  induction legible generalizing depth with
  | null =>
    exact reads_of_readScalar (fun _ => ⟨'n', _, by rw [pretty], by decide⟩)
      fun _ _ _ => by rw [pretty]; rfl
  | bool b =>
    cases b with
    | false =>
      exact reads_of_readScalar (fun _ => ⟨'f', _, by rw [pretty], by decide⟩)
        fun _ _ _ => by rw [pretty]; rfl
    | true =>
      exact reads_of_readScalar (fun _ => ⟨'t', _, by rw [pretty], by decide⟩)
        fun _ _ _ => by rw [pretty]; rfl
  | integer held =>
    rename_i n
    refine reads_of_readScalar (fun _ => ?_) fun _ _ ends => ?_
    · obtain ⟨c, cs, first, digit | rfl⟩ := writeInt_starts n
      · exact ⟨c, cs, by rw [pretty, Number.write, first], opens_of_isDigit digit,
          ne_of_isDigit digit (by decide), ne_of_isDigit digit (by decide)⟩
      · exact ⟨'-', cs, by rw [pretty, Number.write, first], by decide⟩
    · rw [pretty, Number.write]
      exact readScalar_writeInt held ends
  | string text =>
    refine reads_of_readScalar (fun _ => ⟨'"', _, by rw [pretty, writeString, List.cons_append],
      by decide⟩) fun _ rest _ => ?_
    rw [pretty, writeString, List.cons_append, List.cons_append, List.append_assoc, readScalar,
      List.singleton_append, readText_flatMap]
    rfl
  | array _ ih =>
    cases depth with
    | zero => exact absurd within (Nat.not_succ_le_zero _)
    | succ depth => exact reads_array fun item h => ih item h (Nat.le_of_succ_le_succ within)
  | object _ ih =>
    cases depth with
    | zero => exact absurd within (Nat.not_succ_le_zero _)
    | succ depth => exact reads_object fun f h => ih f h (Nat.le_of_succ_le_succ within)

theorem read?_pretty (legible : Legible maxDepth v) : read? v.pretty = some v := by
  have read := (legible.reads (Nat.le_refl _)).reads (2 * (pretty 0 v).length + 2) 0 [] (by omega)
    fun _ h => nomatch h
  rw [List.append_nil] at read
  simp only [read?, Value.pretty, String.toList_ofList, read, bind, Option.bind]
  rfl

end Reconcile.Json
