import Reconcile.Toml.Moment
import Reconcile.Toml.Number
import Reconcile.Toml.Text

/-! TOML values and tables. A table remembers what made it, because that decides who may still add
to it: a table with a header of its own and an inline table are closed to dotted keys, one made by
dotted keys is closed to headers. -/

namespace Reconcile.Toml

inductive Origin
  /-- Written between braces. -/
  | inline
  /-- Named by a header; the document itself counts as such. -/
  | header
  /-- A header named something inside it. -/
  | passed
  | dotted
  deriving DecidableEq, Repr

inductive Value
  | string (text : String)
  | integer (n : Int)
  | real (x : Real)
  | bool (b : Bool)
  | moment (m : Moment)
  | array (items : List Value)
  | table (origin : Origin) (entries : List (String × Value))
  /-- An array of tables, each with a header of its own. -/
  | rows (tables : List (List (String × Value)))
  deriving Repr

structure Table where
  origin : Origin
  entries : List (String × Value)
  deriving Repr

namespace Table

def toValue (t : Table) : Value := .table t.origin t.entries

def get? (t : Table) (name : String) : Option Value := t.entries.lookup name

def setEntry (name : String) (v : Value) : List (String × Value) → List (String × Value)
  | [] => [(name, v)]
  | (n, w) :: entries =>
    if name = n then (n, v) :: entries else (n, w) :: setEntry name v entries

def set (t : Table) (name : String) (v : Value) : Table :=
  { t with entries := setEntry name v t.entries }

private theorem lookup_cons_eq_ite (name n : String) (w : Value)
    (entries : List (String × Value)) :
    ((n, w) :: entries).lookup name = if name = n then some w else entries.lookup name := by
  rw [List.lookup_cons]
  by_cases h : name = n
  · simp [h]
  · rw [if_neg h, beq_false_of_ne h]

theorem get?_set (t : Table) (name other : String) (v : Value) :
    (t.set name v).get? other = if other = name then some v else t.get? other := by
  obtain ⟨origin, entries⟩ := t
  simp only [set, get?]
  induction entries with
  | nil => simp only [setEntry, lookup_cons_eq_ite, List.lookup_nil]
  | cons e entries ih =>
    obtain ⟨n, w⟩ := e
    by_cases hn : name = n
    · subst hn
      simp only [setEntry, if_true, lookup_cons_eq_ite]
      split <;> rfl
    · simp only [setEntry, if_neg hn, lookup_cons_eq_ite, ih]
      by_cases ho : other = n
      · rw [if_pos ho, if_pos ho, if_neg (ho ▸ Ne.symm hn)]
      · rw [if_neg ho, if_neg ho]

def put? (name : String) (v : Value) (t : Table) : Option Table :=
  if (t.get? name).isSome then none else some (t.set name v)

def Origin.admits (dotted : Bool) : Origin → Bool
  | .inline => false
  | .header => !dotted
  | .passed | .dotted => true

/-- Changes the table at the end of a path. Missing tables are made on the way, and an array of
tables is entered at its last one. -/
def alter? (dotted : Bool) (change : Table → Option Table) : List String → Table → Option Table
  | [], t => change t
  | name :: path, t =>
    match t.get? name with
    | none => do
      let inner ← alter? dotted change path ⟨if dotted then .dotted else .passed, []⟩
      return t.set name inner.toValue
    | some (.table origin entries) =>
      if Origin.admits dotted origin then do
        let inner ← alter? dotted change path ⟨origin, entries⟩
        return t.set name inner.toValue
      else none
    | some (.rows tables) => do
      let inner ← alter? dotted change path ⟨.header, ← tables.getLast?⟩
      return t.set name (.rows (tables.dropLast ++ [inner.entries]))
    | some _ => none

def define? (key : Key) (v : Value) (t : Table) : Option Table :=
  if key.path = [] then t.put? key.name v
  else t.alter? true (fun t => if t.origin = .dotted then t.put? key.name v else none) key.path

def openTable? (key : Key) (t : Table) : Option Table :=
  let claim (t : Table) : Option Table :=
    match t.get? key.name with
    | none => some (t.set key.name (.table .header []))
    | some (.table .passed entries) => some (t.set key.name (.table .header entries))
    | some _ => none
  t.alter? false claim key.path

def openRow? (key : Key) (t : Table) : Option Table :=
  let append (t : Table) : Option Table :=
    match t.get? key.name with
    | none => some (t.set key.name (.rows [[]]))
    | some (.rows tables) => some (t.set key.name (.rows (tables ++ [[]])))
    | some _ => none
  t.alter? false append key.path

end Table

end Reconcile.Toml
