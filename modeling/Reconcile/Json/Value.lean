import Reconcile.Double

/-! JSON values. An object keeps its fields in order and keeps a repeated one, because a record
refuses repetitions where a map takes the last of them. -/

namespace Reconcile.Json

inductive Number
  | integer (n : Int)
  | real (x : Double)
  deriving BEq, Repr

/-- A value, or what has the form of one and cannot be read: a number too large for a double, a
string or a name of a field that is no Unicode text, containers that nest too deep. Whoever ignores
a value ignores that it cannot be read. -/
inductive Value
  | null
  | bool (b : Bool)
  | number (n : Number)
  | string (text : String)
  | array (items : List Value)
  | object (fields : List (String × Value))
  | unreadable
  deriving Repr

namespace Value

mutual

def isReadable : Value → Bool
  | .unreadable => false
  | .array items => allReadable items
  | .object fields => fieldsReadable fields
  | _ => true

def allReadable : List Value → Bool
  | [] => true
  | v :: vs => v.isReadable && allReadable vs

def fieldsReadable : List (String × Value) → Bool
  | [] => true
  | (_, v) :: fields => v.isReadable && fieldsReadable fields

end

def insertField (name : String) (v : Value) : List (String × Value) → List (String × Value)
  | [] => [(name, v)]
  | (other, w) :: fields =>
    match compare name other with
    | .lt => (name, v) :: (other, w) :: fields
    | .eq => (name, v) :: fields
    | .gt => (other, w) :: insertField name v fields

mutual

def canonical : Value → Value
  | .array items => .array (canonicalItems items)
  | .object fields => .object (canonicalFields fields [])
  | v => v

def canonicalItems : List Value → List Value
  | [] => []
  | v :: vs => v.canonical :: canonicalItems vs

def canonicalFields : List (String × Value) → List (String × Value) → List (String × Value)
  | [], done => done
  | (name, v) :: fields, done => canonicalFields fields (insertField name v.canonical done)

end

mutual

def same : Value → Value → Bool
  | .null, .null => true
  | .bool a, .bool b => a == b
  | .number m, .number n => m == n
  | .string s, .string t => s == t
  | .array xs, .array ys => sameItems xs ys
  | .object xs, .object ys => sameFields xs ys
  | _, _ => false

def sameItems : List Value → List Value → Bool
  | [], [] => true
  | x :: xs, y :: ys => same x y && sameItems xs ys
  | _, _ => false

def sameFields : List (String × Value) → List (String × Value) → Bool
  | [], [] => true
  | (k, x) :: xs, (l, y) :: ys => k == l && same x y && sameFields xs ys
  | _, _ => false

end

instance : BEq Value := ⟨fun v w => same v.canonical w.canonical⟩

end Value

end Reconcile.Json
