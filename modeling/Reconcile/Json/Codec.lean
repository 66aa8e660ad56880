import Std.Data.ExtTreeMap
import Std.Data.ExtTreeSet
import Reconcile.Json.Value
import Reconcile.Width

/-! Values that have a JSON form. A record is an object whose unknown fields are ignored and whose
known fields do not repeat, or the array of its fields in order; a tagged record is one whose name
is in a field of its own, or in front. -/

namespace Reconcile.Json

/-- Types with a JSON form. A part of a tagged record is decoded by rules of its own, under which a
tag may be the place of a name instead of the name. -/
class Coded (α : Type) where
  encode : α → Value
  decode? : Value → Option α
  decodePart? : Value → Option α := decode?

export Coded (encode decode? decodePart?)

variable {α : Type}

instance : Coded Value where
  encode := id
  decode? v := if v.isReadable then some v else none

instance : Coded String where
  encode := .string
  decode?
    | .string text => some text
    | _ => none

instance : Coded Bool where
  encode := .bool
  decode?
    | .bool b => some b
    | _ => none

instance : Coded Int where
  encode n := .number (.integer n)
  decode?
    | .number (.integer n) => if Width.Signed64 n then some n else none
    | _ => none

instance : Coded Nat where
  encode n := .number (.integer n)
  decode?
    | .number (.integer n) => if Width.Unsigned64 n then some n.toNat else none
    | _ => none

instance [Coded α] : Coded (Option α) where
  encode
    | none => .null
    | some x => encode x
  decode?
    | .null => some none
    | v => (decode? v).map some

instance [Coded α] : Coded (List α) where
  encode xs := .array (xs.map encode)
  decode?
    | .array items => items.mapM decode?
    | _ => none
  decodePart?
    | .array items => items.mapM decodePart?
    | _ => none

instance : Coded (Std.ExtTreeSet String) where
  encode s := encode s.toList
  decode? v := (decode? v).map fun keys : List String => .ofList keys

def decodeEntries? [Coded α] : Value → Option (List (String × α))
  | .object fields => fields.mapM fun (key, v) => (decode? v).map (key, ·)
  | _ => none

instance [Coded α] : Coded (Std.ExtTreeMap String α) where
  encode m := .object (m.toList.map fun (key, x) => (key, encode x))
  decode? v := (decodeEntries? v).map fun entries => .ofList entries

namespace Value

def field? (fields : List (String × Value)) (name : String) : Option (Option Value) :=
  match fields.filter (·.1 == name) with
  | [] => some none
  | [(_, v)] => some (some v)
  | _ => none

def record? (names : List String) : Value → Option (List (Option Value))
  | .object fields => names.mapM (field? fields)
  | .array items => if items.length = names.length then some (items.map some) else none
  | _ => none

def tagName? (places : List String) : Value → Option String
  | .string name => some name
  | .number (.integer n) => if n < 0 then none else places[n.toNat]?
  | _ => none

/-- The name of a tagged record and the record without it. Every part of it has to be readable,
whether it is in a known field or not. -/
def tagged? (tag : String) (places : List String) (v : Value) : Option (String × Value) :=
  if v.isReadable then
    match v with
    | .object fields => do
      let name ← tagName? places (← (← field? fields tag))
      return (name, .object (fields.filter (·.1 != tag)))
    | .array (item :: items) => do return (← tagName? places item, .array items)
    | _ => none
  else none

end Value

def decodeOptional? [Coded α] : Option Value → Option (Option α)
  | none => some none
  | some v => decode? v

end Reconcile.Json
