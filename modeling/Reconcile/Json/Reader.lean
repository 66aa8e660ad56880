import Reconcile.Json.Number
import Reconcile.Json.Text

/-! Reading JSON text. Nothing but blanks may stand around the value. A part that has the form of a
value and cannot be read, such as a container more than `maxDepth` deep, is `unreadable`. -/

namespace Reconcile.Json

def isBlank (c : Char) : Bool := c == ' ' || c == '\n' || c == '\t' || c == '\r'

def skipBlanks (cs : List Char) : List Char := cs.dropWhile isBlank

def readScalar : List Char → Option (Value × List Char)
  | 'n' :: 'u' :: 'l' :: 'l' :: rest => some (.null, rest)
  | 't' :: 'r' :: 'u' :: 'e' :: rest => some (.bool true, rest)
  | 'f' :: 'a' :: 'l' :: 's' :: 'e' :: rest => some (.bool false, rest)
  | '"' :: rest => (readText rest).map fun (text, rest) => (text.elim .unreadable .string, rest)
  | cs => (readNumber cs).map fun (n, rest) => (n.elim .unreadable .number, rest)

inductive Bracket
  | square
  | curly
  deriving DecidableEq, Repr

def Bracket.closing : Bracket → Char
  | .square => ']'
  | .curly => '\x7d'

def Bracket.skipName : Bracket → List Char → Option (List Char)
  | .square, cs => some cs
  | .curly, cs =>
    match skipBlanks cs with
    | '"' :: rest => do
      let (_, rest) ← readString rest
      match skipBlanks rest with
      | ':' :: rest => some rest
      | _ => none
    | _ => none

/-- What follows containers however deep they nest. The innermost of the ones that are open comes
first, and `fresh` says that it has just been entered. -/
def skip : Nat → List Bracket → Bool → List Char → Option (List Char)
  | 0, _, _, _ => none
  | _ + 1, [], _, cs => some cs
  | fuel + 1, inner :: outer, fresh, cs => do
    let c :: rest := skipBlanks cs | none
    if c = inner.closing then skip fuel outer false rest
    else
      let rest ← if fresh then some (c :: rest) else if c = ',' then some rest else none
      match skipBlanks (← inner.skipName rest) with
      | '[' :: rest => skip fuel (.square :: inner :: outer) true rest
      | '\x7b' :: rest => skip fuel (.curly :: inner :: outer) true rest
      | rest => skip fuel (inner :: outer) false (← readScalar rest).2

def objectOf (fields : List (Option String × Value)) : Value :=
  match fields.mapM fun (name, v) => name.map (·, v) with
  | some fields => .object fields
  | none => .unreadable

mutual

def readValue : Nat → Nat → List Char → Option (Value × List Char)
  | 0, _, _ => none
  | fuel + 1, depth, cs =>
    match skipBlanks cs with
    | '[' :: rest =>
      if depth = 0 then (skip fuel [.square] true rest).map (.unreadable, ·)
      else
        match skipBlanks rest with
        | ']' :: rest => some (.array [], rest)
        | rest => (readItems fuel (depth - 1) rest).map fun (items, rest) => (.array items, rest)
    | '\x7b' :: rest =>
      if depth = 0 then (skip fuel [.curly] true rest).map (.unreadable, ·)
      else
        match skipBlanks rest with
        | '\x7d' :: rest => some (.object [], rest)
        | rest =>
          (readFields fuel (depth - 1) rest).map fun (fields, rest) => (objectOf fields, rest)
    | rest => readScalar rest

def readItems : Nat → Nat → List Char → Option (List Value × List Char)
  | 0, _, _ => none
  | fuel + 1, depth, cs => do
    let (item, rest) ← readValue fuel depth cs
    match skipBlanks rest with
    | ',' :: rest => do
      let (items, rest) ← readItems fuel depth rest
      return (item :: items, rest)
    | ']' :: rest => return ([item], rest)
    | _ => none

def readFields : Nat → Nat → List Char → Option (List (Option String × Value) × List Char)
  | 0, _, _ => none
  | fuel + 1, depth, cs =>
    match skipBlanks cs with
    | '"' :: rest => do
      let (name, rest) ← readText rest
      match skipBlanks rest with
      | ':' :: rest => do
        let (item, rest) ← readValue fuel depth rest
        match skipBlanks rest with
        | ',' :: rest => do
          let (fields, rest) ← readFields fuel depth rest
          return ((name, item) :: fields, rest)
        | '\x7d' :: rest => return ([(name, item)], rest)
        | _ => none
      | _ => none
    | _ => none

end

def maxDepth : Nat := 127

def read? (text : String) : Option Value := do
  let cs := text.toList
  let (v, rest) ← readValue (2 * cs.length + 2) maxDepth cs
  if skipBlanks rest = [] then return v else none

end Reconcile.Json
