import Reconcile.Toml.Table

/-! Reading TOML documents. -/

namespace Reconcile.Toml

/-- Values that hold no others. A text that starts a date or time is read as one, and a number is
real if it can be. -/
def readScalar : List Char → Option (Value × List Char)
  | 't' :: 'r' :: 'u' :: 'e' :: rest => some (.bool true, rest)
  | 'f' :: 'a' :: 'l' :: 's' :: 'e' :: rest => some (.bool false, rest)
  | cs =>
    (readString cs).map (fun (text, rest) => (.string text, rest))
      <|> (readMoment cs).map (fun (m, rest) => (.moment m, rest))
      <|> (readReal cs).map (fun (x, rest) => (.real x, rest))
      <|> (readInteger cs).map (fun (n, rest) => (.integer n, rest))

mutual

def readValue : Nat → Nat → List Char → Option (Value × List Char)
  | 0, _, _ => none
  | fuel + 1, depth, cs =>
    match cs with
    | '[' :: rest =>
      if depth = 0 then none
      else (readItems fuel (depth - 1) rest).map fun (items, rest) => (.array items, rest)
    | '\x7b' :: rest =>
      if depth = 0 then none
      else
        match skipSpaces rest with
        | '\x7d' :: rest => some (.table .inline [], rest)
        | rest => (readEntries fuel (depth - 1) ⟨.inline, []⟩ rest).map
            fun (t, rest) => (t.toValue, rest)
    | cs => readScalar cs

def readItems : Nat → Nat → List Char → Option (List Value × List Char)
  | 0, _, _ => none
  | fuel + 1, depth, cs => do
    match ← skipLines false cs with
    | ']' :: rest => return ([], rest)
    | rest => do
      let (item, rest) ← readValue fuel depth rest
      match ← skipLines false rest with
      | ',' :: rest => do
        let (items, rest) ← readItems fuel depth rest
        return (item :: items, rest)
      | ']' :: rest => return ([item], rest)
      | _ => none

def readEntries : Nat → Nat → Table → List Char → Option (Table × List Char)
  | 0, _, _, _ => none
  | fuel + 1, depth, t, cs => do
    let (key, rest) ← readKey cs
    let (v, rest) ← readValue fuel depth (skipSpaces (← after? '=' rest))
    let t ← t.define? key v
    match skipSpaces rest with
    | ',' :: rest => readEntries fuel depth t rest
    | '\x7d' :: rest => return (t, rest)
    | _ => none

end

structure Document where
  root : Table
  path : List String

namespace Document

def empty : Document := ⟨⟨.header, []⟩, []⟩

/-- Each line but a blank one names a table, adds a table to an array or gives a value. Only values
reach over several lines. -/
def readLines : Nat → Document → List Char → Option Document
  | 0, _, _ => none
  | fuel + 1, d, cs =>
    match skipSpaces cs with
    | [] => some d
    | '[' :: '[' :: rest => do
      let (key, rest) ← readKey rest
      let rest ← nextLine? (← after? ']' (← after? ']' rest))
      readLines fuel ⟨← d.root.openRow? key, key.path ++ [key.name]⟩ rest
    | '[' :: rest => do
      let (key, rest) ← readKey rest
      let rest ← nextLine? (← after? ']' rest)
      readLines fuel ⟨← d.root.openTable? key, key.path ++ [key.name]⟩ rest
    | rest =>
      match nextLine? rest with
      | some rest => readLines fuel d rest
      | none => do
        let (key, rest) ← readKey rest
        let rest := skipSpaces (← after? '=' rest)
        let (v, rest) ← readValue (2 * rest.length + 2) maxDepth rest
        let root ← d.root.alter? false (Table.define? key v) d.path
        readLines fuel { d with root } (← nextLine? rest)

end Document

def read? (text : String) : Option Table :=
  let cs :=
    match text.toList with
    | '\ufeff' :: rest => rest
    | cs => cs
  (Document.readLines (cs.length + 1) .empty cs).map (·.root)

end Reconcile.Toml
