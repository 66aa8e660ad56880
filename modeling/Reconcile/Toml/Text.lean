import Reconcile.Numeral

/-! Lines, strings and keys of TOML text. A string in double quotes may hold escapes, one in single
quotes stands as it is; three quotes open a string of several lines, which loses a line break right
after them. -/

namespace Reconcile.Toml

def isSpace (c : Char) : Bool := c == ' ' || c == '\t'

def skipSpaces (cs : List Char) : List Char := cs.dropWhile isSpace

def isVisible (c : Char) : Bool := c == '\t' || (0x20 ≤ c.toNat && c.toNat != 0x7f)

def afterBreak? : List Char → Option (List Char)
  | '\n' :: rest => some rest
  | '\r' :: '\n' :: rest => some rest
  | _ => none

def nextLine? (cs : List Char) : Option (List Char) :=
  let rest :=
    match skipSpaces cs with
    | '#' :: rest => rest.dropWhile isVisible
    | rest => rest
  if rest = [] then some [] else afterBreak? rest

def skipLines : (comment : Bool) → List Char → Option (List Char)
  | _, '\n' :: rest => skipLines false rest
  | _, '\r' :: '\n' :: rest => skipLines false rest
  | true, c :: rest => if isVisible c then skipLines true rest else none
  | true, [] => none
  | false, '#' :: rest => skipLines true rest
  | false, c :: rest => if isSpace c then skipLines false rest else some (c :: rest)
  | false, [] => some []

def shortEscape? : Char → Option Char
  | 'b' => some '\x08'
  | 't' => some '\t'
  | 'n' => some '\n'
  | 'f' => some '\x0c'
  | 'r' => some '\r'
  | '"' => some '"'
  | '\\' => some '\\'
  | _ => none

def readBasic : List Char → Option (List Char × List Char)
  | [] => none
  | '"' :: rest => some ([], rest)
  | '\\' :: 'u' :: a :: b :: c :: d :: rest => do
    let x ← Numeral.scalar? [a, b, c, d]
    let (text, rest) ← readBasic rest
    return (x :: text, rest)
  | '\\' :: 'U' :: a :: b :: c :: d :: e :: f :: g :: h :: rest => do
    let x ← Numeral.scalar? [a, b, c, d, e, f, g, h]
    let (text, rest) ← readBasic rest
    return (x :: text, rest)
  | '\\' :: e :: rest => do
    let x ← shortEscape? e
    let (text, rest) ← readBasic rest
    return (x :: text, rest)
  | c :: rest =>
    if isVisible c then do
      let (text, rest) ← readBasic rest
      return (c :: text, rest)
    else none

def readLiteral : List Char → Option (List Char × List Char)
  | [] => none
  | '\'' :: rest => some ([], rest)
  | c :: rest =>
    if isVisible c then do
      let (text, rest) ← readLiteral rest
      return (c :: text, rest)
    else none

/-- The text up to three double quotes, with at most two more before them that belong to it. A
backslash at the end of a line drops it and all blanks after it; `joining` says whether blanks are
being dropped. -/
def readLongBasic : (joining : Bool) → List Char → Option (List Char × List Char)
  | _, [] => none
  | _, '"' :: '"' :: '"' :: '"' :: '"' :: rest => some (['"', '"'], rest)
  | _, '"' :: '"' :: '"' :: '"' :: rest => some (['"'], rest)
  | _, '"' :: '"' :: '"' :: rest => some ([], rest)
  | joining, '\n' :: rest => breakLine joining (readLongBasic joining rest)
  | joining, '\r' :: '\n' :: rest => breakLine joining (readLongBasic joining rest)
  | _, '\\' :: 'u' :: a :: b :: c :: d :: rest => do
    let x ← Numeral.scalar? [a, b, c, d]
    let (text, rest) ← readLongBasic false rest
    return (x :: text, rest)
  | _, '\\' :: 'U' :: a :: b :: c :: d :: e :: f :: g :: h :: rest => do
    let x ← Numeral.scalar? [a, b, c, d, e, f, g, h]
    let (text, rest) ← readLongBasic false rest
    return (x :: text, rest)
  | _, '\\' :: e :: rest =>
    if (afterBreak? (skipSpaces (e :: rest))).isSome then readLongBasic true (e :: rest)
    else do
      let x ← shortEscape? e
      let (text, rest) ← readLongBasic false rest
      return (x :: text, rest)
  | joining, c :: rest =>
    if joining ∧ isSpace c then readLongBasic true rest
    else if isVisible c then do
      let (text, rest) ← readLongBasic false rest
      return (c :: text, rest)
    else none
where
  breakLine (joining : Bool) (read : Option (List Char × List Char)) :
      Option (List Char × List Char) :=
    if joining then read else read.map fun (text, rest) => ('\n' :: text, rest)

def readLongLiteral : List Char → Option (List Char × List Char)
  | [] => none
  | '\'' :: '\'' :: '\'' :: '\'' :: '\'' :: rest => some (['\'', '\''], rest)
  | '\'' :: '\'' :: '\'' :: '\'' :: rest => some (['\''], rest)
  | '\'' :: '\'' :: '\'' :: rest => some ([], rest)
  | '\n' :: rest => do
    let (text, rest) ← readLongLiteral rest
    return ('\n' :: text, rest)
  | '\r' :: '\n' :: rest => do
    let (text, rest) ← readLongLiteral rest
    return ('\n' :: text, rest)
  | c :: rest =>
    if isVisible c then do
      let (text, rest) ← readLongLiteral rest
      return (c :: text, rest)
    else none

def readString : List Char → Option (String × List Char)
  | '"' :: '"' :: '"' :: rest => finish (readLongBasic false ((afterBreak? rest).getD rest))
  | '"' :: rest => finish (readBasic rest)
  | '\'' :: '\'' :: '\'' :: rest => finish (readLongLiteral ((afterBreak? rest).getD rest))
  | '\'' :: rest => finish (readLiteral rest)
  | _ => none
where
  finish (read : Option (List Char × List Char)) : Option (String × List Char) :=
    read.map fun (text, rest) => (String.ofList text, rest)

structure Key where
  path : List String
  name : String
  deriving DecidableEq, Repr

def isBare (c : Char) : Bool := c.isAlphanum || c == '-' || c == '_'

def readName : List Char → Option (String × List Char)
  | '"' :: rest => readString.finish (readBasic rest)
  | '\'' :: rest => readString.finish (readLiteral rest)
  | cs =>
    match cs.takeWhile isBare with
    | [] => none
    | name => some (String.ofList name, cs.dropWhile isBare)

def readKeyUpTo : (parts : Nat) → List Char → Option (Key × List Char)
  | 0, _ => none
  | parts + 1, cs => do
    let (name, rest) ← readName (skipSpaces cs)
    match skipSpaces rest with
    | '.' :: rest => do
      let (key, rest) ← readKeyUpTo parts rest
      return (⟨name :: key.path, key.name⟩, rest)
    | rest => return (⟨[], name⟩, rest)

def maxDepth : Nat := 79

def readKey (cs : List Char) : Option (Key × List Char) := readKeyUpTo maxDepth cs

end Reconcile.Toml
