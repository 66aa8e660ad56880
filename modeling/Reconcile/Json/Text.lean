import Reconcile.Numeral

/-! The text of JSON strings. A string is read to its closing quote first; whether its escapes make
a text is asked afterwards, because a string that nobody looks at need not be one. -/

namespace Reconcile.Json

def shortEscape? : Char → Option Char
  | '"' => some '"'
  | '\\' => some '\\'
  | '/' => some '/'
  | 'b' => some '\x08'
  | 'f' => some '\x0c'
  | 'n' => some '\n'
  | 'r' => some '\r'
  | 't' => some '\t'
  | _ => none

inductive Piece
  | char (c : Char)
  | unit (n : Nat)
  deriving DecidableEq, Repr

def readString : List Char → Option (List Piece × List Char)
  | [] => none
  | '"' :: rest => some ([], rest)
  | '\\' :: 'u' :: a :: b :: c :: d :: rest => do
    let unit ← Numeral.value? 16 [a, b, c, d]
    let (pieces, rest) ← readString rest
    return (.unit unit :: pieces, rest)
  | '\\' :: e :: rest => do
    let c ← shortEscape? e
    let (pieces, rest) ← readString rest
    return (.char c :: pieces, rest)
  | c :: rest =>
    if c.toNat < 0x20 then none
    else do
      let (pieces, rest) ← readString rest
      return (.char c :: pieces, rest)

def isHighSurrogate (n : Nat) : Bool := 0xd800 ≤ n && n < 0xdc00

def isLowSurrogate (n : Nat) : Bool := 0xdc00 ≤ n && n < 0xe000

def textOf? : List Piece → Option (List Char)
  | [] => some []
  | .char c :: pieces => (textOf? pieces).map (c :: ·)
  | .unit n :: pieces =>
    if isHighSurrogate n then
      match pieces with
      | .unit low :: pieces =>
        if isLowSurrogate low then
          (textOf? pieces).map (Char.ofNat (0x10000 + 0x400 * (n - 0xd800) + (low - 0xdc00)) :: ·)
        else none
      | _ => none
    else if isLowSurrogate n then none
    else (textOf? pieces).map (Char.ofNat n :: ·)

def readText (cs : List Char) : Option (Option String × List Char) :=
  (readString cs).map fun (pieces, rest) => ((textOf? pieces).map String.ofList, rest)

end Reconcile.Json
