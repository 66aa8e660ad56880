import Reconcile.Json.Value

/-! Writing JSON text, in one line or one item a line with two spaces of indentation. Strings
escape the quote, the backslash and the controls below the space, and nothing else. What cannot be
read is written as `null`. -/

namespace Reconcile.Json

def hexChar (n : Nat) : Char := Nat.digitChar (n % 16)

def unitEscape (n : Nat) : List Char :=
  ['\\', 'u', hexChar (n / 4096), hexChar (n / 256), hexChar (n / 16), hexChar n]

def writeChar (c : Char) : List Char :=
  match c with
  | '"' => ['\\', '"']
  | '\\' => ['\\', '\\']
  | '\x08' => ['\\', 'b']
  | '\t' => ['\\', 't']
  | '\n' => ['\\', 'n']
  | '\x0c' => ['\\', 'f']
  | '\r' => ['\\', 'r']
  | c => if c.toNat < 0x20 then unitEscape c.toNat else [c]

def writeString (text : String) : List Char :=
  '"' :: text.toList.flatMap writeChar ++ ['"']

def writeInt (n : Int) : List Char :=
  let digits := Nat.toDigits 10 n.natAbs
  if n < 0 then '-' :: digits else digits

def Number.write : Number → List Char
  | .integer n => writeInt n
  | .real x =>
    let d := Double.shortest x.units
    (if x.negative then ['-'] else []) ++ writeInt d.mantissa ++ 'e' :: writeInt d.exponent

def newline (indent : Nat) : List Char := '\n' :: List.replicate (2 * indent) ' '

mutual

def pretty (indent : Nat) : Value → List Char
  | .null | .unreadable => ['n', 'u', 'l', 'l']
  | .bool true => ['t', 'r', 'u', 'e']
  | .bool false => ['f', 'a', 'l', 's', 'e']
  | .number n => n.write
  | .string text => writeString text
  | .array [] => ['[', ']']
  | .array (v :: vs) =>
    '[' :: newline (indent + 1) ++ pretty (indent + 1) v ++ prettyItems indent vs
  | .object [] => ['\x7b', '\x7d']
  | .object ((name, v) :: fields) =>
    '\x7b' :: newline (indent + 1) ++ writeString name ++ [':', ' '] ++ pretty (indent + 1) v ++
      prettyFields indent fields

def prettyItems (indent : Nat) : List Value → List Char
  | [] => newline indent ++ [']']
  | v :: vs => ',' :: newline (indent + 1) ++ pretty (indent + 1) v ++ prettyItems indent vs

def prettyFields (indent : Nat) : List (String × Value) → List Char
  | [] => newline indent ++ ['\x7d']
  | (name, v) :: fields =>
    ',' :: newline (indent + 1) ++ writeString name ++ [':', ' '] ++ pretty (indent + 1) v ++
      prettyFields indent fields

end

def Value.pretty (v : Value) : String := String.ofList (Json.pretty 0 v)

end Reconcile.Json
