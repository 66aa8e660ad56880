import Reconcile.Text.Hidden

/-! How values are quoted in messages: text stands in double quotes, with the usual short escapes
and `\u{…}` for a character that could not be seen; an optional value is `None` or `Some(…)`. -/

namespace Reconcile.Text

def escapeCode (c : Char) : List Char :=
  ['\\', 'u', '\x7b'] ++ Nat.toDigits 16 c.toNat ++ ['\x7d']

def escape (c : Char) : List Char :=
  match c with
  | '\x00' => ['\\', '0']
  | '\t' => ['\\', 't']
  | '\n' => ['\\', 'n']
  | '\r' => ['\\', 'r']
  | '"' => ['\\', '"']
  | '\\' => ['\\', '\\']
  | c => if isHidden c then escapeCode c else [c]

def quote (text : List Char) : String :=
  String.ofList ('"' :: text.flatMap escape ++ ['"'])

class Quoted (α : Type) where
  quoted : α → String

export Quoted (quoted)

instance : Quoted String := ⟨fun s => quote s.toList⟩

instance : Quoted Int := ⟨toString⟩

instance {α : Type} [Quoted α] : Quoted (Option α) where
  quoted
    | none => "None"
    | some x => "Some(" ++ quoted x ++ ")"

end Reconcile.Text
