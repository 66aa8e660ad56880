import Reconcile.Room.Directory

/-! Random identifiers of rooms, drawn from a stream of 32-bit words. The six highest bits of a word
choose a character, and a word that chooses none is skipped. -/

namespace Reconcile.Room

def alphabet : List Char :=
  "ABCDEFGHIJKLMNOPQRSTUVWXYZabcdefghijklmnopqrstuvwxyz0123456789".toList

def identifierLength : Nat := 32

def drawLetters : Nat → List UInt32 → List Char × List UInt32
  | 0, words => ([], words)
  | n + 1, [] => (List.replicate (n + 1) 'A', [])
  | n + 1, word :: words =>
    match alphabet[(word >>> 26).toNat]? with
    | some c =>
      let (cs, words) := drawLetters n words
      (c :: cs, words)
    | none => drawLetters (n + 1) words

def drawIdentifier (words : List UInt32) : String × List UInt32 :=
  let (cs, words) := drawLetters identifierLength words
  (String.ofList cs, words)

def createRoom (words : List UInt32) (me : String) (participants : List String) :
    Change × List UInt32 :=
  let (id, words) := drawIdentifier words
  (.add id (.ofList (me :: participants)), words)

end Reconcile.Room
