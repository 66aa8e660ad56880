import Std.Data.ExtTreeMap
import Reconcile.Storage.Path

/-! A disk of folders and text files. Each of them has a place, the list of names that leads to it
from the root, and whatever has a place stands in a folder. -/

namespace Reconcile.Storage

inductive Node
  | folder
  | file (text : String)
  deriving DecidableEq, Repr

abbrev Disk := Std.ExtTreeMap (List String) Node

inductive DiskFault
  | notFound
  | notFolder
  | isFolder
  | badName
  deriving DecidableEq, Repr

namespace Disk

def maxNameBytes : Nat := 255

/-- Paths are limited to so many bytes. It takes another 16 of 4095 to get to the root. -/
def maxPathBytes : Nat := 4079

def nodeAt? (d : Disk) (place : List String) : Option Node :=
  if place.isEmpty then some .folder else d[place]?

def walk (d : Disk) : List String → List String → Except DiskFault (List String)
  | place, [] => .ok place
  | place, name :: names =>
    if name = ".." then walk d place.dropLast names
    else if maxNameBytes < name.utf8ByteSize then .error .badName
    else if names.isEmpty then .ok (place ++ [name])
    else
      match d.nodeAt? (place ++ [name]) with
      | some .folder => walk d (place ++ [name]) names
      | some (.file _) => .error .notFolder
      | none => .error .notFound

def namesOf (path : String) : Except DiskFault (List String) :=
  if path.contains '\x00' ∨ maxPathBytes < path.utf8ByteSize then .error .badName
  else .ok (Path.names path)

def locate (d : Disk) (path : String) : Except DiskFault (List String) := do
  walk d [] (← namesOf path)

def node? (d : Disk) (path : String) : Option Node :=
  match d.locate path with
  | .ok place => d.nodeAt? place
  | .error _ => none

def text? (d : Disk) (path : String) : Option String :=
  match d.node? path with
  | some (.file text) => some text
  | _ => none

def read (d : Disk) (path : String) : Except DiskFault String := do
  match d.nodeAt? (← d.locate path) with
  | some (.file text) => return text
  | some .folder => .error .isFolder
  | none => .error .notFound

def write (d : Disk) (path text : String) : Except DiskFault Disk := do
  let place ← d.locate path
  match d.nodeAt? place with
  | some .folder => .error .isFolder
  | _ => return d.insert place (.file text)

def rename (d : Disk) (path target : String) : Except DiskFault Disk := do
  let text ← d.read path
  Disk.write (d.erase (← d.locate path)) target text

def remove (d : Disk) (path : String) : Except DiskFault Disk := do
  let place ← d.locate path
  match d.nodeAt? place with
  | some (.file _) => return d.erase place
  | some .folder => .error .isFolder
  | none => .error .notFound

def makeFolders (d : Disk) : List String → List String → Except DiskFault Disk
  | _, [] => .ok d
  | place, name :: names => do
    let next ← walk d place [name]
    match d.nodeAt? next with
    | some (.file _) => .error .notFolder
    | some .folder => makeFolders d next names
    | none => makeFolders (d.insert next .folder) next names

def makeFolder (d : Disk) (path : String) : Except DiskFault Disk := do
  d.makeFolders [] (← namesOf path)

def list (d : Disk) (path : String) : List String :=
  match d.locate path with
  | .error _ => []
  | .ok place => d.keys.filterMap fun key =>
    match key.getLast? with
    | some name => if key.dropLast = place then some name else none
    | none => none

end Disk

end Reconcile.Storage
