/-! Paths of files as text. Slashes separate names, nothing is normalised when paths are joined, and
a path that starts with a slash is absolute. -/

namespace Reconcile.Storage.Path

def join (dir file : String) : String :=
  if file.startsWith '/' then file
  else if dir.isEmpty || dir.endsWith '/' then dir ++ file
  else dir ++ "/" ++ file

def pieces : List Char → List (List Char)
  | [] => [[]]
  | c :: cs =>
    if c = '/' then [] :: pieces cs
    else
      match pieces cs with
      | [] => [[c]]
      | piece :: rest => (c :: piece) :: rest

def names (path : String) : List String :=
  ((pieces path.toList).map String.ofList).filter fun name => name != "" && name != "."

def stem (name : List Char) : List Char :=
  match name.reverse.dropWhile (· ≠ '.') with
  | _ :: c :: cs => (c :: cs).reverse
  | _ => name

/-- The path with another extension on its last name. The dot before an extension stays when the
extension goes, so a stem that is a dot becomes the name of the folder above, which takes none. -/
def withExtension (path extension : String) : String :=
  let reversed := path.toList.reverse
  let name := (reversed.takeWhile (· ≠ '/')).reverse
  let folder := (reversed.dropWhile (· ≠ '/')).reverse
  match stem name with
  | ['.'] => String.ofList (folder ++ ['.', '.'])
  | kept => String.ofList (folder ++ kept ++ '.' :: extension.toList)

end Reconcile.Storage.Path
