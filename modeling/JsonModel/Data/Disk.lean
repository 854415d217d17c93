-- What can be read of a file system: the texts of files, and which paths lead to
-- files and to directories.
import JsonModel.Data.Places
import JsonModel.Text.Split

namespace JsonModel

/-! ## Paths -/

/-- The names of a path, with empty names where slashes stand at an end or in a row. -/
def pathNames (path : String) : List String :=
  (splitAt '/' path.toList).map String.ofList

/-- The path starts at the root. -/
def isAbsolute (path : String) : Bool := path.toList.head? == some '/'

/-- A name put on the names before it, the last of them first. The name of the parent takes the last
name away, unless that is the name of a parent too. At the root there is no parent. -/
def pushName (absolute : Bool) (names : List String) (name : String) : List String :=
  if name = "" ∨ name = "." then names
  else if name = ".." then
    match names with
    | [] => if absolute then [] else [".."]
    | last :: rest => if last = ".." then ".." :: last :: rest else rest
  else name :: names

/-- The path from one path on to some names, without detours. -/
def joinPath (path : String) (names : List String) : String :=
  let absolute := isAbsolute path
  let kept := ((pathNames path ++ names).foldl (pushName absolute) []).reverse
  (if absolute then "/" else "") ++ joinTexts "/" kept

/-! ## Reading -/

/-- Why a path cannot be read. -/
inductive FileFault
  | notFound
  | notDirectory
  | nameTooLong
  | isDirectory
  /-- The file may not be read. -/
  | denied
  /-- No path has the character zero. -/
  | badPath
deriving DecidableEq

/-- A path that cannot be read. -/
structure FileError where
  path : String
  fault : FileFault

/-- The text of an error. -/
def FileError.message (e : FileError) : String :=
  match e.fault with
  | .notFound => "ENOENT: no such file or directory, open '" ++ e.path ++ "'"
  | .notDirectory => "ENOTDIR: not a directory, open '" ++ e.path ++ "'"
  | .nameTooLong => "ENAMETOOLONG: name too long, open '" ++ e.path ++ "'"
  | .isDirectory => "EISDIR: illegal operation on a directory, read"
  | .denied => "EACCES: permission denied, open '" ++ e.path ++ "'"
  | .badPath =>
    "The argument 'path' must be a string, Uint8Array, or URL without null bytes. Received '"
      ++ joinTexts "\\x00" ((splitAt (Char.ofNat 0) e.path.toList).map String.ofList) ++ "'"

/-- A file system as it is seen from a directory. -/
structure Disk where
  /-- The path of the directory. -/
  current : String
  read : String → Except FileFault String
  places : Places

/-- The text of the file at a path. -/
def Disk.fileText (disk : Disk) (path : String) : Except FileError String :=
  (disk.read path).mapError fun fault => ⟨path, fault⟩

end JsonModel
