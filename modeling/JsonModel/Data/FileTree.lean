-- A tree of files, and the way of a path through it. Names are followed one by one:
-- each step of a path needs a directory to start from.
import JsonModel.Data.Disk
import JsonModel.Json.Members

namespace JsonModel

/-- What can stand under a name. -/
inductive FileTree
  | file (content : String)
  /-- A device that has nothing to read. -/
  | device
  | directory (entries : List (String × FileTree))

namespace FileTree

/-! ## Planting -/

/-- The entries of a directory; none of anything else. -/
def entries : FileTree → List (String × FileTree)
  | directory entries => entries
  | _ => []

/-- The tree with another one planted at the end of some names. Missing directories on the way are
made, and a directory that is there already keeps its entries. -/
def plant (planted : FileTree) : List String → FileTree → FileTree
  | [], tree =>
    match planted, tree with
    | directory [], directory entries => directory entries
    | _, _ => planted
  | name :: names, tree =>
    let below := (Members.get? name tree.entries).getD (directory [])
    directory (Members.erase name tree.entries ++ [(name, plant planted names below)])

/-! ## Walking -/

/-- A place in a tree: what stands there, and the directories above it, the nearest first. -/
structure Spot where
  here : FileTree
  above : List FileTree

/-- The longest name, in bytes. -/
def longestName : Nat := 255

/-- The longest path, in bytes. -/
def longestPath : Nat := 4095

/-- The place that a name leads to from a place. The root is above itself. -/
def Spot.step (spot : Spot) (name : String) : Except FileFault Spot :=
  match spot.here with
  | directory entries =>
    if name = "" ∨ name = "." then .ok spot
    else if name = ".." then
      match spot.above with
      | [] => .ok spot
      | parent :: above => .ok ⟨parent, above⟩
    else if longestName < name.utf8ByteSize then .error .nameTooLong
    else match Members.get? name entries with
      | some found => .ok ⟨found, spot.here :: spot.above⟩
      | none => .error .notFound
  | _ => .error .notDirectory

/-- The place that a path leads to. A path that is not absolute starts at the current directory. -/
def find (root : FileTree) (current : List String) (path : String) : Except FileFault Spot :=
  if path = "" then .error .notFound
  else if path.toList.contains (Char.ofNat 0) then .error .badPath
  else if longestPath < path.utf8ByteSize then .error .nameTooLong
  else
    let way := if isAbsolute path then pathNames path else current ++ pathNames path
    way.foldlM Spot.step ⟨root, []⟩

/-- The text at a place. -/
def Spot.read (spot : Spot) : Except FileFault String :=
  match spot.here with
  | file content => .ok content
  | device => .ok ""
  | directory _ => .error .isDirectory

/-- There is a file at a place. -/
def Spot.isFile (spot : Spot) : Bool :=
  match spot.here with
  | file _ => true
  | _ => false

/-- There is a directory at a place. -/
def Spot.isDirectory (spot : Spot) : Bool :=
  match spot.here with
  | directory _ => true
  | _ => false

/-- A path leads to a place that passes a test. -/
def leadsTo (root : FileTree) (current : List String) (test : Spot → Bool) (path : String) : Bool :=
  match root.find current path with
  | .ok spot => test spot
  | .error _ => false

/-- The tree as it is seen from a directory. -/
def disk (root : FileTree) (current : List String) : Disk where
  current := "/" ++ joinTexts "/" current
  read := fun path => do (← root.find current path).read
  places := ⟨root.leadsTo current Spot.isFile, root.leadsTo current Spot.isDirectory⟩

end FileTree
end JsonModel
