-- The program: reads the files that its arguments name, and prints what they come to.
import JsonModel.Bytes.Utf8
import JsonModel.Command.Run

namespace JsonModel

mutual

/-- The texts in a document, names of members aside. -/
def Json.texts : Json → List String
  | .str s => [s]
  | .arr items => Json.textsOfItems items
  | .obj ms => Json.textsOfMembers ms
  | _ => []

/-- The texts in some items. -/
def Json.textsOfItems : List Json → List String
  | [] => []
  | item :: items => item.texts ++ Json.textsOfItems items

/-- The texts in some members. -/
def Json.textsOfMembers : List (String × Json) → List String
  | [] => []
  | (_, value) :: ms => value.texts ++ Json.textsOfMembers ms

end

/-- The fault that an error at a path stands for. -/
def faultOf (path : String) : IO.Error → FileFault
  | .inappropriateType none .. => .isDirectory
  | .inappropriateType (some _) .. => .notDirectory
  | .invalidArgument .. => if path.toList.contains (Char.ofNat 0) then .badPath else .nameTooLong
  | .permissionDenied .. => .denied
  | _ => .notFound

/-- What reading each path comes to. -/
abbrev Readings := List (String × Except FileFault String)

/-- What reading a path comes to. -/
def readPath (path : String) : IO (String × Except FileFault String) := do
  try return (path, .ok (Utf8.decode (← IO.FS.readBinFile path)))
  catch e => return (path, .error (faultOf path e))

namespace Readings

/-- The texts in the documents that were read. -/
def texts (readings : Readings) : List String :=
  readings.flatMap fun (_, reading) =>
    match reading.toOption.map Json.read with
    | some (.ok document) => document.texts
    | _ => []

/-- What reading a path came to. -/
def find (readings : Readings) (path : String) : Except FileFault String :=
  (List.lookup path readings).getD (.error .notFound)

/-- The file system as far as it was read. -/
def disk (current : String) (readings : Readings) : Disk where
  current
  read := readings.find
  places := {
    isFile := fun path => readings.find path matches .ok _
    isDirectory := fun path => readings.find path matches .error .isDirectory }

end Readings

/-- Runs the command that some arguments ask for. The files that the data names are looked at too. -/
def runProgram (arguments : List String) : IO UInt32 := do
  let current := toString (← IO.currentDir)
  let files ← (joinPath current Settings.fileNames :: arguments).mapM readPath
  let named ← (Readings.texts files).mapM readPath
  let printout := run (Readings.disk current (files ++ named)) arguments
  IO.eprint printout.errors
  IO.print printout.output
  return printout.exitCode.toUInt32

end JsonModel

/-- The program. -/
def main (arguments : List String) : IO UInt32 := JsonModel.runProgram arguments
