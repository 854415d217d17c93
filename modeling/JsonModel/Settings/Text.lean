-- Settings in a text: each stands behind its label, and all other text is passed
-- over. White space may stand between a label and its word, line breaks too.
import JsonModel.Data.Disk
import JsonModel.Settings.Basic
import JsonModel.Text.Blank

namespace JsonModel

/-! ## Labels -/

/-- What follows a label at the start of a text. The label is in lower case, the text in any. -/
def afterLabel? : List Char → List Char → Option (List Char)
  | [], cs => some cs
  | l :: ls, c :: cs => if c.toLower = l then afterLabel? ls cs else none
  | _ :: _, [] => none

/-- The run of word characters behind a label that starts a text, if there is one. -/
def wordAfter? (label : List Char) (isWord : Char → Bool) (cs : List Char) :
    Option (List Char) := do
  let rest ← afterLabel? label cs
  match (rest.dropWhile isBlank).takeWhile isWord with
  | [] => none
  | word => some word

/-- The first word behind a label, anywhere in a text. A label without a word is passed over. -/
def labelled? (label : List Char) (isWord : Char → Bool) : List Char → Option (List Char)
  | [] => none
  | c :: cs => (wordAfter? label isWord (c :: cs)).or (labelled? label isWord cs)

/-! ## Settings -/

/-- A character of a plain word. -/
def isWordCharacter (c : Char) : Bool := isBasicAlphanumeric c || c == '_'

/-- The plain word behind a label, in lower case. -/
def plainWord? (label : String) (cs : List Char) : Option String :=
  (labelled? label.toList isWordCharacter cs).map fun word => String.ofList (word.map Char.toLower)

/-- The words that mean yes. -/
def yesWords : List String := ["yes", "true", "on"]

namespace Settings

/-- The settings that a text makes. What it does not set stays at its default, and a word that is no
mode sets nothing. -/
def ofText (text : String) : Settings :=
  let cs := text.toList
  let standard : Settings := {}
  { extra := ((plainWord? "**extra fields:**" cs).bind ExtraMode.ofName?).getD standard.extra
    frozen := ((plainWord? "**frozen:**" cs).map yesWords.contains).getD standard.frozen
    module := ((labelled? "**module:**".toList (fun c => !isBlank c) cs).map String.ofList).getD
      standard.module }

/-! ## Files -/

/-- The names of the settings file within a project. -/
def fileNames : List String := ["config", "schemodel.md"]

/-- The settings of the project at a path: the default ones if it has no settings file. -/
def load (disk : Disk) (project : String) : Except FileError Settings :=
  match disk.fileText (joinPath project fileNames) with
  | .ok text => .ok (ofText text)
  | .error e => if e.fault = .notFound then .ok {} else .error e

end Settings
end JsonModel
