-- Cutting a text at a separator.

namespace JsonModel

/-- The parts of a text between the separators. There is one part more than separators. -/
def splitAt (separator : Char) : List Char → List (List Char)
  | [] => [[]]
  | c :: cs =>
    if c = separator then [] :: splitAt separator cs
    else match splitAt separator cs with
      | [] => [[c]]
      | part :: parts => (c :: part) :: parts

/-- The parts joined with a separator between them. -/
def joinWith (separator : List Char) : List (List Char) → List Char
  | [] => []
  | [part] => part
  | part :: parts => part ++ separator ++ joinWith separator parts

/-- Texts joined with a separator between them. -/
def joinTexts (separator : String) (texts : List String) : String :=
  String.ofList (joinWith separator.toList (texts.map String.toList))

end JsonModel
