-- Title case: each run of letters starts with a capital, and the rest of the run
-- is in lower case.
import JsonModel.Text.LetterCase

namespace JsonModel

/-- The next letter that is not passed over has a case. -/
def nextIsCased : List Char → Bool
  | [] => false
  | c :: cs => if isPassedOver c then nextIsCased cs else isCased c

/-- The lower case of a text of letters, given whether the last letter before it that is not
passed over has a case. A capital sigma at the end of a word takes its final form. -/
def lowerFrom (afterCased : Bool) : List Char → List Char
  | [] => []
  | c :: cs =>
    let form :=
      if c = 'Σ' then (if afterCased ∧ nextIsCased cs = false then ['ς'] else ['σ'])
      else lowerCase c
    form ++ lowerFrom (if isPassedOver c then afterCased else isCased c) cs

/-- A run of letters in title case. -/
def titleWord : List Char → List Char
  | [] => []
  | c :: cs => upperCase c ++ lowerFrom false cs

/-- The text in title case, `word` being the letters read since the last other character, the
last of them first. -/
def titleFrom (word : List Char) : List Char → List Char
  | [] => titleWord word.reverse
  | c :: cs =>
    if isLetter c then titleFrom (c :: word) cs
    else titleWord word.reverse ++ c :: titleFrom [] cs

/-- The name with each run of letters in title case. -/
def titleCase (name : String) : String := String.ofList (titleFrom [] name.toList)

end JsonModel
