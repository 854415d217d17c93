-- Mail addresses, identifiers and connection texts.
import JsonModel.Text.Blank
import JsonModel.Text.Digits
import JsonModel.Text.Split
import JsonModel.Text.Units

namespace JsonModel

/-! ## Mail addresses -/

/-- A character of the part of a mail address before the sign, points apart. -/
def isMailCharacter (c : Char) : Bool :=
  isBasicAlphanumeric c || c == '_' || c == '\'' || c == '+' || c == '-'

/-- The part of a mail address before the sign: words with single points between them. It does not
end with an apostrophe. -/
def isMailbox (cs : List Char) : Bool :=
  (splitAt '.' cs).all (fun word => !word.isEmpty && word.all isMailCharacter)
    && cs.getLast? != some '\''

/-- A label of a domain that is not its last. -/
def isDomainLabel (cs : List Char) : Bool :=
  (cs.head?.map isBasicAlphanumeric).getD false && cs.all fun c => isBasicAlphanumeric c || c == '-'

/-- A domain of at least two labels, the last of at least two letters. -/
def isMailDomain (cs : List Char) : Bool :=
  match (splitAt '.' cs).reverse with
  | top :: label :: labels =>
    2 ≤ top.length && top.all isBasicLetter && (label :: labels).all isDomainLabel
  | _ => false

/-- A mail address. -/
def isEmail (cs : List Char) : Bool :=
  match splitAt '@' cs with
  | [mailbox, domain] => isMailbox mailbox && isMailDomain domain
  | _ => false

/-! ## Identifiers -/

/-- The identifier whose digits are all one character, with a hyphen after each group. -/
def uniformUuid (c : Char) : List Char :=
  joinWith ['-'] ([8, 4, 4, 4, 12].map fun n => List.replicate n c)

/-- A universally unique identifier: one of version 1 to 8 and of the common variant, or the one of
zeros or the one of small letters f. -/
def isUuid (cs : List Char) : Bool :=
  cs == uniformUuid '0' || cs == uniformUuid 'f' ||
    match splitAt '-' cs with
    | [a, b, v :: c, w :: d, e] =>
      [a, b, c, d, e].map List.length == [8, 4, 3, 3, 12] && (a ++ b ++ c ++ d ++ e).all isHexDigit
        && '1' ≤ v && v ≤ '8' && ['8', '9', 'a', 'b', 'A', 'B'].contains w
    | _ => false

/-- The version of an identifier is the fifteenth 16-bit unit of its text. -/
def hasVersion (version : Char) (cs : List Char) : Bool :=
  (cs.flatMap unitsOf)[14]? == some version.toNat

/-! ## Connection texts -/

/-- The text after a word, letters of the basic alphabet being compared without their case. -/
def afterWord? : List Char → List Char → Option (List Char)
  | [], rest => some rest
  | _ :: _, [] => none
  | c :: word, d :: rest => if c = d.toLower then afterWord? word rest else none

/-- The text after a word if it comes, and the text itself otherwise. -/
def dropWord (word : String) (cs : List Char) : List Char := (afterWord? word.toList cs).getD cs

/-- What follows the scheme of a connection text: a mark and something without white space. -/
def isConnectionTarget (cs : List Char) : Bool :=
  match afterWord? "://".toList cs with
  | some rest => !rest.isEmpty && !rest.any isBlank
  | none => false

/-- The text after a plus sign and the name of a driver, if they come. -/
def dropDriver : List Char → List Char
  | '+' :: cs =>
    match cs.span isBasicAlphanumeric with
    | ([], _) => '+' :: cs
    | (_, rest) => rest
  | cs => cs

/-- A connection text of a Postgres database. -/
def isPostgresDsn (cs : List Char) : Bool :=
  match afterWord? "postgres".toList cs with
  | some rest => isConnectionTarget (dropDriver (dropWord "ql" rest))
  | none => false

/-- A connection text of a MongoDB database. -/
def isMongoDsn (cs : List Char) : Bool :=
  match afterWord? "mongodb".toList cs with
  | some rest => isConnectionTarget (dropWord "+srv" rest)
  | none => false

end JsonModel
