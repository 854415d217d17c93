-- Links: texts that name a place by themselves, without another link to start from.
import JsonModel.Format.Host

namespace JsonModel.Link

/-! ## Parts of a link -/

/-- The schemes that need a host, the one of files apart. -/
def hostSchemes : List String := ["http", "https", "ws", "wss", "ftp"]

/-- A character of a scheme after its first. -/
def isSchemeCharacter (c : Char) : Bool :=
  isBasicAlphanumeric c || c == '+' || c == '-' || c == '.'

/-- The scheme in lower case, and the text after its colon. -/
def scheme? (cs : List Char) : Option (String × List Char) :=
  match cs.span isSchemeCharacter with
  | (c :: name, ':' :: rest) =>
    if isBasicLetter c then some (String.ofList ((c :: name).map Char.toLower), rest) else none
  | _ => none

/-- A slash; before a host the other slash counts too. -/
def isSlash (either : Bool) (c : Char) : Bool := c == '/' || (either && c == '\\')

/-- The text up to the path, the query or the fragment. -/
def authority (either : Bool) (cs : List Char) : List Char :=
  cs.takeWhile fun c => !(isSlash either c || c == '?' || c == '#')

/-- The host up to the colon of the port; a colon in brackets is one of an address. -/
def splitPort (inBrackets : Bool) : List Char → List Char × Option (List Char)
  | [] => ([], none)
  | c :: cs =>
    if c = ':' ∧ inBrackets = false then ([], some cs)
    else
      let inBrackets := if c = '[' then true else if c = ']' then false else inBrackets
      let (host, port) := splitPort inBrackets cs
      (c :: host, port)

/-- A port: digits that write a number below 65536, or nothing. -/
def isPort (cs : List Char) : Bool := cs.all isDecimalDigit && digitsValue 10 cs < 65536

/-- What stands between the slashes and the path: a name with a sign after it if wanted, a host and
a port if wanted. Without a name and a port the host may be missing, if the scheme needs none. -/
def isAuthority (needsHost : Bool) (cs : List Char) : Bool :=
  let parts := splitAt '@' cs
  let target := parts.getLast?.getD []
  let (host, port) := splitPort false target
  if target.isEmpty then parts.length == 1 && !needsHost
  else match port with
    | some port => !host.isEmpty && Host.isHost needsHost host && isPort port
    | none => Host.isHost needsHost host

/-- A letter of a drive with its mark. -/
def isDrive : List Char → Bool
  | [c, mark] => isBasicLetter c && (mark == ':' || mark == '|')
  | _ => false

/-- What follows the scheme of files. A host stands between the second and the third slash. -/
def isFileTarget : List Char → Bool
  | a :: b :: rest =>
    if isSlash true a && isSlash true b then
      let host := authority true rest
      host.isEmpty || isDrive host || Host.isHost true host
    else true
  | _ => true

/-! ## Links -/

/-- The text that is read: without controls and blanks at its ends, without tabs and line breaks. -/
def cleaned (cs : List Char) : List Char :=
  let isEdge (c : Char) : Bool := c.toNat ≤ 32
  (((cs.dropWhile isEdge).reverse.dropWhile isEdge).reverse).filter fun c =>
    !(c == '\t' || c == '\n' || c == '\r')

/-- What follows a scheme is a place. -/
def isTarget (scheme : String) (rest : List Char) : Bool :=
  if scheme = "file" then isFileTarget rest
  else if hostSchemes.contains scheme then
    isAuthority true (authority true (rest.dropWhile (isSlash true)))
  else match rest with
    | '/' :: '/' :: rest => isAuthority false (authority false rest)
    | _ => true

/-- The scheme of a text that is a link. -/
def schemeOf? (cs : List Char) : Option String :=
  match scheme? (cleaned cs) with
  | some (scheme, rest) => if isTarget scheme rest then some scheme else none
  | none => none

/-- The text is a link of one of some schemes. -/
def hasScheme (schemes : List String) (cs : List Char) : Bool :=
  ((schemeOf? cs).map schemes.contains).getD false

end JsonModel.Link
