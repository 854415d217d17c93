-- The checks of types without parts.
import JsonModel.Bytes.Base64
import JsonModel.Check.Outcome
import JsonModel.Data.Places
import JsonModel.Format.Calendar
import JsonModel.Format.Identifier
import JsonModel.Format.Link
import JsonModel.Json.Reader
import JsonModel.Schema.Descriptor

namespace JsonModel

/-! ## Primitive types -/

/-- The fault of a bound, if there is a bound and the value does not keep it. -/
def boundFault (bound : Option Number) (keeps : Number → Bool) (fault : Number → Fault) :
    List Fault :=
  match bound with
  | some bound => if keeps bound then [] else [fault bound]
  | none => []

/-- The faults of a finite number, in the order of the bounds. -/
def Limits.numberFaults (limits : Limits) (n : Number) : List Fault :=
  boundFault limits.atLeast (fun bound => bound.le n) (.belowRange · true)
    ++ boundFault limits.above (fun bound => bound.lt n) (.belowRange · false)
    ++ boundFault limits.atMost (fun bound => n.le bound) (.aboveRange · true)
    ++ boundFault limits.below (fun bound => n.lt bound) (.aboveRange · false)
    ++ boundFault limits.multipleOf (fun step => n.isMultipleOf step) .notMultiple

/-- The faults of the length of a value, if it has one. -/
def Limits.lengthFaults (limits : Limits) (v : Value) : List Fault :=
  match v.length? with
  | some (measure, length) =>
    boundFault limits.minLength (fun bound => bound.le length) (.tooShort measure)
      ++ boundFault limits.maxLength (fun bound => length.le bound) (.tooLong measure)
  | none => []

/-- The fault of a whole number that other whole numbers cannot be told from. -/
def safeRangeFaults (n : Number) : List Fault :=
  if Number.maxSafe.lt n then [.aboveSafeRange]
  else if n.lt .minSafe then [.belowSafeRange]
  else []

/-- The fault of a value that is not of the expected type. -/
def wrongType (expected : Expected) (v : Value) : Outcome :=
  .reject v (.wrongType expected v.kindName)

/-- A text whose length keeps the limits. The length is looked at even if the value is no text. -/
def haveLength (limits : Limits) (v : Value) : Outcome :=
  match v with
  | .str _ => .keep v (limits.lengthFaults v)
  | _ => .keep v (.wrongType .string v.kindName :: limits.lengthFaults v)

/-- The check of a primitive type. -/
def Primitive.check (kind : Primitive) (limits : Limits) (v : Value) : Outcome :=
  match kind, v with
  | .string, _ => haveLength limits v
  | .integer, .num n =>
    if !n.isFinite then wrongType .number v
    else if !n.isWhole then wrongType .int v
    else .keep v (safeRangeFaults n ++ limits.numberFaults n)
  | .integer, _ => wrongType .number v
  | .number, .num n => if n.isFinite then .keep v (limits.numberFaults n) else wrongType .number v
  | .number, _ => wrongType .number v
  | .boolean, .bool _ => .accept v
  | .boolean, _ => wrongType .boolean v
  | .null, .null => .accept v
  | .null, _ => wrongType .null v
  | .any, _ => .accept v

/-! ## Semantic types -/

/-- A check of a text. -/
def onText (v : Value) (check : String → Outcome) : Outcome :=
  match v with
  | .str s => check s
  | _ => wrongType .string v

/-- The fault unless a condition holds. -/
def faultUnless (holds : Bool) (fault : Fault) : List Fault := if holds then [] else [fault]

/-- A text that has to have a form. -/
def haveForm (v : Value) (form : String) (test : List Char → Bool) : Outcome :=
  onText v fun s => .keep v (faultUnless (test s.toList) (.badForm form))

/-- A text that has to have one of some forms. -/
def haveSomeForm (v : Value) (tests : List (List Char → Bool)) : Outcome :=
  match v with
  | .str s => if tests.any fun test => test s.toList then .accept v else .reject v .noVariant
  | _ => .reject v .noVariant

/-- A text that is changed into another value. A text that cannot be changed halts the check. -/
def changed (v : Value) (change : String → Except Fault Value) : Outcome :=
  match v with
  | .str s =>
    match change s with
    | .ok value => .accept value
    | .error fault => { Outcome.reject v fault with halted := true }
  | _ => { wrongType .string v with halted := true }

/-- The text of a link as it comes out: without white space at its ends, tabs and line breaks. -/
def tidyLink (s : String) : String :=
  String.ofList ((trimBlank s.toList).filter fun c => !(c == '\t' || c == '\n' || c == '\r'))

/-- A link of one of some schemes, if there are some. The scheme is looked at even where the text is
no link. -/
def haveLink (v : Value) (schemes : Option (List String)) (refusal : String) : Outcome :=
  onText v fun s =>
    let isLink := (Link.schemeOf? (trimBlank s.toList)).isSome
    let out := if isLink then tidyLink s else s
    let allowed :=
      match schemes with
      | some schemes => Link.hasScheme schemes out.toList
      | none => true
    .keep (.str out) (faultUnless isLink (.badForm "URL") ++ faultUnless allowed (.refused refusal))

/-- An identifier of one version. The version is looked at even where the text is no identifier. -/
def haveUuidVersion (v : Value) (version : Char) : Outcome :=
  onText v fun s =>
    .keep v (faultUnless (isUuid s.toList) (.badForm "UUID")
      ++ faultUnless (hasVersion version s.toList)
        (.refused ("UUID version " ++ String.ofList [version] ++ " expected")))

/-- What is said of a link whose scheme is not one of a list. -/
def schemeRefusal (schemes : List String) : String :=
  "URL scheme should be one of: " ++ ", ".intercalate schemes

/-- The check of a semantic type. -/
def Semantic.check (places : Places) (kind : Semantic) (limits : Limits) (v : Value) : Outcome :=
  match kind with
  | .base64Bytes =>
    changed v fun s =>
      match Base64.decode? s with
      | some content => .ok (.bytes .made content)
      | none => .error (.badForm "base64-encoded string")
  | .strictBytes =>
    match v with
    | .bytes .. => .accept v
    | _ => wrongType .bytes v
  | .date => haveForm v "ISO date" isDate
  | .time => haveForm v "ISO time" isTime
  | .dateTime => haveForm v "ISO datetime" isDateTime
  | .duration => haveForm v "ISO duration" isDuration
  | .directoryPath =>
    onText v fun s =>
      .keep v (faultUnless (places.isDirectory s) (.refused "Path does not point to a directory"))
  | .filePath =>
    onText v fun s =>
      .keep v (faultUnless (places.isFile s) (.refused "Path does not point to a file"))
  | .path => haveLength { minLength := some (.ofNat 1) } v
  | .email => haveForm v "email address" isEmail
  | .ipv4 => haveForm v "IPv4 address" isIpv4
  | .ipv6 => haveForm v "IPv6 address" isIpv6
  | .ipAnyAddress => haveSomeForm v [isIpv4, isIpv6]
  | .ipAnyInterface => haveSomeForm v [isIpv4, isIpv6, isCidrv4, isCidrv6]
  | .ipAnyNetwork => haveSomeForm v [isIpv4, isIpv6, isCidrv4, isCidrv6]
  | .jsonString =>
    changed v fun s =>
      match Json.read s with
      | .ok j => .ok (.makeJson j)
      | .error _ => .error .badJson
  | .postgresDsn => haveForm v "Postgres connection string" isPostgresDsn
  | .mongoDsn => haveForm v "MongoDB connection string" isMongoDsn
  | .secretString => changed v fun s => .ok (.secretText s)
  | .secretBytes => changed v fun s => .ok (.secretBytes s.toUTF8.toList)
  | .uri => haveLink v limits.schemes (schemeRefusal (limits.schemes.getD []))
  | .httpUri => haveLink v (some ["http", "https"]) "URL scheme should be 'http' or 'https'"
  | .fileUri => haveLink v (some ["file"]) "URL scheme should be 'file'"
  | .uuid => haveForm v "UUID" isUuid
  | .uuid1 => haveUuidVersion v '1'
  | .uuid3 => haveUuidVersion v '3'
  | .uuid4 => haveUuidVersion v '4'
  | .uuid5 => haveUuidVersion v '5'

end JsonModel
