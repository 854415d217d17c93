-- The outlines of types without parts: the JSON Schema keywords that say what such
-- a type takes in.
import JsonModel.Outline.Pattern
import JsonModel.Schema.Record

namespace JsonModel

/-- The keywords of a schema, in order. -/
abbrev Outline := Members Json

/-! ## Primitive types -/

/-- A bound raised to another one, if that is higher. -/
def raised (bound other : Option Number) : Option Number :=
  match other with
  | some n => if (bound.getD (.infinite true)).lt n then some n else bound
  | none => bound

/-- A bound lowered to another one, if that is lower. -/
def lowered (bound other : Option Number) : Option Number :=
  match other with
  | some n => if n.lt (bound.getD (.infinite false)) then some n else bound
  | none => bound

/-- The one of two bounds that counts: the strict one, if it is at least as tight. -/
def boundOutline (name strictName : String) (bound strict : Option Number)
    (tighter : Number → Number → Bool) : Outline :=
  match strict, bound with
  | some s, some b => if tighter s b then [(strictName, .num s)] else [(name, .num b)]
  | some s, none => [(strictName, .num s)]
  | none, bound => optionalMember name (bound.map .num)

/-- The step of a number, without its sign. Zero and numbers that are not finite are no steps. -/
def stepOutline (step : Option Number) : Outline :=
  match step with
  | some n => if n.isFinite && !n.same .zero then [("multipleOf", .num n.abs)] else []
  | none => []

/-- The limits of a number that lies within some bounds already. -/
def Limits.numberOutline (limits : Limits) (least most : Option Number) : Outline :=
  boundOutline "minimum" "exclusiveMinimum" (raised least limits.atLeast)
      (raised none limits.above) (fun s b => b.le s)
    ++ boundOutline "maximum" "exclusiveMaximum" (lowered most limits.atMost)
      (lowered none limits.below) (fun s b => s.le b)
    ++ stepOutline limits.multipleOf

/-- The limits of the length of a text. -/
def Limits.lengthOutline (limits : Limits) : Outline :=
  optionalMember "minLength" ((raised none limits.minLength).map .num)
    ++ optionalMember "maxLength" ((lowered none limits.maxLength).map .num)

/-- The keyword of a type. -/
def typeOutline (name : String) : Outline := [("type", .str name)]

/-- What a primitive type takes in. -/
def Primitive.outline (kind : Primitive) (limits : Limits) : Outline :=
  match kind with
  | .string => typeOutline "string" ++ limits.lengthOutline
  | .integer =>
    typeOutline "integer" ++ limits.numberOutline (some .minSafe) (some .maxSafe)
  | .number => typeOutline "number" ++ limits.numberOutline none none
  | .boolean => typeOutline "boolean"
  | .null => typeOutline "null"
  | .any => []

/-! ## Semantic types -/

/-- A text of a form that has a pattern. -/
def patternOutline (pattern : String) : Outline :=
  typeOutline "string" ++ [("pattern", .str pattern)]

/-- A text of a form that has a name and a pattern. -/
def formOutline (format pattern : String) : Outline :=
  typeOutline "string" ++ [("format", .str format), ("pattern", .str pattern)]

/-- One of some outlines. -/
def anyOfOutline (outlines : List Outline) : Outline := [("anyOf", .arr (outlines.map .obj))]

def ipv4Outline : Outline := formOutline "ipv4" Pattern.ipv4

def ipv6Outline : Outline := formOutline "ipv6" Pattern.ipv6

/-- An address or a network. -/
def networkOutline : Outline :=
  anyOfOutline [ipv4Outline, ipv6Outline, formOutline "cidrv4" Pattern.cidrv4,
    formOutline "cidrv6" Pattern.cidrv6]

/-- What a semantic type takes in. -/
def Semantic.outline : Semantic → Outline
  | .base64Bytes =>
    typeOutline "string" ++ [("format", .str "base64"), ("contentEncoding", .str "base64"),
      ("pattern", .str Pattern.base64)]
  | .strictBytes => []
  | .date => formOutline "date" Pattern.date
  | .time => patternOutline Pattern.time
  | .dateTime => patternOutline Pattern.dateTime
  | .duration => formOutline "duration" Pattern.duration
  | .directoryPath | .filePath | .jsonString | .secretString | .secretBytes =>
    typeOutline "string"
  | .path => typeOutline "string" ++ [("minLength", .num (.ofNat 1))]
  | .email => formOutline "email" Pattern.email
  | .ipv4 => ipv4Outline
  | .ipv6 => ipv6Outline
  | .ipAnyAddress => anyOfOutline [ipv4Outline, ipv6Outline]
  | .ipAnyInterface | .ipAnyNetwork => networkOutline
  | .postgresDsn => patternOutline Pattern.postgresDsn
  | .mongoDsn => patternOutline Pattern.mongoDsn
  | .uri | .httpUri | .fileUri => typeOutline "string" ++ [("format", .str "uri")]
  | .uuid | .uuid1 | .uuid3 | .uuid4 | .uuid5 => formOutline "uuid" Pattern.uuid

end JsonModel
