-- The closed lists of names: primitive kinds, semantic kinds, the format keywords
-- of strings and the ways to treat undeclared keys.

namespace JsonModel

/-! ## Kinds of types -/

/-- What a primitive type accepts. -/
inductive Primitive
  | string | integer | number | boolean | null | any
deriving DecidableEq

namespace Primitive

def all : List Primitive := [string, integer, number, boolean, null, any]

def name : Primitive → String
  | string => "string"
  | integer => "integer"
  | number => "number"
  | boolean => "boolean"
  | null => "null"
  | any => "any"

/-- The kind of a name. -/
def ofName? (name : String) : Option Primitive := all.find? fun kind => kind.name == name

end Primitive

/-- What a string is narrowed to by its format. -/
inductive Semantic
  | base64Bytes | strictBytes
  | date | time | dateTime | duration
  | directoryPath | filePath | path
  | email
  | ipv4 | ipv6 | ipAnyAddress | ipAnyInterface | ipAnyNetwork
  | jsonString
  | postgresDsn | mongoDsn
  | secretString | secretBytes
  | uri | httpUri | fileUri
  | uuid | uuid1 | uuid3 | uuid4 | uuid5
deriving DecidableEq

namespace Semantic

def all : List Semantic :=
  [base64Bytes, strictBytes, date, time, dateTime, duration, directoryPath, filePath, path, email,
    ipv4, ipv6, ipAnyAddress, ipAnyInterface, ipAnyNetwork, jsonString, postgresDsn, mongoDsn,
    secretString, secretBytes, uri, httpUri, fileUri, uuid, uuid1, uuid3, uuid4, uuid5]

def name : Semantic → String
  | base64Bytes => "base64-bytes"
  | strictBytes => "strict-bytes"
  | date => "date"
  | time => "time"
  | dateTime => "date-time"
  | duration => "duration"
  | directoryPath => "directory-path"
  | filePath => "file-path"
  | path => "path"
  | email => "email"
  | ipv4 => "ipv4"
  | ipv6 => "ipv6"
  | ipAnyAddress => "ip-any-address"
  | ipAnyInterface => "ip-any-interface"
  | ipAnyNetwork => "ip-any-network"
  | jsonString => "json-string"
  | postgresDsn => "postgres-dsn"
  | mongoDsn => "mongo-dsn"
  | secretString => "secret-string"
  | secretBytes => "secret-bytes"
  | uri => "uri"
  | httpUri => "http-uri"
  | fileUri => "file-uri"
  | uuid => "uuid"
  | uuid1 => "uuid1"
  | uuid3 => "uuid3"
  | uuid4 => "uuid4"
  | uuid5 => "uuid5"

/-- The kind of a name. -/
def ofName? (name : String) : Option Semantic := all.find? fun kind => kind.name == name

/-- The value that comes out is not the text that went in. -/
def transforms : Semantic → Bool
  | base64Bytes | jsonString | secretString | secretBytes => true
  | _ => false

end Semantic

/-! ## Keywords of a schema -/

/-- The names that the `type` keyword may have. -/
def nodeTypeNames : List String :=
  ["string", "integer", "number", "boolean", "array", "object", "null"]

/-- The names that the `format` keyword of a string may have. -/
inductive StringFormat
  | base64 | binary
  | date | time | dateTime | duration
  | directoryPath | filePath | path
  | email
  | ipv4 | ipv6 | ipvAnyAddress | ipvAnyInterface | ipvAnyNetwork
  | jsonString
  | multiHostUri
  | password
  | uri
  | uuid | uuid1 | uuid3 | uuid4 | uuid5
deriving DecidableEq

namespace StringFormat

def all : List StringFormat :=
  [base64, binary, date, time, dateTime, duration, directoryPath, filePath, path, email, ipv4, ipv6,
    ipvAnyAddress, ipvAnyInterface, ipvAnyNetwork, jsonString, multiHostUri, password, uri,
    uuid, uuid1, uuid3, uuid4, uuid5]

def name : StringFormat → String
  | base64 => "base64"
  | binary => "binary"
  | date => "date"
  | time => "time"
  | dateTime => "date-time"
  | duration => "duration"
  | directoryPath => "directory-path"
  | filePath => "file-path"
  | path => "path"
  | email => "email"
  | ipv4 => "ipv4"
  | ipv6 => "ipv6"
  | ipvAnyAddress => "ipvanyaddress"
  | ipvAnyInterface => "ipvanyinterface"
  | ipvAnyNetwork => "ipvanynetwork"
  | jsonString => "json-string"
  | multiHostUri => "multi-host-uri"
  | password => "password"
  | uri => "uri"
  | uuid => "uuid"
  | uuid1 => "uuid1"
  | uuid3 => "uuid3"
  | uuid4 => "uuid4"
  | uuid5 => "uuid5"

/-- The format of a name. -/
def ofName? (name : String) : Option StringFormat := all.find? fun format => format.name == name

end StringFormat

/-! ## Undeclared keys -/

/-- What happens to the keys of the data that no field declares: they are dropped, reported or
kept. -/
inductive ExtraMode
  | ignore | forbid | allow
deriving DecidableEq

namespace ExtraMode

def all : List ExtraMode := [ignore, forbid, allow]

def name : ExtraMode → String
  | ignore => "ignore"
  | forbid => "forbid"
  | allow => "allow"

/-- The mode of a name. -/
def ofName? (name : String) : Option ExtraMode := all.find? fun mode => mode.name == name

end ExtraMode
end JsonModel
