-- The format keyword of strings: the type that a format narrows a string to, with
-- the keywords beside it taken into account.
import JsonModel.Schema.Descriptor

namespace JsonModel

/-- The texts of a list, other entries left out; none if it is no list. -/
def textsOf (value : Option Json) : List String :=
  match value with
  | some (.arr items) => items.filterMap Json.str?
  | _ => []

namespace StringFormat

/-- The type that a format stands for by itself. -/
def type : StringFormat → TypeDescriptor
  | base64 => .semantic .base64Bytes
  | binary => .semantic .strictBytes
  | date => .semantic .date
  | time => .semantic .time
  | dateTime => .semantic .dateTime
  | duration => .semantic .duration
  | directoryPath => .semantic .directoryPath
  | filePath => .semantic .filePath
  | path => .semantic .path
  | email => .semantic .email
  | ipv4 => .semantic .ipv4
  | ipv6 => .semantic .ipv6
  | ipvAnyAddress => .semantic .ipAnyAddress
  | ipvAnyInterface => .semantic .ipAnyInterface
  | ipvAnyNetwork => .semantic .ipAnyNetwork
  | jsonString => .semantic .jsonString
  | multiHostUri => .union [.semantic .postgresDsn, .semantic .mongoDsn]
  | password => .semantic .secretString
  | uri => .semantic .uri
  | uuid => .semantic .uuid
  | uuid1 => .semantic .uuid1
  | uuid3 => .semantic .uuid3
  | uuid4 => .semantic .uuid4
  | uuid5 => .semantic .uuid5

/-- The type and the limits of a format on a node. A password that is only written is bytes, and
the schemes beside a link narrow it. -/
def narrow (format : StringFormat) (node : Members Json) : TypeDescriptor × Limits :=
  match format with
  | binary => (type binary, { strict := true })
  | password =>
    match node.get? "writeOnly" with
    | some (.bool true) => (.semantic .secretBytes, {})
    | _ => (type password, {})
  | uri =>
    match textsOf (node.get? "scheme") with
    | [] => (type uri, {})
    | ["http"] => (.semantic .httpUri, {})
    | ["file"] => (.semantic .fileUri, {})
    | schemes => (type uri, { schemes := some schemes })
  | format => (type format, {})

end StringFormat
end JsonModel
