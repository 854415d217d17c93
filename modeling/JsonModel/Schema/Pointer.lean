-- Following a local pointer from the root of a document.
import JsonModel.Number.Literal
import JsonModel.Schema.CompileError
import JsonModel.Text.Split

namespace JsonModel

/-- One step into a document: an own member of an object, or the item of a list whose index the
segment writes as a number. -/
def step? (container : Json) (segment : String) : Option Json :=
  match container with
  | .arr items => (Number.ofText segment).toIndex?.bind fun i => items[i]?
  | .obj ms => Members.get? segment ms
  | _ => none

/-- The value that segments lead to, or the first segment that leads nowhere. -/
def walk (current : Json) : List String → Except String Json
  | [] => .ok current
  | segment :: rest =>
    match step? current segment with
    | some next => walk next rest
    | none => .error segment

/-- The segments of a pointer between its slashes. -/
def pointerSegments (ref : String) : List String :=
  (splitAt '/' ref.toList).map String.ofList

/-- The value that a pointer names. The part before the first slash is not looked at. A pointer
into the definitions starts from them. -/
def resolveRef (ref : String) (root : Members Json) : Except CompileError Json :=
  match pointerSegments ref with
  | "#" :: "$defs" :: name :: rest =>
    match Members.get? "$defs" root with
    | some definitions => (walk definitions (name :: rest)).mapError (.unresolved ref)
    | none => .error (.unresolved ref "$defs")
  | segments => (walk (.obj root) (segments.drop 1)).mapError (.unresolved ref)

end JsonModel
