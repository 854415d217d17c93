-- The visit of a schema: where it stops at a node, what it finds there, and where it goes on.
-- A node whose visit has an end can be compiled without fuel, one step at a time.
import JsonModel.Proofs.Document
import JsonModel.Proofs.Traversal

namespace JsonModel

/-! ## Offences and stops -/

/-- What can be wrong with a schema. -/
inductive Offence
  /-- Something that is no object, or a type name that is not supported. -/
  | unsupported (found : Json)
  /-- A reference that misses a segment. -/
  | unresolved (ref segment : String)
deriving BEq

/-- The offence that an error reports. An expansion without end is none. -/
def CompileError.offence? : CompileError → Option Offence
  | .unsupported found _ => some (.unsupported found)
  | .unresolved ref segment => some (.unresolved ref segment)
  | .endless _ => none

/-- One stop of a visit. -/
inductive Stop
  | offence (o : Offence)
  /-- The visit goes on with the stops of this node. -/
  | enter (node : Members Json)

/-- The offence of a stop, if it is one. -/
def Stop.offence? : Stop → Option Offence
  | .offence o => some o
  | .enter _ => none

/-- The node of a stop, if it is entered. -/
def Stop.node? : Stop → Option (Members Json)
  | .offence _ => none
  | .enter node => some node

/-- An object is entered, and anything else is an offence. -/
def stopAt : Json → Stop
  | .obj node => .enter node
  | other => .offence (.unsupported other)

/-- The entries of a list under a keyword. -/
def listUnder (node : Members Json) (keyword : String) : List Json :=
  match node.get? keyword with
  | some (.arr entries) => entries
  | _ => []

/-- The stops at a list of nodes: all entries are looked at before the first one is entered. -/
def entryStops (entries : List Json) : List Stop :=
  ((entries.map stopAt).filterMap Stop.offence?).map .offence
    ++ ((entries.map stopAt).filterMap Stop.node?).map .enter

/-- The properties of a node. -/
def propertiesOf (node : Members Json) : Members Json :=
  match node.get? "properties" with
  | some (.obj properties) => properties
  | _ => []

/-- The stops at the properties of a node: each one is looked at just before it is entered. -/
def propertyStops (node : Members Json) : List Stop :=
  (propertiesOf node).map fun property => stopAt property.2

/-- The stops that the type keyword leads to. -/
def typeStops (node : Members Json) : List Stop :=
  match node.get? "type" with
  | none => []
  | some (.str "array") =>
    match node.get? "items" with
    | some (.obj (item :: rest)) => [.enter (item :: rest)]
    | _ => []
  | some (.str "object") => propertyStops node
  | some (.str name) => if name ∈ nodeTypeNames then [] else [.offence (.unsupported (.str name))]
  | some other => [.offence (.unsupported other)]

/-- The stops at a node: the target of its reference, or else its alternatives, or else its parts,
or else what its type leads to. -/
def stops (root node : Members Json) : List Stop :=
  match reference? node with
  | some ref =>
    match resolveRef ref root with
    | .ok target => [stopAt target]
    | .error e => (e.offence?.map .offence).toList
  | none =>
    if listUnder node "anyOf" ++ listUnder node "oneOf" ≠ [] then
      entryStops (listUnder node "anyOf" ++ listUnder node "oneOf")
    else if listUnder node "allOf" ≠ [] then entryStops (listUnder node "allOf")
    else typeStops node

/-- A visit of a node goes on with another one. -/
def Visits (root node child : Members Json) : Prop := Stop.enter child ∈ stops root node

/-- Every way that a visit takes from a node has an end. -/
def FiniteFrom (root node : Members Json) : Prop := Acc (fun child node => Visits root node child) node

/-- Every way that a visit takes from the properties of a schema has an end: references do not
lead in a circle. -/
def FiniteExpansion (root schema : Members Json) : Prop :=
  ∀ child, Stop.enter child ∈ propertyStops schema → FiniteFrom root child

/-! ## Looking at the entries of a list -/

/-- An entry of a list of nodes, which has to be an object. -/
def entryNode (node : Members Json) : Json → Except CompileError (Members Json)
  | .obj entry => .ok entry
  | other => .error (.unsupported other node)

theorem subNodes_eq (node : Members Json) (keyword : String) :
    subNodes node keyword = (listUnder node keyword).mapM (entryNode node) := by
  unfold subNodes listUnder
  cases node.get? keyword with
  | none => rfl
  | some value =>
    cases value with
    | arr entries =>
      refine mapM_congr fun entry _ => ?_
      cases entry <;> rfl
    | _ => rfl

theorem subNodes_ok_iff {node : Members Json} {keyword : String} {nodes : List (Members Json)} :
    subNodes node keyword = .ok nodes ↔ listUnder node keyword = nodes.map .obj := by
  rw [subNodes_eq, mapM_ok_iff]
  generalize listUnder node keyword = entries
  constructor
  · intro h
    induction h with
    | nil => rfl
    | @cons entry _ _ _ hentry _ ih =>
      cases entry <;> cases hentry
      rw [List.map_cons, ih]
  · rintro rfl
    induction nodes with
    | nil => exact .nil
    | cons node nodes ih => exact .cons rfl ih

theorem mem_entryStops {child : Members Json} {entries : List Json} :
    Stop.enter child ∈ entryStops entries ↔ Json.obj child ∈ entries := by
  unfold entryStops
  rw [List.mem_append]
  constructor
  · rintro (h | h)
    · simp at h
    · simp only [List.mem_map, List.mem_filterMap, Stop.enter.injEq, exists_eq_right] at h
      obtain ⟨stop, ⟨entry, hentry, rfl⟩, hstop⟩ := h
      cases entry <;> cases hstop
      exact hentry
  · intro h
    refine .inr (List.mem_map_of_mem (List.mem_filterMap.mpr ⟨stopAt (.obj child), ?_, rfl⟩))
    exact List.mem_map_of_mem h

theorem mem_propertyStops {child node : Members Json} :
    Stop.enter child ∈ propertyStops node ↔ ∃ name, (name, Json.obj child) ∈ propertiesOf node := by
  unfold propertyStops
  constructor
  · intro h
    obtain ⟨⟨name, value⟩, hmem, hstop⟩ := List.mem_map.mp h
    cases value <;> cases hstop
    exact ⟨name, hmem⟩
  · rintro ⟨name, hmem⟩
    exact List.mem_map.mpr ⟨_, hmem, rfl⟩

/-! ## Where a visit goes on -/

section

variable {root node child : Members Json}

theorem visits_target {ref : String} (href : reference? node = some ref)
    (htarget : resolveRef ref root = .ok (.obj child)) : Visits root node child := by
  unfold Visits stops
  simp [href, htarget, stopAt]

theorem visits_alternative (href : reference? node = none)
    (h : Json.obj child ∈ listUnder node "anyOf" ++ listUnder node "oneOf") :
    Visits root node child := by
  unfold Visits stops
  simp only [href]
  rw [if_pos (List.ne_nil_of_mem h)]
  exact mem_entryStops.mpr h

theorem visits_part (href : reference? node = none)
    (hempty : listUnder node "anyOf" ++ listUnder node "oneOf" = [])
    (h : Json.obj child ∈ listUnder node "allOf") : Visits root node child := by
  unfold Visits stops
  simp only [href]
  rw [if_neg (not_not.mpr hempty), if_pos (List.ne_nil_of_mem h)]
  exact mem_entryStops.mpr h

theorem visits_typed (href : reference? node = none)
    (hempty : listUnder node "anyOf" ++ listUnder node "oneOf" = [])
    (hparts : listUnder node "allOf" = []) (h : Stop.enter child ∈ typeStops node) :
    Visits root node child := by
  unfold Visits stops
  simp only [href]
  rw [if_neg (not_not.mpr hempty), if_neg (not_not.mpr hparts)]
  exact h

end

end JsonModel
