-- Types without the names of the models in them. A node is given a name for what has none, and that
-- name has no say in anything else.
import JsonModel.Proofs.Compile.Rewrite

namespace JsonModel

/-! ## Types without names -/

mutual

/-- A type without the names of the models in it. -/
def TypeDescriptor.unnamed : TypeDescriptor → TypeDescriptor
  | .listOf items => .listOf items.unnamed
  | .union variants => .union (TypeDescriptor.unnamedAll variants)
  | .intersection members => .intersection (TypeDescriptor.unnamedAll members)
  | .composite model => .composite model.unnamed
  | t => t

/-- Type by type. -/
def TypeDescriptor.unnamedAll : List TypeDescriptor → List TypeDescriptor
  | [] => []
  | t :: ts => t.unnamed :: TypeDescriptor.unnamedAll ts

/-- Field by field. -/
def Field.unnamedAll : List Field → List Field
  | [] => []
  | ⟨name, type, required, defaultsToNull, description, examples, limits⟩ :: fields =>
    ⟨name, type.unnamed, required, defaultsToNull, description, examples, limits⟩
      :: Field.unnamedAll fields

/-- A model without its name, and without those of the models in its fields. What it extends is left
as it is. -/
def Definition.unnamed : Definition → Definition
  | ⟨_, base, fields, overrides⟩ => ⟨"", base, Field.unnamedAll fields, overrides⟩

end

/-- A field without the names of the models in its type. -/
def Field.unnamed (f : Field) : Field := { f with type := f.type.unnamed }

theorem unnamedAll_eq_map (ts : List TypeDescriptor) :
    TypeDescriptor.unnamedAll ts = ts.map TypeDescriptor.unnamed := by
  induction ts with
  | nil => rfl
  | cons t ts ih => rw [TypeDescriptor.unnamedAll, ih, List.map_cons]

theorem unnamedAll_fields (fields : List Field) :
    Field.unnamedAll fields = fields.map Field.unnamed := by
  induction fields with
  | nil => rfl
  | cons f fields ih =>
    obtain ⟨_, _, _, _, _, _, _⟩ := f
    rw [Field.unnamedAll, ih, List.map_cons]
    rfl

theorem unnamed_union (ts : List TypeDescriptor) :
    (TypeDescriptor.union ts).unnamed = .union (ts.map TypeDescriptor.unnamed) := by
  rw [TypeDescriptor.unnamed, unnamedAll_eq_map]

theorem unnamed_intersection (ts : List TypeDescriptor) :
    (TypeDescriptor.intersection ts).unnamed = .intersection (ts.map TypeDescriptor.unnamed) := by
  rw [TypeDescriptor.unnamed, unnamedAll_eq_map]

theorem unnamed_composite (name : String) (base fields : List Field) (overrides : Overrides) :
    (TypeDescriptor.composite ⟨name, base, fields, overrides⟩).unnamed =
      .composite ⟨"", base, fields.map Field.unnamed, overrides⟩ := by
  rw [TypeDescriptor.unnamed, Definition.unnamed, unnamedAll_fields]

/-! ## Fields -/

theorem isPrimitive_unnamed (kinds : List Primitive) (t : TypeDescriptor) :
    t.unnamed.isPrimitive kinds = t.isPrimitive kinds := by
  cases t <;> rfl

theorem nullable_unnamed (t : TypeDescriptor) : t.nullable.unnamed = t.unnamed.nullable := by
  cases t with
  | primitive kind => cases kind <;> rfl
  | union ts =>
    have hany : (ts.map TypeDescriptor.unnamed).any TypeDescriptor.isNull =
        ts.any TypeDescriptor.isNull := by
      rw [List.any_map]
      exact any_congr_of_mem fun t _ => isPrimitive_unnamed [.null] t
    rw [unnamed_union]
    unfold TypeDescriptor.nullable
    simp only [hany]
    split
    · exact unnamed_union ts
    · rw [unnamed_union, List.map_append]
      rfl
  | _ => rfl

theorem narrow_unnamed (format : StringFormat) (node : Members Json) :
    (format.narrow node).1.unnamed = (format.narrow node).1 := by
  unfold StringFormat.narrow
  split
  · rfl
  · split <;> rfl
  · split <;> rfl
  · cases format <;> rfl

theorem refine_unnamed (t : TypeDescriptor) (node : Members Json) :
    (refine t.unnamed node).1 = (refine t node).1.unnamed ∧
      (refine t.unnamed node).2 = (refine t node).2 := by
  unfold refine
  simp only [isPrimitive_unnamed]
  split
  · exact ⟨rfl, rfl⟩
  · split
    · split
      · exact ⟨(narrow_unnamed _ _).symm, rfl⟩
      · exact ⟨rfl, rfl⟩
    · exact ⟨rfl, rfl⟩

theorem fieldOf_unnamed (requiredNames : List String) (name : String) (node : Members Json)
    (base : TypeDescriptor) : (fieldOf requiredNames name node base).unnamed =
      fieldOf requiredNames name node base.unnamed := by
  obtain ⟨htype, hlimits⟩ := refine_unnamed base node
  unfold fieldOf Field.unnamed
  rw [htype, hlimits]
  simp only
  split
  · rfl
  · rw [nullable_unnamed]

/-! ## Nodes that are given another name -/

/-- Up to names, a node has the same type in another document, whatever it is called. -/
def TypedUnnamed (root' : Members Json) (node' : Members Json) (t : TypeDescriptor) : Prop :=
  ∀ hint, ∃ t', Settled root' hint node' t' ∧ t'.unnamed = t.unnamed

section

variable {root' : Members Json}

theorem unnamed_nodes {nodes : List (Members Json)} {types : List TypeDescriptor}
    (h : List.Forall₂ (TypedUnnamed root') nodes types) : ∃ types',
      List.Forall₂ (Settled root' none) nodes types' ∧
        types'.map TypeDescriptor.unnamed = types.map TypeDescriptor.unnamed := by
  induction h with
  | nil => exact ⟨[], .nil, rfl⟩
  | cons hhead _ ih =>
    obtain ⟨t', hsettled, ht'⟩ := hhead none
    obtain ⟨types', htypes', hall⟩ := ih
    exact ⟨t' :: types', .cons hsettled htypes', by rw [List.map_cons, List.map_cons, ht', hall]⟩

theorem unnamed_fields {requiredNames : List String} {properties : Members Json}
    {fields : List Field}
    (h : List.Forall₂ (FieldFrom (fun _ => TypedUnnamed root') requiredNames) properties fields) :
    ∃ fields', List.Forall₂ (FieldFrom (Settled root') requiredNames) properties fields' ∧
      fields'.map Field.unnamed = fields.map Field.unnamed := by
  induction h with
  | nil => exact ⟨[], .nil, rfl⟩
  | @cons property _ _ _ hhead _ ih =>
    obtain ⟨child, base, hvalue, hbase, rfl⟩ := hhead
    obtain ⟨base', hsettled, hbase'⟩ := hbase (some (titleCase property.1))
    obtain ⟨fields', hfields', hall⟩ := ih
    refine ⟨fieldOf requiredNames property.1 child base' :: fields',
      .cons ⟨child, base', hvalue, hsettled, rfl⟩ hfields', ?_⟩
    rw [List.map_cons, List.map_cons, fieldOf_unnamed, fieldOf_unnamed, hbase', hall]

end

end JsonModel
