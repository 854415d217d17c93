-- Parts of types. What goes from all parts of a type to the whole holds of every type, and a model
-- contains the types, fields and models that stand anywhere inside it.
import Mathlib.Logic.Relation
import JsonModel.Schema.Descriptor

namespace JsonModel

/-! ## Induction -/

/-- What goes from the parts of a type to the whole holds of every type. The parts of a model are
the types of its own fields. -/
theorem TypeDescriptor.induction {P : TypeDescriptor → Prop}
    (primitive : ∀ kind, P (.primitive kind)) (semantic : ∀ kind, P (.semantic kind))
    (mapping : P .mapping) (anyList : P .anyList) (listOf : ∀ t, P t → P (.listOf t))
    (union : ∀ ts, (∀ t ∈ ts, P t) → P (.union ts))
    (intersection : ∀ ts, (∀ t ∈ ts, P t) → P (.intersection ts))
    (composite : ∀ d : Definition, (∀ f ∈ d.fields, P f.type) → P (.composite d)) :
    ∀ t : TypeDescriptor, P t := by
  refine @TypeDescriptor.rec P (fun f => P f.type) (fun d => ∀ f ∈ d.fields, P f.type)
    (fun ts => ∀ t ∈ ts, P t) (fun fields => ∀ f ∈ fields, P f.type) primitive semantic mapping
    anyList listOf union intersection composite ?_ ?_ ?_ ?_ ?_ ?_
  · exact fun _ _ _ _ _ _ _ htype => htype
  · exact fun _ _ _ _ _ hfields => hfields
  · exact fun _ h => absurd h List.not_mem_nil
  · exact fun _ _ hfirst hrest => List.forall_mem_cons.mpr ⟨hfirst, hrest⟩
  · exact fun _ h => absurd h List.not_mem_nil
  · exact fun _ _ hfirst hrest => List.forall_mem_cons.mpr ⟨hfirst, hrest⟩

/-! ## Pieces -/

/-- What can stand inside a model. -/
inductive Piece
  | type (t : TypeDescriptor)
  | field (f : Field)
  | model (d : Definition)

namespace Piece

/-- One piece stands directly in another one. -/
inductive Holds : Piece → Piece → Prop
  | items {t : TypeDescriptor} : Holds (.type (.listOf t)) (.type t)
  | variant {ts : List TypeDescriptor} {t : TypeDescriptor} :
      t ∈ ts → Holds (.type (.union ts)) (.type t)
  | member {ts : List TypeDescriptor} {t : TypeDescriptor} :
      t ∈ ts → Holds (.type (.intersection ts)) (.type t)
  | composite {d : Definition} : Holds (.type (.composite d)) (.model d)
  | base {d : Definition} {f : Field} : f ∈ d.base → Holds (.model d) (.field f)
  | field {d : Definition} {f : Field} : f ∈ d.fields → Holds (.model d) (.field f)
  | fieldType {f : Field} : Holds (.field f) (.type f.type)

/-- One piece stands in another one, at any depth, or is that piece. -/
abbrev Contains : Piece → Piece → Prop := Relation.ReflTransGen Holds

/-- Everything inside a piece has a property: the piece itself, and everything inside what stands
directly in it. -/
theorem forall_contains_iff {P : Piece → Prop} {p : Piece} :
    (∀ q, Contains p q → P q) ↔ P p ∧ ∀ q, Holds p q → ∀ r, Contains q r → P r := by
  constructor
  · intro h
    exact ⟨h p .refl, fun q hq r hr => h r (.head hq hr)⟩
  · rintro ⟨hp, hinside⟩ q hq
    rcases Relation.ReflTransGen.cases_head_iff.mp hq with rfl | ⟨r, hr, hrest⟩
    · exact hp
    · exact hinside r hr q hrest

end Piece
end JsonModel
