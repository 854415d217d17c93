-- The pieces of a compiled field. What a format stands for and the null of a field that is not
-- required bring in few pieces, so that a property of all pieces of a type passes on to the field.
import JsonModel.Proofs.Compile.Step
import JsonModel.Proofs.Descriptor

namespace JsonModel

/-- A property that the types without parts have, and the two kinds of host links together. -/
structure Piece.OfLeaves (P : Piece → Prop) : Prop where
  primitive : ∀ kind, P (.type (.primitive kind))
  semantic : ∀ kind, P (.type (.semantic kind))
  hosts : P (.type (.union [.semantic .postgresDsn, .semantic .mongoDsn]))

variable {P : Piece → Prop}

theorem pieces_leaf {t : TypeDescriptor} (h : P (.type t))
    (hparts : ∀ q, ¬ Piece.Holds (.type t) q) : ∀ p, Piece.Contains (.type t) p → P p :=
  Piece.forall_contains_iff.mpr ⟨h, fun q hq => absurd hq (hparts q)⟩

theorem pieces_union {ts : List TypeDescriptor} (h : P (.type (.union ts)))
    (hts : ∀ t ∈ ts, ∀ p, Piece.Contains (.type t) p → P p) :
    ∀ p, Piece.Contains (.type (.union ts)) p → P p := by
  refine Piece.forall_contains_iff.mpr ⟨h, fun q hq => ?_⟩
  cases hq with
  | variant hmem => exact hts _ hmem

theorem pieces_intersection {ts : List TypeDescriptor} (h : P (.type (.intersection ts)))
    (hts : ∀ t ∈ ts, ∀ p, Piece.Contains (.type t) p → P p) :
    ∀ p, Piece.Contains (.type (.intersection ts)) p → P p := by
  refine Piece.forall_contains_iff.mpr ⟨h, fun q hq => ?_⟩
  cases hq with
  | member hmem => exact hts _ hmem

theorem pieces_semantic (hP : Piece.OfLeaves P) (kind : Semantic) :
    ∀ p, Piece.Contains (.type (.semantic kind)) p → P p :=
  pieces_leaf (hP.semantic kind) fun _ hq => nomatch hq

/-- Accepting null brings in nothing but null. -/
theorem pieces_nullable (hP : Piece.OfLeaves P) {t : TypeDescriptor}
    (h : ∀ p, Piece.Contains (.type t) p → P p) (hself : P (.type t.nullable)) :
    ∀ p, Piece.Contains (.type t.nullable) p → P p := by
  have hnull : ∀ p, Piece.Contains (.type (.primitive .null)) p → P p :=
    pieces_leaf (hP.primitive .null) fun _ hq => nomatch hq
  unfold TypeDescriptor.nullable at hself ⊢
  split at hself
  · exact h
  · rename_i ts
    split at hself
    · rename_i hany
      rw [if_pos hany]
      exact h
    · rename_i hany
      rw [if_neg hany]
      refine pieces_union hself fun u hu => ?_
      rcases List.mem_append.mp hu with hu | hu
      · exact (Piece.forall_contains_iff.mp h).2 _ (.variant hu)
      · rw [List.mem_singleton.mp hu]
        exact hnull
  · refine pieces_union hself fun u hu => ?_
    rcases List.mem_cons.mp hu with rfl | hu
    · exact h
    · rw [List.mem_singleton.mp hu]
      exact hnull

theorem pieces_narrow (hP : Piece.OfLeaves P) (format : StringFormat) (node : Members Json) :
    ∀ p, Piece.Contains (.type (format.narrow node).1) p → P p := by
  have hhosts : ∀ p, Piece.Contains (.type (.union [.semantic .postgresDsn, .semantic .mongoDsn])) p →
      P p := by
    refine pieces_union hP.hosts fun t ht => ?_
    simp only [List.mem_cons, List.not_mem_nil, or_false] at ht
    rcases ht with rfl | rfl <;> exact pieces_semantic hP _
  unfold StringFormat.narrow
  split
  · exact pieces_semantic hP _
  · split <;> exact pieces_semantic hP _
  · split <;> exact pieces_semantic hP _
  · cases format with
    | multiHostUri => exact hhosts
    | _ => exact pieces_semantic hP _

theorem pieces_refine (hP : Piece.OfLeaves P) {base : TypeDescriptor}
    (h : ∀ p, Piece.Contains (.type base) p → P p) (node : Members Json) :
    ∀ p, Piece.Contains (.type (refine base node).1) p → P p := by
  unfold refine
  split
  · exact h
  · split
    · split
      · exact pieces_narrow hP _ node
      · exact h
    · exact h

/-- All pieces of a field have a property if those of its base do, and the field and its type. -/
theorem pieces_field (hP : Piece.OfLeaves P) {base : TypeDescriptor}
    (h : ∀ p, Piece.Contains (.type base) p → P p) {requiredNames : List String} {name : String}
    {node : Members Json} (hfield : P (.field (fieldOf requiredNames name node base)))
    (hnullable : P (.type (refine base node).1.nullable)) :
    ∀ p, Piece.Contains (.field (fieldOf requiredNames name node base)) p → P p := by
  refine Piece.forall_contains_iff.mpr ⟨hfield, ?_⟩
  rintro _ ⟨⟩
  unfold fieldOf
  simp only
  split
  · exact pieces_refine hP h node
  · exact pieces_nullable hP (pieces_refine hP h node) hnullable

/-- All pieces of a model that extends nothing have a property if it has, and those of its fields. -/
theorem pieces_model {d : Definition} (hself : P (.model d)) (hbase : d.base = [])
    (h : ∀ f ∈ d.fields, ∀ p, Piece.Contains (.field f) p → P p) :
    ∀ p, Piece.Contains (.model d) p → P p := by
  refine Piece.forall_contains_iff.mpr ⟨hself, ?_⟩
  intro q hq
  cases hq with
  | base hmem => simp [hbase] at hmem
  | field hmem => exact h _ hmem

end JsonModel
