-- What is published of a type, in its shorter words. A union of types that are published as type names
-- alone is published as the list of these names, and any other union as its alternatives.
import JsonModel.Proofs.Compile.Unbundled
import JsonModel.Proofs.KeyOrder
import JsonModel.Proofs.Outline.Leaf

namespace JsonModel

/-! ## Type names that stand alone -/

/-- The type name of an outline that has no other keyword. -/
def bareName? (outline : Outline) : Option String :=
  match outline with
  | [("type", .str name)] => some name
  | _ => none

mutual

/-- The type names that a type is published as, if it is published as nothing else. -/
def TypeDescriptor.bareNames? : TypeDescriptor → Limits → Option (List String)
  | .primitive kind, limits => (bareName? (kind.outline limits)).map ([·])
  | .semantic kind, _ => (bareName? kind.outline).map ([·])
  | .union variants, limits =>
    (TypeDescriptor.allBareNames? variants limits).map fun names => names.flatten.eraseDups
  | _, _ => none

/-- The type names of each type, if all of them are published as nothing else. -/
def TypeDescriptor.allBareNames? : List TypeDescriptor → Limits → Option (List (List String))
  | [], _ => some []
  | t :: ts, limits =>
    (t.bareNames? limits).bind fun names =>
      (TypeDescriptor.allBareNames? ts limits).map (names :: ·)

end

mutual

/-- A union somewhere in a type is published as a list of several type names. -/
def TypeDescriptor.listsNames : TypeDescriptor → Limits → Bool
  | .listOf items, _ => items.listsNames {}
  | .union variants, limits =>
    match TypeDescriptor.allBareNames? variants limits with
    | some names => 1 < names.flatten.eraseDups.length
    | none => TypeDescriptor.anyListsNames variants limits
  | .intersection members, _ => TypeDescriptor.anyListsNames members {}
  | .composite model, _ => model.listsNames
  | _, _ => false

/-- One of some types has such a union. -/
def TypeDescriptor.anyListsNames : List TypeDescriptor → Limits → Bool
  | [], _ => false
  | t :: ts, limits => t.listsNames limits || TypeDescriptor.anyListsNames ts limits

/-- Which fields have such a union, by name. -/
def Field.listings : List Field → List (String × Bool)
  | [] => []
  | ⟨name, type, _, _, _, _, limits⟩ :: fields =>
    (name, type.listsNames limits) :: Field.listings fields

/-- A field that a definition checks has such a union. -/
def Definition.listsNames : Definition → Bool
  | ⟨_, base, fields, _⟩ =>
    (Members.erase reservedName (Members.ofList (Field.listings base ++ Field.listings fields))).any
      Prod.snd

end

theorem bareName?_eq_some {outline : Outline} {name : String} (h : bareName? outline = some name) :
    outline = [("type", .str name)] := by
  unfold bareName? at h
  split at h
  · cases h
    rfl
  · simp at h

theorem allBareNames?_cons_eq_some {t : TypeDescriptor} {ts : List TypeDescriptor} {limits : Limits}
    {names : List (List String)} :
    TypeDescriptor.allBareNames? (t :: ts) limits = some names ↔
      ∃ own others, t.bareNames? limits = some own ∧
        TypeDescriptor.allBareNames? ts limits = some others ∧ names = own :: others := by
  rw [TypeDescriptor.allBareNames?, Option.bind_eq_some_iff]
  constructor
  · rintro ⟨own, hown, hrest⟩
    obtain ⟨others, hothers, rfl⟩ := Option.map_eq_some_iff.mp hrest
    exact ⟨own, others, hown, hothers, rfl⟩
  · rintro ⟨own, others, hown, hothers, rfl⟩
    exact ⟨own, hown, Option.map_eq_some_iff.mpr ⟨others, hothers, rfl⟩⟩

theorem anyListsNames_iff {ts : List TypeDescriptor} {limits : Limits} :
    TypeDescriptor.anyListsNames ts limits = true ↔ ∃ t ∈ ts, t.listsNames limits = true := by
  induction ts with
  | nil => simp [TypeDescriptor.anyListsNames]
  | cons t ts ih => simp [TypeDescriptor.anyListsNames, ih]

theorem anyListsNames_eq_false {ts : List TypeDescriptor} {limits : Limits} :
    TypeDescriptor.anyListsNames ts limits = false ↔ ∀ t ∈ ts, t.listsNames limits = false := by
  rw [← Bool.not_eq_true, anyListsNames_iff]
  simp

theorem listings_eq_map (fields : List Field) :
    Field.listings fields = fields.map fun f => (f.name, f.type.listsNames f.limits) := by
  induction fields with
  | nil => rfl
  | cons f fields ih =>
    obtain ⟨_, _, _, _, _, _, _⟩ := f
    rw [Field.listings, ih]
    rfl

/-- A definition has such a union exactly if one of its checked fields does. -/
theorem listsNames_iff {d : Definition} : d.listsNames = true ↔
    ∃ m ∈ d.checked, m.2.type.listsNames m.2.limits = true := by
  obtain ⟨name, base, fields, overrides⟩ := d
  rw [Definition.listsNames, listings_eq_map, listings_eq_map, ← List.map_append]
  have hchecked := checked_map ⟨name, base, fields, overrides⟩ fun f => f.type.listsNames f.limits
  simp only at hchecked
  rw [hchecked, List.any_map, List.any_eq_true]
  rfl

theorem listsNames_eq_false {d : Definition} : d.listsNames = false ↔
    ∀ m ∈ d.checked, m.2.type.listsNames m.2.limits = false := by
  rw [← Bool.not_eq_true, listsNames_iff]
  simp

/-! ## What is published of a type -/

/-- What a type says of a value, in its shorter words. -/
def TypeDescriptor.outline (t : TypeDescriptor) (limits : Limits) : Outline :=
  (conjoin (t.outlines limits)).settle

/-- What is read from the text of that. -/
def TypeDescriptor.published (t : TypeDescriptor) (limits : Limits) : Members Json :=
  Json.rereadMembers (t.outline limits)

theorem settle_eq_self {outline : Outline} (hany : outline.get? "anyOf" = none)
    (hall : outline.get? "allOf" = none) : outline.settle = outline := by
  unfold Outline.settle
  rw [hany, hall]

theorem outline_primitive (kind : Primitive) (limits : Limits) :
    (TypeDescriptor.primitive kind).outline limits = kind.outline limits :=
  settle_eq_self (get?_of_names (names_primitive kind limits) (by decide))
    (get?_of_names (names_primitive kind limits) (by decide))

theorem outline_semantic (kind : Semantic) (limits : Limits) :
    (TypeDescriptor.semantic kind).outline limits = kind.outline := by
  cases kind <;> rfl

theorem outline_listOf (items : TypeDescriptor) (limits : Limits) :
    (TypeDescriptor.listOf items).outline limits =
      [("type", .str "array"), ("items", .obj (items.outline {}))] := rfl

theorem names_fieldsOutline (fields : List (String × Bool × Outline)) (mode : ExtraMode) :
    Members.names (fieldsOutline fields mode) ⊆ ObjectOutline.keywords := by
  unfold fieldsOutline ObjectOutline.outline
  refine names_append (names_append (names_append ?_ ?_) ?_) ?_
  · simp [typeOutline, Members.names, ObjectOutline.keywords]
  · simp [Members.names, ObjectOutline.keywords]
  · exact List.Subset.trans (names_optional _ _) (by decide)
  · exact List.Subset.trans (names_optional _ _) (by decide)

theorem outline_composite (d : Definition) (limits : Limits) :
    (TypeDescriptor.composite d).outline limits = d.outline := by
  obtain ⟨_, _, _, _⟩ := d
  exact settle_eq_self (get?_of_names (names_fieldsOutline _ _) (by decide))
    (get?_of_names (names_fieldsOutline _ _) (by decide))

theorem variantOutlines_eq_map (ts : List TypeDescriptor) (limits : Limits) :
    TypeDescriptor.variantOutlines ts limits = ts.map fun t => t.outline limits := by
  induction ts with
  | nil => rfl
  | cons t ts ih =>
    rw [TypeDescriptor.variantOutlines, ih]
    rfl

/-! ## Bare names are what is published -/

theorem eraseDups_map_str (names : List String) :
    (names.map Json.str).eraseDups = names.eraseDups.map Json.str := by
  have hbeq : ∀ a b : String, (Json.str b == Json.str a) = (b == a) := fun _ _ => rfl
  induction hlength : names.length using Nat.strong_induction_on generalizing names with
  | _ n ih =>
    cases names with
    | nil => rfl
    | cons name names =>
      have hshorter : (names.filter fun b => !b == name).length < n := by
        rw [← hlength, List.length_cons]
        exact Nat.lt_succ_of_le (List.length_filter_le _ _)
      rw [List.map_cons, List.eraseDups_cons, List.eraseDups_cons, List.map_cons, List.filter_map,
        ← ih _ hshorter _ rfl]
      simp only [Function.comp_def, hbeq]

theorem bareTypes?_typesOutline (names : List String) :
    bareTypes? (.obj (typesOutline (names.map .str))) = some (names.map .str) := by
  match names with
  | [] => rfl
  | [_] => rfl
  | _ :: _ :: _ => rfl

/-- A type is published as some type names exactly if these are its bare names. -/
structure TypeDescriptor.NamedBy (t : TypeDescriptor) (limits : Limits) : Prop where
  bareTypes_eq : bareTypes? (.obj (t.outline limits)) =
    (t.bareNames? limits).map fun names => names.map .str
  outline_eq : ∀ names, t.bareNames? limits = some names →
    t.outline limits = typesOutline (names.map .str)

theorem namedBy_none {t : TypeDescriptor} {limits : Limits}
    (houtline : bareTypes? (.obj (t.outline limits)) = none)
    (hnames : t.bareNames? limits = none) : t.NamedBy limits := by
  constructor
  · rw [houtline, hnames]
    rfl
  · intro names hsome
    rw [hnames] at hsome
    simp at hsome

theorem namedBy_leaf {t : TypeDescriptor} {limits : Limits} {outline : Outline}
    (houtline : t.outline limits = outline)
    (hnames : t.bareNames? limits = (bareName? outline).map ([·]))
    (hlist : ∀ items, outline ≠ [("type", .arr items)]) : t.NamedBy limits := by
  cases hname : bareName? outline with
  | some name =>
    have hbare := bareName?_eq_some hname
    rw [hname] at hnames
    constructor
    · rw [houtline, hnames, hbare]
      rfl
    · intro names hsome
      rw [hnames] at hsome
      cases hsome
      rw [houtline, hbare]
      rfl
  | none =>
    have hnone : bareTypes? (.obj outline) = none := by
      unfold bareTypes?
      split
      · rename_i heq
        cases heq
        simp [bareName?] at hname
      · rename_i heq
        cases heq
        exact absurd rfl (hlist _)
      · rfl
    rw [hname] at hnames
    constructor
    · rw [houtline, hnames, hnone]
      rfl
    · intro names hsome
      rw [hnames] at hsome
      simp at hsome

theorem bareTypes?_variants {ts : List TypeDescriptor} {limits : Limits}
    (h : ∀ t ∈ ts, t.NamedBy limits) :
    (ts.map fun t => Json.obj (t.outline limits)).mapM bareTypes? =
      (TypeDescriptor.allBareNames? ts limits).map fun names => names.map (·.map .str) := by
  induction ts with
  | nil => rfl
  | cons t ts ih =>
    rw [List.map_cons, List.mapM_cons, ih fun u hu => h u (List.mem_cons_of_mem _ hu),
      (h t List.mem_cons_self).bareTypes_eq, TypeDescriptor.allBareNames?]
    cases t.bareNames? limits with
    | none => rfl
    | some own =>
      cases TypeDescriptor.allBareNames? ts limits with
      | none => rfl
      | some others => rfl

/-- A union is published as type names if all of its variants are, and else as its alternatives. -/
theorem outline_union {ts : List TypeDescriptor} {limits : Limits} (hne : ts ≠ [])
    (h : ∀ t ∈ ts, t.NamedBy limits) : (TypeDescriptor.union ts).outline limits =
      match TypeDescriptor.allBareNames? ts limits with
      | some names => typesOutline (names.flatten.eraseDups.map .str)
      | none => anyOfOutline (ts.map fun t => t.outline limits) := by
  have hconjoin : (TypeDescriptor.union ts).outline limits =
      (anyOfOutline (ts.map fun t => t.outline limits)).settle := by
    rw [← variantOutlines_eq_map]
    rfl
  have hbranches := bareTypes?_variants h
  have hget : (anyOfOutline (ts.map fun t => t.outline limits)).get? "anyOf" =
      some (.arr (ts.map fun t => Json.obj (t.outline limits))) := by
    unfold anyOfOutline
    rw [List.map_map]
    rfl
  rw [hconjoin]
  unfold Outline.settle
  rw [hget]
  obtain ⟨t, ts, rfl⟩ := List.exists_cons_of_ne_nil hne
  simp only [List.map_cons] at hbranches ⊢
  rw [hbranches]
  cases TypeDescriptor.allBareNames? (t :: ts) limits with
  | none => rfl
  | some names =>
    simp only [Option.map_some, ← List.map_flatten, eraseDups_map_str]
    rfl

/-- Every type that bundles nothing is published by its bare names, if it has some. -/
theorem namedBy_of_unbundled {t : TypeDescriptor} (ht : t.Unbundled) (limits : Limits) :
    t.NamedBy limits := by
  induction t using TypeDescriptor.induction generalizing limits with
  | primitive kind =>
    refine namedBy_leaf (outline_primitive kind limits) rfl fun items => ?_
    cases kind <;> simp [Primitive.outline, typeOutline]
  | semantic kind =>
    refine namedBy_leaf (outline_semantic kind limits) rfl fun items => ?_
    cases kind with
    | ipAnyAddress | ipAnyInterface | ipAnyNetwork =>
      simp [Semantic.outline, networkOutline, anyOfOutline]
    | _ =>
      intro h
      cases h
  | mapping | anyList | listOf items => exact namedBy_none rfl rfl
  | union ts ih =>
    have hne : ts ≠ [] := ht _ .refl
    have houtline := outline_union hne fun u hu => ih u hu (ht.variant hu) limits
    cases hnames : TypeDescriptor.allBareNames? ts limits with
    | none =>
      rw [hnames] at houtline
      refine namedBy_none (by rw [houtline]; rfl) ?_
      rw [TypeDescriptor.bareNames?, hnames]
      rfl
    | some names =>
      rw [hnames] at houtline
      have hbare : (TypeDescriptor.union ts).bareNames? limits = some names.flatten.eraseDups := by
        rw [TypeDescriptor.bareNames?, hnames]
        rfl
      refine ⟨by rw [houtline, hbare, bareTypes?_typesOutline]; rfl, fun own hown => ?_⟩
      rw [hbare] at hown
      cases hown
      exact houtline
  | intersection ts => exact (ht _ .refl).elim
  | composite d =>
    refine namedBy_none ?_ rfl
    rw [outline_composite]
    obtain ⟨_, _, _, _⟩ := d
    rfl

end JsonModel
