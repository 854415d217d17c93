-- Properties that list alternatives. What the property takes is what one of the alternatives takes, and
-- what comes out is what the first of them gives, so that their order does not count for what is taken,
-- and alternatives inside an alternative may be written out in its place.
import JsonModel.Proofs.Check.Nullable
import JsonModel.Proofs.Compile.Rewrite

namespace JsonModel

/-! ## Nodes that list alternatives -/

/-- A node without a reference lists some alternatives, those under `anyOf` first. -/
structure ListsAlternatives (node : Members Json) (entries : List Json) : Prop where
  no_reference : reference? node = none
  entries_eq : listUnder node "anyOf" ++ listUnder node "oneOf" = entries
  ne_nil : entries ≠ []

/-- An alternative is an object that has a type of its own. -/
def HasType (root : Members Json) (entry : Json) (t : TypeDescriptor) : Prop :=
  ∃ node, entry = .obj node ∧ resolveType node root = .ok t

variable {root node : Members Json} {entries : List Json} {types : List TypeDescriptor}
  {hint : Option String} {t : TypeDescriptor}

theorem settled_entries (h : List.Forall₂ (HasType root) entries types) :
    ∃ nodes, entries = nodes.map .obj ∧ List.Forall₂ (Settled root none) nodes types := by
  induction h with
  | nil => exact ⟨[], rfl, .nil⟩
  | cons hentry _ ih =>
    obtain ⟨node, rfl, hnode⟩ := hentry
    obtain ⟨nodes, rfl, hnodes⟩ := ih
    exact ⟨node :: nodes, rfl, .cons (settled_of_resolveType hnode) hnodes⟩

/-- The type of a node that lists alternatives is the union of their types. -/
theorem settled_alternatives (hnode : ListsAlternatives node entries)
    (htypes : List.Forall₂ (HasType root) entries types) (hint : Option String) :
    Settled root hint node (.union types) := by
  obtain ⟨nodes, rfl, hnodes⟩ := settled_entries htypes
  exact settled_iff.mpr (.union hnode.no_reference hnode.entries_eq
    (fun hnil => hnode.ne_nil (hnil ▸ rfl)) hnodes)

/-- Where a node that lists alternatives has a type, so have they. -/
theorem alternatives_of_settled (hnode : ListsAlternatives node entries)
    (h : Settled root hint node t) :
    ∃ types, t = .union types ∧ List.Forall₂ (HasType root) entries types := by
  have hempty : listUnder node "anyOf" ++ listUnder node "oneOf" ≠ [] := by
    rw [hnode.entries_eq]
    exact hnode.ne_nil
  cases settled_iff.mp h with
  | reference href =>
    rw [hnode.no_reference] at href
    simp at href
  | @union nodes types _ hentries _ htypes =>
    refine ⟨types, rfl, ?_⟩
    rw [← hnode.entries_eq, hentries, List.forall₂_map_left_iff]
    exact htypes.imp fun node t ht => ⟨node, rfl, ht.found⟩
  | only _ hnil => exact absurd hnil hempty
  | intersection _ hnil => exact absurd hnil hempty
  | typed _ hnil => exact absurd hnil hempty

/-! ## The field of such a node -/

/-- The field accepts a value, and this comes out. -/
def Field.Gives (places : Places) (f : Field) (v out : Value) : Prop :=
  f.type.Gives places f.limits v out

variable {name : String} {requiredNames : List String} {places : Places} {v out : Value}

/-- Null, for a field that is not required. -/
def added (requiredNames : List String) (name : String) (v : Value) : Option Value :=
  if requiredNames.contains name then none else v.ifNull

/-- The field of a node that lists alternatives. -/
theorem compileField_alternatives (hnode : ListsAlternatives node entries)
    (htypes : List.Forall₂ (HasType root) entries types) :
    compileField name node requiredNames root =
      .ok (fieldOf requiredNames name node (.union types)) :=
  compileField_ok_iff.mpr ⟨_, settled_alternatives hnode htypes _, rfl⟩

/-- The field gives what its type gives, or else the null that was added. -/
theorem gives_fieldOf_iff {base : TypeDescriptor} :
    (fieldOf requiredNames name node base).Gives places v out ↔
      ∃ given, (refine base node).1.output? places (refine base node).2 v = .ok given ∧
        given.or (added requiredNames name v) = some out := by
  unfold Field.Gives fieldOf added
  simp only
  rw [← output?_eq_some]
  cases requiredNames.contains name with
  | true => simp
  | false =>
    simp only [Bool.false_eq_true, if_false]
    rw [output?_nullable, map_ok_iff]

/-- The field gives what the first of the alternatives gives, or else the null that was added. -/
theorem gives_fieldOf_union : (fieldOf requiredNames name node (.union types)).Gives places v out ↔
    ∃ given, (types.findSomeM? fun t => t.output? places {} v) = .ok given ∧
      given.or (added requiredNames name v) = some out := by
  have hrefine : refine (.union types) node = (.union types, {}) := rfl
  rw [gives_fieldOf_iff, hrefine, output?_union]

/-! ## What the field takes -/

/-- Each type of a list answers to a value. -/
def AllAnswer (places : Places) (types : List TypeDescriptor) (v : Value) : Prop :=
  ∀ t ∈ types, ∃ result, t.safeParse places {} v = .ok result

/-- A field chooses from some types: it takes what one of them takes, and gives what the first of those
gives. -/
structure Field.ChoosesFrom (places : Places) (types : List TypeDescriptor) (v : Value) (f : Field) :
    Prop where
  /-- It takes what one of the types takes, and null if it is not required. -/
  takes_iff : (∃ out, f.Gives places v out) ↔
    (∃ t ∈ types, ∃ out, t.Gives places {} v out) ∨ f.required = false ∧ v = .null
  /-- It gives what the first of the types gives that takes the value. -/
  gives_first : ∀ before t after out, types = before ++ t :: after →
    (∀ u ∈ before, ∀ w, ¬ u.Gives places {} v w) → t.Gives places {} v out →
      f.Gives places v out
  /-- It gives null if only the null that was added takes the value. -/
  gives_null : (∀ t ∈ types, ∀ w, ¬ t.Gives places {} v w) → f.required = false → v = .null →
    f.Gives places v .null

theorem output?_eq_none (h : ∃ result, t.safeParse places {} v = .ok result)
    (hno : ∀ w, ¬ t.Gives places {} v w) : t.output? places {} v = .ok none := by
  obtain ⟨given, hgiven⟩ := exists_output? h
  cases given with
  | none => exact hgiven
  | some w => exact absurd (output?_eq_some.mp hgiven) (hno w)

theorem takes_fieldOf_union (hanswer : AllAnswer places types v) :
    (∃ out, (fieldOf requiredNames name node (.union types)).Gives places v out) ↔
      (∃ t ∈ types, ∃ out, t.Gives places {} v out) ∨
        requiredNames.contains name = false ∧ v = .null := by
  obtain ⟨given, hgiven, hsome⟩ := findSomeM?_total (f := fun t => t.output? places {} v)
    fun t ht => exists_output? (hanswer t ht)
  have hadded : (added requiredNames name v).isSome = true ↔
      requiredNames.contains name = false ∧ v = .null := by
    unfold added
    cases requiredNames.contains name <;> cases v <;> simp [Value.ifNull]
  have hfield : (∃ out, (fieldOf requiredNames name node (.union types)).Gives places v out) ↔
      (given.or (added requiredNames name v)).isSome = true := by
    rw [Option.isSome_iff_exists]
    refine exists_congr fun out => ?_
    rw [gives_fieldOf_union, hgiven]
    simp
  rw [hfield, Option.isSome_or, Bool.or_eq_true, hsome, hadded]
  simp only [output?_eq_some]

theorem choosesFrom_fieldOf_union (hanswer : AllAnswer places types v) :
    (fieldOf requiredNames name node (.union types)).ChoosesFrom places types v where
  takes_iff := takes_fieldOf_union hanswer
  gives_first before t after out htypes hbefore ht := by
    subst htypes
    have hnone : ∀ u ∈ before, u.output? places {} v = .ok none := fun u hu =>
      output?_eq_none (hanswer u (List.mem_append_left _ hu)) (hbefore u hu)
    exact gives_fieldOf_union.mpr
      ⟨some out, findSomeM?_of_first after hnone (output?_eq_some.mpr ht), rfl⟩
  gives_null hno hoptional hv := by
    subst hv
    obtain ⟨given, hgiven, hsome⟩ := findSomeM?_total (f := fun t => t.output? places {} .null)
      fun t ht => exists_output? (hanswer t ht)
    refine gives_fieldOf_union.mpr ⟨given, hgiven, ?_⟩
    cases given with
    | some w =>
      obtain ⟨t, ht, w, hw⟩ := hsome.mp rfl
      exact absurd (output?_eq_some.mp hw) (hno t ht w)
    | none =>
      unfold added
      rw [show requiredNames.contains name = false from hoptional]
      rfl

/-! ## Other ways to list the alternatives -/

/-- The order of the alternatives does not count for what is taken. -/
theorem takes_of_perm {node' : Members Json} {types' : List TypeDescriptor}
    (hperm : types'.Perm types) (hanswer : AllAnswer places types v) :
    (∃ out, (fieldOf requiredNames name node' (.union types')).Gives places v out) ↔
      ∃ out, (fieldOf requiredNames name node (.union types)).Gives places v out := by
  have hanswer' : AllAnswer places types' v := fun t ht => hanswer t (hperm.mem_iff.mp ht)
  rw [takes_fieldOf_union hanswer, takes_fieldOf_union hanswer']
  simp only [hperm.mem_iff]

/-- Alternatives inside an alternative may be written out in its place. -/
theorem gives_of_splice {node' : Members Json} {before inner after : List TypeDescriptor} :
    (fieldOf requiredNames name node' (.union (before ++ inner ++ after))).Gives places v out ↔
      (fieldOf requiredNames name node (.union (before ++ .union inner :: after))).Gives
        places v out := by
  rw [gives_fieldOf_union, gives_fieldOf_union,
    findSomeM?_splice before inner after (output?_union inner)]

/-- What is promised of the field of a property that lists alternatives. -/
structure Field.OfAlternatives (root : Members Json) (name : String) (requiredNames : List String)
    (entries : List Json) (types : List TypeDescriptor) (f : Field) : Prop where
  required_eq : f.required = requiredNames.contains name
  /-- Where all alternatives answer, it takes what one of them takes. -/
  chooses : ∀ places v, AllAnswer places types v → f.ChoosesFrom places types v
  /-- Alternatives in another order, and under another one of the two keywords, take the same. -/
  rearranged : ∀ node' entries', ListsAlternatives node' entries' → entries'.Perm entries →
    ∃ f', compileField name node' requiredNames root = .ok f' ∧
      ∀ places v, AllAnswer places types v →
        ((∃ out, f'.Gives places v out) ↔ ∃ out, f.Gives places v out)
  /-- Alternatives inside an alternative that stand in its place give the same. -/
  spliced : ∀ node' before inner after,
    entries = before ++ .obj [("anyOf", .arr inner)] :: after → inner ≠ [] →
    ListsAlternatives node' (before ++ inner ++ after) →
      ∃ f', compileField name node' requiredNames root = .ok f' ∧
        ∀ places v out, f'.Gives places v out ↔ f.Gives places v out

/-- A property that lists alternatives takes what one of them takes, and gives what the first of those
gives. -/
theorem a_property_takes_what_its_alternatives_take {root node : Members Json} {name : String}
    {requiredNames : List String} {entries : List Json} {types : List TypeDescriptor}
    (hnode : ListsAlternatives node entries)
    (htypes : List.Forall₂ (HasType root) entries types) :
    ∃ f, compileField name node requiredNames root = .ok f ∧
      f.OfAlternatives root name requiredNames entries types := by
  refine ⟨_, compileField_alternatives hnode htypes, rfl,
    fun places v hanswer => choosesFrom_fieldOf_union hanswer, ?_, ?_⟩
  · intro node' entries' hnode' hperm
    obtain ⟨types', htypes', hperm'⟩ := List.perm_comp_forall₂ hperm htypes
    exact ⟨_, compileField_alternatives hnode' htypes',
      fun places v hanswer => takes_of_perm hperm' hanswer⟩
  · rintro node' before inner after rfl hinner hnode'
    -- The alternatives inside have types, as they are what the type of the alternative is made of.
    obtain ⟨before', rest, rfl, hbefore, hrest⟩ := forall₂_append_left htypes
    obtain ⟨t, after', ⟨entry, hentry, ht⟩, hafter, rfl⟩ := List.forall₂_cons_left_iff.mp hrest
    cases hentry
    have hlists : ListsAlternatives [("anyOf", .arr inner)] inner :=
      ⟨rfl, List.append_nil inner, hinner⟩
    obtain ⟨inner', rfl, htypes'⟩ := alternatives_of_settled hlists (settled_of_resolveType ht)
    have hall : List.Forall₂ (HasType root) (before ++ inner ++ after) (before' ++ inner' ++ after') :=
      List.rel_append (List.rel_append hbefore htypes') hafter
    exact ⟨_, compileField_alternatives hnode' hall, fun places v out => gives_of_splice⟩

/-- A text, a number or nothing, or a file with its content. -/
def enclosedEntries : List Json :=
  [.obj [("type", .str "string")],
    .obj [("anyOf", .arr [.obj [("type", .str "integer")], .obj [("type", .str "null")]])],
    .obj [("type", .str "object"),
      ("properties", .obj [("content", .obj [("type", .str "string"), ("format", .str "base64")])]),
      ("required", .arr [.str "content"])]]

def fileType : TypeDescriptor :=
  .composite ⟨fallbackName, [], [⟨"content", .semantic .base64Bytes, true, false, none, [], {}⟩], {}⟩

def enclosedTypes : List TypeDescriptor :=
  [.primitive .string, .union [.primitive .integer, .primitive .null], fileType]

def enclosedNode : Members Json :=
  [("oneOf", .arr (enclosedEntries.drop 2)), ("anyOf", .arr (enclosedEntries.take 2))]

def enclosedFile : Value := .obj .given [("content", .str "aGk=")]

theorem an_enclosed_file_comes_out_with_its_content :
    ∃ f, compileField "enclosed" enclosedNode ["enclosed"] [] = .ok f ∧
      f.OfAlternatives [] "enclosed" ["enclosed"] enclosedEntries enclosedTypes ∧
      f.Gives ⟨fun _ => false, fun _ => false⟩ enclosedFile
        (.obj .made [("content", .bytes .made [104, 105])]) := by
  have hnode : ListsAlternatives enclosedNode enclosedEntries :=
    ⟨rfl, rfl, by simp [enclosedEntries]⟩
  have htypes : List.Forall₂ (HasType []) enclosedEntries enclosedTypes :=
    .cons ⟨_, rfl, rfl⟩ (.cons ⟨_, rfl, rfl⟩ (.cons ⟨_, rfl, rfl⟩ .nil))
  have hfield : ∃ f, compileField "enclosed" enclosedNode ["enclosed"] [] = .ok f ∧
      f.OfAlternatives [] "enclosed" ["enclosed"] enclosedEntries enclosedTypes :=
    a_property_takes_what_its_alternatives_take hnode htypes
  obtain ⟨f, hf, hlaws⟩ := hfield
  have hanswer : AllAnswer ⟨fun _ => false, fun _ => false⟩ enclosedTypes enclosedFile := by
    intro t ht
    simp only [enclosedTypes, List.mem_cons, List.not_mem_nil, or_false] at ht
    rcases ht with rfl | rfl | rfl <;> exact ⟨_, rfl⟩
  refine ⟨f, hf, hlaws, (hlaws.chooses _ _ hanswer).gives_first
    [.primitive .string, .union [.primitive .integer, .primitive .null]] fileType [] _ rfl ?_ rfl⟩
  intro u hu w hw
  simp only [List.mem_cons, List.not_mem_nil, or_false] at hu
  rcases hu with rfl | rfl <;> cases hw

end JsonModel
