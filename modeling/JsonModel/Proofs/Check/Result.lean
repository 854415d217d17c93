-- What a compiled model answers to data: it never clashes, what it gives back follows the data, and
-- it accepts what its types accept.
import JsonModel.Proofs.Check.Accept

namespace JsonModel

/-! ## Models that keep their data -/

/-- Nothing that the model checks changes a text, and no field, at any depth, has a name that every
object answers to. -/
structure Definition.Preserving (d : Definition) : Prop where
  own : d.OwnNames
  inside : d.Every Semantic.Keeps Definition.OwnNames

theorem plain_of_compile {schema : Members Json} {root : Option (Members Json)}
    {overrides : Overrides} {d : Definition} (h : compileSchema schema root overrides = .ok d)
    (hschema : (Json.obj schema).Distinct) (hroot : ∀ r ∈ root, (Json.obj r).Distinct)
    (hpreserving : d.Preserving) :
    d.Built overrides ∧ d.Every Semantic.Keeps Definition.Plain := by
  obtain ⟨hbuilt, hevery⟩ := built_of_compile h hschema hroot
  exact ⟨hbuilt, hevery.zip (fun _ _ hkeeps => hkeeps) (fun _ hmodel hown => ⟨hmodel, hown⟩)
    hpreserving.inside⟩

/-- A letter has a sender, who has a name and may have a title, and perhaps some lines. -/
def letterSchema : Members Json :=
  [("type", .str "object"),
    ("properties", .obj
      [("sender", .obj [("$ref", .str "#/$defs/Person")]),
        ("lines", .obj [("type", .str "array"), ("items", .obj [("type", .str "string")])])]),
    ("required", .arr [.str "sender"]),
    ("$defs", .obj
      [("Person", .obj
        [("allOf", .arr
          [.obj [("type", .str "object"),
              ("properties", .obj [("name", .obj [("type", .str "string")])]),
              ("required", .arr [.str "name"])],
            .obj [("type", .str "object"),
              ("properties", .obj [("title", .obj [("type", .str "string")])])]])])])]

def letterModel : Definition :=
  let person := TypeDescriptor.intersection
    [.composite ⟨fallbackName, [],
        [⟨"name", .primitive .string, true, false, none, [], {}⟩], {}⟩,
      .composite ⟨fallbackName, [],
        [⟨"title", .nullable (.primitive .string), false, true, none, [], {}⟩], {}⟩]
  ⟨fallbackName, [],
    [⟨"sender", person, true, false, none, [], {}⟩,
      ⟨"lines", .nullable (.listOf (.primitive .string)), false, true, none, [], {}⟩], {}⟩

theorem letterSchema_distinct : (Json.obj letterSchema).Distinct := by
  simp [letterSchema, Json.Distinct, Json.Every, Json.EveryMember, Json.EveryItem]

theorem letterModel_preserving : letterModel.Preserving := by
  constructor
  · unfold Definition.OwnNames
    decide
  · simp only [letterModel, TypeDescriptor.nullable, Definition.Every, Field.EveryOf,
      TypeDescriptor.Every, TypeDescriptor.EveryOf, Definition.OwnNames, and_true, true_and]
    decide

/-! ## Answers to data -/

theorem safeParse_of_check {places : Places} {d : Definition} {v : Value} {o : Outcome}
    (h : d.check places v = .ok o) : d.safeParse places v = .ok o.toResult := by
  unfold Definition.safeParse
  rw [h]
  rfl

theorem toResult_eq_success {o : Outcome} {v : Value} :
    o.toResult = .success v ↔ o.accepted = true ∧ o.value = v := by
  unfold Outcome.toResult
  split
  · rename_i haccepted
    simp [haccepted]
  · rename_i hrejected
    simp [hrejected]

end JsonModel
