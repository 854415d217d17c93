-- Properties that refer. What such a property is comes from two nodes, however long the chain of its
-- references: its type, with all that belongs to it, from the node at their end, and what is read beside a
-- type from the property itself.
import JsonModel.Proofs.Compile.Inline

namespace JsonModel

variable {root site target node : Members Json} {hint : Option String} {t : TypeDescriptor}

/-! ## Following references -/

/-- A node refers to another one. -/
def Refers (root node target : Members Json) : Prop :=
  ∃ ref, reference? node = some ref ∧ resolveRef ref root = .ok (.obj target)

/-- The references of a node end at another one: that one refers to nothing. -/
structure EndsAt (root site target : Members Json) : Prop where
  leads : Relation.TransGen (Refers root) site target
  no_reference : reference? target = none

theorem Refers.settled_iff (h : Refers root node target) :
    Settled root hint node t ↔ Settled root hint target t := by
  obtain ⟨ref, href, htarget⟩ := h
  exact settled_target_iff href htarget

/-- A node has the types of the one at which its references end. -/
theorem EndsAt.settled_iff (h : EndsAt root site target) :
    Settled root hint site t ↔ Settled root hint target t := by
  obtain ⟨hchain, -⟩ := h
  induction hchain using Relation.TransGen.head_induction_on with
  | single hlast => exact hlast.settled_iff
  | head hfirst _ ih => exact hfirst.settled_iff.trans ih

/-! ## Nodes put together -/

/-- A node has the structure of a target, what stands beside the type in a site, and nothing else. -/
def PutTogether (site target node : Members Json) : Prop :=
  ∀ k, node.get? k =
    if k ∈ structureKeywords then target.get? k
    else if k ∈ besideKeywords then site.get? k
    else none

/-- The keywords of the target and of the site that such a node has. -/
def putTogether (site target : Members Json) : Members Json :=
  target.filter (fun m => structureKeywords.contains m.1) ++
    site.filter fun m => besideKeywords.contains m.1

theorem beside_not_structure : ∀ k ∈ besideKeywords, k ∉ structureKeywords := by decide

theorem putTogether_spec (site target : Members Json) :
    PutTogether site target (putTogether site target) := by
  intro k
  unfold putTogether
  rw [Members.get?_append, Members.get?_filter, Members.get?_filter]
  by_cases hstructure : k ∈ structureKeywords
  · have hbeside : k ∉ besideKeywords := fun hk => beside_not_structure k hk hstructure
    simp [hstructure, hbeside]
  · by_cases hbeside : k ∈ besideKeywords
    · simp [hstructure, hbeside]
    · simp [hstructure, hbeside]

theorem PutTogether.get?_structure (h : PutTogether site target node) :
    ∀ k ∈ structureKeywords, node.get? k = target.get? k := by
  intro k hk
  rw [h, if_pos hk]

theorem PutTogether.get?_beside (h : PutTogether site target node) :
    ∀ k ∈ besideKeywords, node.get? k = site.get? k := by
  intro k hk
  rw [h, if_neg (beside_not_structure k hk), if_pos hk]

theorem PutTogether.no_reference (h : PutTogether site target node) : reference? node = none := by
  have hnone : node.get? "$ref" = none := by
    rw [h, if_neg (by decide), if_neg (by decide)]
  unfold reference?
  rw [hnone]

/-! ## The field of a property that refers -/

/-- A property that refers fails, or gives a field, exactly as the node does that has the structure
of the node at the end of its references and what stands beside the type in the property itself. -/
theorem a_property_takes_its_type_from_the_end_of_its_references {name : String}
    {requiredNames : List String} (hends : EndsAt root site target)
    (hnode : PutTogether site target node) :
    ((∃ e, compileField name site requiredNames root = .error e) ↔
        ∃ e, compileField name node requiredNames root = .error e) ∧
      ∀ f, compileField name site requiredNames root = .ok f ↔
        compileField name node requiredNames root = .ok f := by
  have htypes : ∀ base, Settled root (some (titleCase name)) site base ↔
      Settled root (some (titleCase name)) node base := by
    intro base
    have href : reference? node = reference? target :=
      hnode.no_reference.trans hends.no_reference.symm
    rw [settled_congr_structure href hnode.get?_structure]
    exact hends.settled_iff
  have hfields : ∀ f, compileField name site requiredNames root = .ok f ↔
      compileField name node requiredNames root = .ok f := by
    intro f
    simp only [compileField_ok_iff, htypes, fieldOf_congr _ _ _ hnode.get?_beside]
  refine ⟨?_, hfields⟩
  have hfails : ∀ r : Except CompileError Field, (∃ e, r = .error e) ↔ ∀ f, r ≠ .ok f := by
    intro r
    cases r <;> simp
  simp only [hfails, ne_eq, hfields]

/-- Prices are amounts, and amounts are numbers that are not below zero, in some unit. -/
def priceRoot : Members Json :=
  [("$defs", .obj
    [("Price", .obj [("$ref", .str "#/$defs/Amount"), ("maximum", .num .zero)]),
      ("Amount", .obj
        [("title", .str "Amount"), ("type", .str "number"), ("minimum", .num .zero),
          ("description", .str "in units")])])]

/-- What something costs. -/
def costNode : Members Json :=
  [("description", .str "to be paid"), ("$ref", .str "#/$defs/Price"), ("type", .str "string"),
    ("multipleOf", .num (.ofNat 5))]

theorem a_cost_is_a_number_of_its_own :
    EndsAt priceRoot costNode
        [("title", .str "Amount"), ("type", .str "number"), ("minimum", .num .zero),
          ("description", .str "in units")] ∧
      compileField "cost" [("title", .str "Amount"), ("type", .str "number"),
          ("description", .str "to be paid"), ("multipleOf", .num (.ofNat 5))] ["cost"] priceRoot =
        .ok ⟨"cost", .primitive .number, true, false, some "to be paid", [],
          { multipleOf := some (.ofNat 5) }⟩ := by
  have hprice : Refers priceRoot costNode
      [("$ref", .str "#/$defs/Amount"), ("maximum", .num .zero)] := ⟨_, rfl, rfl⟩
  have hamount : Refers priceRoot [("$ref", .str "#/$defs/Amount"), ("maximum", .num .zero)]
      [("title", .str "Amount"), ("type", .str "number"), ("minimum", .num .zero),
        ("description", .str "in units")] := ⟨_, rfl, rfl⟩
  have hends : EndsAt priceRoot costNode _ := ⟨.head hprice (.single hamount), rfl⟩
  refine ⟨hends, ?_⟩
  have hfields : ∀ f, compileField "cost" costNode ["cost"] priceRoot = .ok f ↔
      compileField "cost" (putTogether costNode _) ["cost"] priceRoot = .ok f :=
    (a_property_takes_its_type_from_the_end_of_its_references hends (putTogether_spec _ _)).2
  exact (hfields _).mp rfl

end JsonModel
