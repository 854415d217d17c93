-- What becomes of types without parts when their outlines are compiled. The limits that are read back
-- are no tighter, and a text that has a form has it still, or may be any text.
import JsonModel.Proofs.Check.Looser
import JsonModel.Proofs.Outline.Limits

namespace JsonModel

/-! ## Nodes whose type counts -/

/-- A node without a reference, alternatives and parts has the type that its type name says. -/
theorem readsType_of_absent {node : Members Json}
    (h : ∀ k ∈ ["$ref", "anyOf", "oneOf", "allOf"], node.get? k = none) :
    readsType node = true := by
  have hlist : ∀ k ∈ ["$ref", "anyOf", "oneOf", "allOf"], listUnder node k = [] := by
    intro k hk
    unfold listUnder
    rw [h k hk]
  refine readsType_iff.mpr ⟨?_, ?_, hlist _ (by decide)⟩
  · unfold reference?
    rw [h _ (by decide)]
  · rw [hlist "anyOf" (by decide), hlist "oneOf" (by decide)]
    rfl

/-- What is published of a primitive type is compiled to that type. -/
theorem settled_primitive (root : Members Json) (hint : Option String) (kind : Primitive)
    (limits : Limits) :
    Settled root hint (Json.rereadMembers (kind.outline limits)) (.primitive kind) := by
  have hreads : readsType (Json.rereadMembers (kind.outline limits)) = true := by
    apply readsType_of_absent
    intro k hk
    have habsent : ∀ k ∈ ["$ref", "anyOf", "oneOf", "allOf"], k ∉ "type" :: limitKeywords := by
      decide
    rw [Json.get?_rereadMembers, get?_of_names (names_primitive kind limits) (habsent k hk)]
    rfl
  have hscalar : ∀ name, (kind.outline limits).get? "type" = some (.str name) →
      scalarKind? name = some kind →
        Settled root hint (Json.rereadMembers (kind.outline limits)) (.primitive kind) := by
    intro name htype hkind
    refine settled_scalar hreads ?_ hkind
    rw [Json.get?_rereadMembers, htype, Option.map_some, Json.reread_str]
  cases kind with
  | any => exact (settled_typed hreads).mpr (.any rfl)
  | string => exact hscalar "string" rfl rfl
  | integer => exact hscalar "integer" rfl rfl
  | number => exact hscalar "number" rfl rfl
  | boolean => exact hscalar "boolean" rfl rfl
  | null => exact hscalar "null" rfl rfl

/-! ## Primitive types -/

section

variable {places : Places} {limits limits' : Limits} {v : Value}

/-- A primitive type is looser with the limits that all the values it takes keep. -/
theorem looser_primitive {t : TypeDescriptor} {kind : Primitive}
    (h : ∀ places v, accepting (t.check places limits v) = true →
      (kind.check limits' v).issues = []) : t.Looser limits (.primitive kind) limits' :=
  ⟨fun _ _ => ⟨_, rfl⟩, fun places v haccepts => accepting_primitive.mpr (h places v haccepts)⟩

/-- Without its limits a primitive type takes no less. -/
theorem looser_unlimited (kind : Primitive) (limits : Limits) :
    (TypeDescriptor.primitive kind).Looser limits (.primitive kind) {} := by
  apply looser_primitive
  intro places v haccepts
  have hclean := accepting_primitive.mp haccepts
  cases kind with
  | string =>
    obtain ⟨s, rfl, -⟩ := haveLength_clean_iff.mp hclean
    exact haveLength_clean_iff.mpr ⟨s, rfl, lengths_none s⟩
  | integer =>
    obtain ⟨n, rfl, hfinite, hwhole, hsafe, -⟩ := integer_clean_iff.mp hclean
    exact integer_clean_iff.mpr ⟨n, rfl, hfinite, hwhole, hsafe, bounds_none n⟩
  | number =>
    obtain ⟨n, rfl, hfinite, -⟩ := number_clean_iff.mp hclean
    exact number_clean_iff.mpr ⟨n, rfl, hfinite, bounds_none n⟩
  | boolean | null | any => cases v <;> exact hclean

/-- A primitive type takes no less with the limits that are read back. -/
theorem looser_refined_primitive (kind : Primitive) (limits : Limits) :
    (TypeDescriptor.primitive kind).Looser limits
      (refine (.primitive kind) (Json.rereadMembers (kind.outline limits))).1
      (refine (.primitive kind) (Json.rereadMembers (kind.outline limits))).2 := by
  cases kind with
  | string =>
    have hformat : format? (Json.rereadMembers (Primitive.string.outline limits)) = none := by
      unfold format?
      rw [Json.get?_rereadMembers, get?_of_names (names_primitive .string limits) (by decide)]
      rfl
    unfold refine
    simp only [TypeDescriptor.isPrimitive, hformat]
    apply looser_primitive
    intro places v haccepts
    obtain ⟨s, rfl, hlengths⟩ := haveLength_clean_iff.mp (accepting_primitive.mp haccepts)
    refine haveLength_clean_iff.mpr ⟨s, rfl, lengths_reread hlengths ?_ ?_⟩
    all_goals
      intro b hb
      have hcases := numberAt_lengthOutline hb
      simpa only [String.reduceEq, false_and, true_and, or_false, false_or] using hcases
  | integer =>
    apply looser_primitive
    intro places v haccepts
    obtain ⟨n, rfl, hfinite, hwhole, hsafe, hbounds⟩ :=
      integer_clean_iff.mp (accepting_primitive.mp haccepts)
    obtain ⟨hleast, hmost⟩ := safeRange_bounds hfinite hsafe
    refine integer_clean_iff.mpr ⟨n, rfl, hfinite, hwhole, hsafe, bounds_reread hbounds ?_ ?_⟩
    · exact fun b hb => Option.some.inj hb ▸ hleast
    · exact fun b hb => Option.some.inj hb ▸ hmost
  | number =>
    apply looser_primitive
    intro places v haccepts
    obtain ⟨n, rfl, hfinite, hbounds⟩ := number_clean_iff.mp (accepting_primitive.mp haccepts)
    refine number_clean_iff.mpr ⟨n, rfl, hfinite, bounds_reread hbounds ?_ ?_⟩
    all_goals
      intro _ hb
      cases hb
  | boolean | null | any => exact looser_unlimited _ limits

/-! ## Semantic types -/

/-- A type without the forms of its texts. -/
def Semantic.unformed : Semantic → TypeDescriptor
  | .strictBytes => .primitive .any
  | .ipAnyAddress => .union [.primitive .string, .primitive .string]
  | .ipAnyInterface | .ipAnyNetwork =>
    .union [.primitive .string, .primitive .string, .primitive .string, .primitive .string]
  | _ => .primitive .string

theorem settled_texts {root node : Members Json} {hint : Option String}
    {nodes : List (Members Json)} (href : reference? node = none)
    (hentries : listUnder node "anyOf" ++ listUnder node "oneOf" = nodes.map .obj) (hne : nodes ≠ [])
    (h : ∀ n ∈ nodes, readsType n = true ∧ n.get? "type" = some (.str "string")) :
    Settled root hint node (.union (nodes.map fun _ => .primitive .string)) := by
  refine settled_iff.mpr (.union href hentries hne ?_)
  rw [List.forall₂_map_right_iff, List.forall₂_same]
  exact fun n hn => settled_scalar (h n hn).1 (h n hn).2 rfl

/-- What is published of a semantic type is compiled to that type without its forms. -/
theorem settled_semantic (root : Members Json) (hint : Option String) (kind : Semantic) :
    Settled root hint (Json.rereadMembers kind.outline) kind.unformed := by
  cases kind with
  | strictBytes => exact (settled_typed rfl).mpr (.any rfl)
  | ipAnyAddress =>
    refine @settled_texts root _ hint
      [Json.rereadMembers ipv4Outline, Json.rereadMembers ipv6Outline] rfl rfl (by simp) ?_
    simp only [List.forall_mem_cons]
    exact ⟨⟨rfl, rfl⟩, ⟨rfl, rfl⟩, by simp⟩
  | ipAnyInterface | ipAnyNetwork =>
    refine @settled_texts root _ hint
      [Json.rereadMembers ipv4Outline, Json.rereadMembers ipv6Outline,
        Json.rereadMembers (formOutline "cidrv4" Pattern.cidrv4),
        Json.rereadMembers (formOutline "cidrv6" Pattern.cidrv6)] rfl rfl (by simp) ?_
    simp only [List.forall_mem_cons]
    exact ⟨⟨rfl, rfl⟩, ⟨rfl, rfl⟩, ⟨rfl, rfl⟩, ⟨rfl, rfl⟩, by simp⟩
  | _ => exact settled_scalar rfl rfl rfl

/-! ## Texts without their forms -/

theorem onText_clean {check : String → Outcome} (h : (onText v check).issues = []) :
    ∃ s, v = .str s := by
  cases v with
  | str s => exact ⟨s, rfl⟩
  | _ => simp [onText, wrongType, Outcome.reject] at h

theorem changed_clean {change : String → Except Fault Value} (h : (changed v change).issues = []) :
    ∃ s, v = .str s := by
  cases v with
  | str s => exact ⟨s, rfl⟩
  | _ => simp [changed, wrongType, Outcome.reject] at h

theorem haveSomeForm_clean {tests : List (List Char → Bool)}
    (h : (haveSomeForm v tests).issues = []) : ∃ s, v = .str s := by
  cases v with
  | str s => exact ⟨s, rfl⟩
  | _ => simp [haveSomeForm, Outcome.reject] at h

/-- Every semantic type but that of bytes takes texts alone. -/
theorem text_of_clean {kind : Semantic} (hkind : kind ≠ .strictBytes)
    (h : (kind.check places limits v).issues = []) : ∃ s, v = .str s := by
  cases kind with
  | strictBytes => exact absurd rfl hkind
  | base64Bytes | jsonString | secretString | secretBytes => exact changed_clean h
  | path =>
    obtain ⟨s, hs, -⟩ := haveLength_clean_iff.mp h
    exact ⟨s, hs⟩
  | ipAnyAddress | ipAnyInterface | ipAnyNetwork => exact haveSomeForm_clean h
  | _ => exact onText_clean h

theorem accepting_text (s : String) :
    accepting ((TypeDescriptor.primitive .string).check places {} (.str s)) = true :=
  accepting_primitive.mpr (haveLength_clean_iff.mpr ⟨s, rfl, lengths_none s⟩)

/-- A type without the forms of its texts takes no less. -/
theorem looser_unformed (kind : Semantic) (limits : Limits) :
    (TypeDescriptor.semantic kind).Looser limits kind.unformed {} := by
  have htext : kind ≠ .strictBytes → ∀ places v,
      accepting ((TypeDescriptor.semantic kind).check places limits v) = true →
        ∃ s, v = .str s := by
    intro hkind places v haccepts
    exact text_of_clean hkind (accepting_semantic.mp haccepts)
  have hstring : kind ≠ .strictBytes →
      (TypeDescriptor.semantic kind).Looser limits (.primitive .string) {} := by
    refine fun hkind => ⟨fun _ _ => ⟨_, rfl⟩, fun places v haccepts => ?_⟩
    obtain ⟨s, rfl⟩ := htext hkind places v haccepts
    exact accepting_text s
  have hunion : kind ≠ .strictBytes → ∀ ts : List TypeDescriptor, ts ≠ [] →
      (∀ t ∈ ts, t = .primitive .string) →
        (TypeDescriptor.semantic kind).Looser limits (.union ts) {} := by
    intro hkind ts hne hts
    have hanswers : ∀ places v, ∀ t ∈ ts, ∃ o, t.check places {} v = .ok o := by
      intro places v t ht
      rw [hts t ht]
      exact ⟨_, rfl⟩
    refine ⟨fun places v => union_total (hanswers places v), fun places v haccepts => ?_⟩
    obtain ⟨s, rfl⟩ := htext hkind places v haccepts
    obtain ⟨t, ht⟩ := List.exists_mem_of_ne_nil ts hne
    refine accepting_union (hanswers places _) ht ?_
    rw [hts t ht]
    exact accepting_text s
  cases kind with
  | strictBytes => exact ⟨fun _ _ => ⟨_, rfl⟩, fun _ _ _ => rfl⟩
  | ipAnyAddress | ipAnyInterface | ipAnyNetwork => exact hunion (by simp) _ (by simp) (by simp)
  | _ => exact hstring (by simp)

/-! ## Texts with the forms that are read back -/

/-- A kind that another one narrows takes what that one takes. -/
theorem looser_form {kind kind' : Semantic}
    (h : ∀ places v, (kind.check places limits v).issues = [] →
      (kind'.check places limits' v).issues = []) :
    (TypeDescriptor.semantic kind).Looser limits (.semantic kind') limits' :=
  ⟨fun _ _ => ⟨_, rfl⟩, fun places v haccepts =>
    accepting_semantic.mpr (h places v (accepting_semantic.mp haccepts))⟩

theorem haveUuidVersion_clean {version : Char} (h : (haveUuidVersion v version).issues = []) :
    (haveForm v "UUID" isUuid).issues = [] := by
  cases v with
  | str s =>
    simp only [haveUuidVersion, haveForm, onText, Outcome.keep, List.map_eq_nil_iff,
      List.append_eq_nil_iff] at h ⊢
    exact h.1
  | _ => simp [haveUuidVersion, onText, wrongType, Outcome.reject] at h

/-- A semantic type takes no less with the form that is read back. -/
theorem looser_refined_semantic (kind : Semantic) (limits : Limits) :
    (TypeDescriptor.semantic kind).Looser limits
      (refine kind.unformed (Json.rereadMembers kind.outline)).1
      (refine kind.unformed (Json.rereadMembers kind.outline)).2 := by
  cases kind with
  | base64Bytes | date | duration | email | ipv4 | ipv6 | uuid =>
    exact looser_form fun _ _ h => h
  | uri | httpUri | fileUri =>
    apply @looser_form _ {} _ .uri
    intro places v h
    simp only [Semantic.check] at h ⊢
    obtain ⟨s, scheme, rfl, hscheme, -⟩ := haveLink_clean_iff.mp h
    exact haveLink_clean_iff.mpr ⟨s, scheme, rfl, hscheme, nofun⟩
  | uuid1 | uuid3 | uuid4 | uuid5 =>
    apply @looser_form _ {} _ .uuid
    intro places v h
    simp only [Semantic.check] at h ⊢
    exact haveUuidVersion_clean h
  | path =>
    apply looser_primitive
    intro places v haccepts
    have hclean : (haveLength { minLength := some (.ofNat 1) } v).issues = [] :=
      accepting_semantic.mp haccepts
    obtain ⟨s, rfl, hlengths⟩ := haveLength_clean_iff.mp hclean
    exact haveLength_clean_iff.mpr
      ⟨s, rfl, lengths_reread hlengths (fun _ hb => hb) fun _ hb => hb⟩
  | _ => exact looser_unformed _ limits

end

end JsonModel
