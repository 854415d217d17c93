-- Schemas in another order. Lists of parts that must all hold may stand in any order, at any depth
-- of a schema, and what the schema compiles to differs in nothing but the order of members then.
import JsonModel.Proofs.Compile.Rewrite

namespace JsonModel

/-! ## Documents in another order -/

/-- Two documents are the same up to the order of the lists under `allOf`, at any depth. The flag
says that the document itself stands under that keyword. -/
inductive Json.Reordered : Bool → Json → Json → Prop
  | same {parts : Bool} (j : Json) : Reordered parts j j
  | items {xs ys : List Json} : xs.length = ys.length →
      (∀ (i : Nat) (x y : Json), xs[i]? = some x → ys[i]? = some y → Reordered false x y) →
      Reordered false (.arr xs) (.arr ys)
  | parts {xs ys zs : List Json} : xs.length = ys.length →
      (∀ (i : Nat) (x y : Json), xs[i]? = some x → ys[i]? = some y → Reordered false x y) →
      ys.Perm zs → Reordered true (.arr xs) (.arr zs)
  | members {parts : Bool} {ms ns : Members Json} : Members.names ms = Members.names ns →
      (∀ (i : Nat) (m n : String × Json), ms[i]? = some m → ns[i]? = some n →
        Reordered (m.1 == "allOf") m.2 n.2) →
      Reordered parts (.obj ms) (.obj ns)

/-- Two nodes are the same up to the order of parts. -/
abbrev Members.Reordered (node node' : Members Json) : Prop :=
  Members.Pairs (fun name j j' => Json.Reordered (name == "allOf") j j') node node'

theorem Members.Reordered.refl (node : Members Json) : Members.Reordered node node :=
  List.forall₂_same.mpr fun m _ => ⟨rfl, .same m.2⟩

theorem reordered_obj_iff {parts : Bool} {node : Members Json} {j : Json} :
    Json.Reordered parts (.obj node) j ↔ ∃ node', j = .obj node' ∧ Members.Reordered node node' := by
  constructor
  · rintro (_ | _ | _ | ⟨hnames, hvalues⟩)
    · exact ⟨node, rfl, .refl node⟩
    · have hlength := congrArg List.length hnames
      simp only [Members.names, List.length_map] at hlength
      refine ⟨_, rfl, forall₂_of_getElem? hlength fun i m n hm hn => ⟨?_, hvalues i m n hm hn⟩⟩
      have hname := congrArg (fun names => names[i]?) hnames
      simpa [Members.names, hm, hn] using hname
  · rintro ⟨node', rfl, h⟩
    exact .members h.names_eq fun i m n hm hn => (rel_of_getElem? h hm hn).2

theorem reordered_items {xs : List Json} {j : Json} (h : Json.Reordered false (.arr xs) j) :
    ∃ ys, j = .arr ys ∧ List.Forall₂ (Json.Reordered false) xs ys := by
  cases h with
  | same => exact ⟨xs, rfl, List.forall₂_same.mpr fun x _ => .same x⟩
  | items hlength hitems => exact ⟨_, rfl, forall₂_of_getElem? hlength hitems⟩

theorem reordered_parts {xs : List Json} {j : Json} (h : Json.Reordered true (.arr xs) j) :
    ∃ ys zs, j = .arr zs ∧ List.Forall₂ (Json.Reordered false) xs ys ∧ ys.Perm zs := by
  cases h with
  | same => exact ⟨xs, xs, rfl, List.forall₂_same.mpr fun x _ => .same x, .refl xs⟩
  | parts hlength hitems hperm =>
    exact ⟨_, _, rfl, forall₂_of_getElem? hlength hitems, hperm⟩

/-- The parts themselves may be shuffled. -/
theorem reordered_of_perm {xs ys : List Json} (h : xs.Perm ys) :
    Json.Reordered true (.arr xs) (.arr ys) := by
  refine .parts rfl (fun i x y hx hy => ?_) h
  rw [hx] at hy
  cases hy
  exact .same x

/-- A document in another order is the same one, or another list, or another object. -/
theorem Json.Reordered.cases_kind {parts : Bool} {j j' : Json} (h : Json.Reordered parts j j') :
    j' = j ∨ (∃ xs ys, j = .arr xs ∧ j' = .arr ys) ∨ ∃ ms ns, j = .obj ms ∧ j' = .obj ns := by
  cases h with
  | same => exact .inl rfl
  | items => exact .inr (.inl ⟨_, _, rfl, rfl⟩)
  | parts => exact .inr (.inl ⟨_, _, rfl, rfl⟩)
  | members => exact .inr (.inr ⟨_, _, rfl, rfl⟩)

/-! ## Keywords -/

section

variable {node node' : Members Json}

/-- What stands under a keyword is the same, or another list, or another object. -/
theorem Members.Reordered.under (h : Members.Reordered node node') (keyword : String) :
    node'.get? keyword = node.get? keyword ∨
      (∃ xs ys, node.get? keyword = some (.arr xs) ∧ node'.get? keyword = some (.arr ys)) ∨
      ∃ ms ns, node.get? keyword = some (.obj ms) ∧ node'.get? keyword = some (.obj ns) := by
  cases hj : node.get? keyword with
  | none => exact .inl (h.get?_none hj)
  | some j =>
    obtain ⟨j', hj', hreordered⟩ := h.found hj
    rw [hj']
    rcases hreordered.cases_kind with rfl | ⟨xs, ys, rfl, rfl⟩ | ⟨ms, ns, rfl, rfl⟩
    · exact .inl rfl
    · exact .inr (.inl ⟨xs, ys, rfl, rfl⟩)
    · exact .inr (.inr ⟨ms, ns, rfl, rfl⟩)

/-- What is neither a list nor an object is kept. -/
theorem Members.Reordered.kept (h : Members.Reordered node node') {keyword : String}
    {value : Option Json} (hvalue : node.get? keyword = value)
    (hitems : value.bind Json.items? = none) (hmembers : value.bind Json.members? = none) :
    node'.get? keyword = value := by
  rcases h.under keyword with heq | ⟨xs, ys, hxs, -⟩ | ⟨ms, ns, hms, -⟩
  · exact heq.trans hvalue
  · rw [hvalue] at hxs
    simp [hxs, Json.items?] at hitems
  · rw [hvalue] at hms
    simp [hms, Json.members?] at hmembers

theorem reordered_reference? (h : Members.Reordered node node') :
    reference? node' = reference? node := by
  unfold reference?
  rcases h.under "$ref" with heq | ⟨xs, ys, hxs, hys⟩ | ⟨ms, ns, hms, hns⟩
  · rw [heq]
  · rw [hxs, hys]
  · rw [hms, hns]

theorem reordered_numberAt (h : Members.Reordered node node') (keyword : String) :
    numberAt node' keyword = numberAt node keyword := by
  unfold numberAt
  rcases h.under keyword with heq | ⟨xs, ys, hxs, hys⟩ | ⟨ms, ns, hms, hns⟩
  · rw [heq]
  · rw [hxs, hys]
    rfl
  · rw [hms, hns]
    rfl

theorem reordered_format? (h : Members.Reordered node node') : format? node' = format? node := by
  unfold format?
  rcases h.under "format" with heq | ⟨xs, ys, hxs, hys⟩ | ⟨ms, ns, hms, hns⟩
  · rw [heq]
  · rw [hxs, hys]
    rfl
  · rw [hms, hns]
    rfl

/-- The texts of a list stay in their order, unless they are parts. -/
theorem reordered_textsOf (h : Members.Reordered node node') {keyword : String}
    (hkeyword : keyword ≠ "allOf") :
    textsOf (node'.get? keyword) = textsOf (node.get? keyword) := by
  cases hj : node.get? keyword with
  | none => rw [h.get?_none hj]
  | some j =>
    obtain ⟨j', hj', hreordered⟩ := h.found hj
    rw [beq_eq_false_iff_ne.mpr hkeyword] at hreordered
    rw [hj']
    cases j with
    | arr xs =>
      obtain ⟨ys, rfl, hys⟩ := reordered_items hreordered
      unfold textsOf
      simp only
      clear hj hj' hreordered
      induction hys with
      | nil => rfl
      | @cons x y xs ys hhead _ ih =>
        have hstr : y.str? = x.str? := by
          rcases hhead.cases_kind with rfl | ⟨_, _, rfl, rfl⟩ | ⟨_, _, rfl, rfl⟩
          · rfl
          · rfl
          · rfl
        rw [List.filterMap_cons, List.filterMap_cons, hstr, ih]
    | obj ms =>
      obtain ⟨ns, rfl, -⟩ := reordered_obj_iff.mp hreordered
      rfl
    | _ =>
      cases hreordered
      rfl

theorem reordered_narrow (h : Members.Reordered node node') (format : StringFormat) :
    format.narrow node' = format.narrow node := by
  unfold StringFormat.narrow
  rw [reordered_textsOf h (by decide)]
  rcases h.under "writeOnly" with heq | ⟨xs, ys, hxs, hys⟩ | ⟨ms, ns, hms, hns⟩
  · rw [heq]
  · rw [hxs, hys]
  · rw [hms, hns]

/-- The entries under a keyword other than the one of parts stay in their order. -/
theorem reordered_listUnder (h : Members.Reordered node node') {keyword : String}
    (hkeyword : keyword ≠ "allOf") :
    List.Forall₂ (Json.Reordered false) (listUnder node keyword) (listUnder node' keyword) := by
  unfold listUnder
  cases hj : node.get? keyword with
  | none =>
    rw [h.get?_none hj]
    exact .nil
  | some j =>
    obtain ⟨j', hj', hreordered⟩ := h.found hj
    rw [beq_eq_false_iff_ne.mpr hkeyword] at hreordered
    rw [hj']
    cases j with
    | arr xs =>
      obtain ⟨ys, rfl, hys⟩ := reordered_items hreordered
      exact hys
    | obj ms =>
      obtain ⟨ns, rfl, -⟩ := reordered_obj_iff.mp hreordered
      exact .nil
    | _ =>
      cases hreordered
      exact .nil

/-- The parts are the same parts in another order. -/
theorem reordered_allOf (h : Members.Reordered node node') :
    ∃ ys, List.Forall₂ (Json.Reordered false) (listUnder node "allOf") ys ∧
      ys.Perm (listUnder node' "allOf") := by
  unfold listUnder
  cases hj : node.get? "allOf" with
  | none =>
    rw [h.get?_none hj]
    exact ⟨[], .nil, .refl _⟩
  | some j =>
    obtain ⟨j', hj', hreordered⟩ := h.found hj
    rw [hj']
    cases j with
    | arr xs =>
      obtain ⟨ys, zs, rfl, hys, hperm⟩ := reordered_parts hreordered
      exact ⟨ys, hys, hperm⟩
    | obj ms =>
      obtain ⟨ns, rfl, -⟩ := reordered_obj_iff.mp hreordered
      exact ⟨[], .nil, .refl _⟩
    | _ =>
      cases hreordered
      exact ⟨[], .nil, .refl _⟩

/-- The properties stay in their order. -/
theorem reordered_propertiesOf (h : Members.Reordered node node') :
    Members.Reordered (propertiesOf node) (propertiesOf node') := by
  unfold propertiesOf
  rcases h.under "properties" with heq | ⟨xs, ys, hxs, hys⟩ | ⟨ms, ns, hms, hns⟩
  · rw [heq]
    exact .refl _
  · rw [hxs, hys]
    exact .nil
  · rw [hms, hns]
    obtain ⟨j, hj, hreordered⟩ := h.found hms
    rw [hns] at hj
    cases hj
    obtain ⟨_, heq, hall⟩ := reordered_obj_iff.mp hreordered
    cases heq
    exact hall

/-- Whether an object with members stands under a keyword stays as it is. -/
theorem reordered_unfilled (h : Members.Reordered node node') {keyword : String}
    (hnone : filledObject? (node.get? keyword) = none) :
    filledObject? (node'.get? keyword) = none := by
  rcases h.under keyword with heq | ⟨xs, ys, hxs, hys⟩ | ⟨ms, ns, hms, hns⟩
  · rwa [heq]
  · rw [hys]
    rfl
  · obtain ⟨j, hj, hreordered⟩ := h.found hms
    rw [hns] at hj
    cases hj
    obtain ⟨_, heq, hall⟩ := reordered_obj_iff.mp hreordered
    cases heq
    rw [hms] at hnone
    rw [hns]
    cases hall with
    | nil => rfl
    | cons => simp [filledObject?] at hnone

end

/-! ## Pointers -/

theorem reordered_step {segment : String} (hsegment : segment ≠ "allOf") {j j' k : Json}
    (h : Json.Reordered false j j') (hk : step? j segment = some k) :
    ∃ k', step? j' segment = some k' ∧ Json.Reordered false k k' := by
  cases j with
  | arr xs =>
    obtain ⟨ys, rfl, hys⟩ := reordered_items h
    unfold step? at hk ⊢
    simp only [Option.bind_eq_some_iff] at hk ⊢
    obtain ⟨i, hi, hx⟩ := hk
    obtain ⟨y, hy⟩ := exists_getElem? hys.length_eq hx
    exact ⟨y, ⟨i, hi, hy⟩, rel_of_getElem? hys hx hy⟩
  | obj ms =>
    obtain ⟨ns, rfl, hns⟩ := reordered_obj_iff.mp h
    obtain ⟨k', hk', hreordered⟩ := hns.found hk
    rw [beq_eq_false_iff_ne.mpr hsegment] at hreordered
    exact ⟨k', hk', hreordered⟩
  | _ => simp [step?] at hk

/-- A walk that does not lead into a list of parts leads to the same in another order. -/
theorem reordered_walk {segments : List String} (hsegments : "allOf" ∉ segments) {j j' k : Json}
    (h : Json.Reordered false j j') (hk : walk j segments = .ok k) :
    ∃ k', walk j' segments = .ok k' ∧ Json.Reordered false k k' := by
  induction segments generalizing j j' with
  | nil =>
    cases hk
    exact ⟨j', rfl, h⟩
  | cons segment rest ih =>
    rw [List.mem_cons, not_or] at hsegments
    obtain ⟨hsegment, hrest⟩ := hsegments
    unfold walk at hk
    split at hk
    · rename_i next hnext
      obtain ⟨next', hnext', hreordered⟩ := reordered_step (Ne.symm hsegment) h hnext
      obtain ⟨k', hk', hsame⟩ := ih hrest hreordered hk
      refine ⟨k', ?_, hsame⟩
      unfold walk
      rw [hnext']
      exact hk'
    · simp at hk

theorem reordered_target {ref : String} (href : "allOf" ∉ pointerSegments ref)
    {root root' : Members Json} (h : Members.Reordered root root') {j : Json}
    (hj : resolveRef ref root = .ok j) :
    ∃ j', resolveRef ref root' = .ok j' ∧ Json.Reordered false j j' := by
  have hwalk : ∀ {current current' : Json} {segments : List String}, "allOf" ∉ segments →
      Json.Reordered false current current' →
      (walk current segments).mapError (CompileError.unresolved ref) = .ok j →
      ∃ j', (walk current' segments).mapError (CompileError.unresolved ref) = .ok j' ∧
        Json.Reordered false j j' := by
    intro current current' segments hsegments hcurrent hw
    obtain ⟨j', hj', hreordered⟩ :=
      reordered_walk hsegments hcurrent (mapError_ok_iff.mp hw)
    exact ⟨j', mapError_ok_iff.mpr hj', hreordered⟩
  unfold resolveRef at hj ⊢
  split at hj
  · rename_i name rest hsegments
    rw [hsegments] at href
    split at hj
    · rename_i definitions hdefs
      obtain ⟨definitions', hdefs', hreordered⟩ := h.found hdefs
      simp only [hdefs']
      exact hwalk (fun hmem => href (List.mem_cons_of_mem _ (List.mem_cons_of_mem _ hmem)))
        hreordered hj
    · simp at hj
  · exact hwalk (fun hmem => href (List.mem_of_mem_drop hmem))
      (reordered_obj_iff.mpr ⟨root', rfl, h⟩) hj

/-- Without the condition a pointer may lead elsewhere: it finds a part by its place. -/
example :
    let found (parts : List Json) : Option String :=
      (resolveRef "#/allOf/0" [("allOf", .arr parts)]).toOption.bind Json.str?
    found [.str "sky", .str "sea"] = some "sky" ∧ found [.str "sea", .str "sky"] = some "sea" := by
  decide +kernel

end JsonModel
