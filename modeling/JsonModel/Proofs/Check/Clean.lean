-- What the checks of types without parts have nothing to say against: a number that keeps its bounds, a
-- text whose length keeps them, a link whose scheme is one of those that are allowed.
import JsonModel.Check.Type
import JsonModel.Proofs.Check.Parts

namespace JsonModel

/-! ## Limits that are kept -/

theorem boundFault_eq_nil {bound : Option Number} {keeps : Number → Bool} {fault : Number → Fault} :
    boundFault bound keeps fault = [] ↔ ∀ b, bound = some b → keeps b = true := by
  cases bound with
  | none => simp [boundFault]
  | some b => simp [boundFault]

/-- A number keeps all the bounds that are set. -/
structure Limits.Bounds (limits : Limits) (n : Number) : Prop where
  atLeast : ∀ b, limits.atLeast = some b → b.le n = true
  above : ∀ b, limits.above = some b → b.lt n = true
  atMost : ∀ b, limits.atMost = some b → n.le b = true
  below : ∀ b, limits.below = some b → n.lt b = true
  multipleOf : ∀ step, limits.multipleOf = some step → n.isMultipleOf step = true

/-- A text keeps the bounds on its length. -/
structure Limits.Lengths (limits : Limits) (s : String) : Prop where
  minLength : ∀ b, limits.minLength = some b → b.le (.ofNat s.length) = true
  maxLength : ∀ b, limits.maxLength = some b → (Number.ofNat s.length).le b = true

theorem numberFaults_eq_nil {limits : Limits} {n : Number} :
    limits.numberFaults n = [] ↔ limits.Bounds n := by
  unfold Limits.numberFaults
  simp only [List.append_eq_nil_iff, boundFault_eq_nil]
  constructor
  · rintro ⟨⟨⟨⟨hleast, habove⟩, hmost⟩, hbelow⟩, hstep⟩
    exact ⟨hleast, habove, hmost, hbelow, hstep⟩
  · rintro ⟨hleast, habove, hmost, hbelow, hstep⟩
    exact ⟨⟨⟨⟨hleast, habove⟩, hmost⟩, hbelow⟩, hstep⟩

theorem haveLength_clean_iff {limits : Limits} {v : Value} :
    (haveLength limits v).issues = [] ↔ ∃ s, v = .str s ∧ limits.Lengths s := by
  cases v with
  | str s =>
    unfold haveLength Outcome.keep Limits.lengthFaults Value.length?
    simp only [List.map_eq_nil_iff, List.append_eq_nil_iff, boundFault_eq_nil, Value.str.injEq,
      exists_eq_left']
    exact ⟨fun ⟨hmin, hmax⟩ => ⟨hmin, hmax⟩, fun ⟨hmin, hmax⟩ => ⟨hmin, hmax⟩⟩
  | _ => simp [haveLength, Outcome.keep]

theorem bounds_none (n : Number) : Limits.Bounds {} n := by
  constructor <;> simp

theorem lengths_none (s : String) : Limits.Lengths {} s := by
  constructor <;> simp

/-! ## Types without parts -/

section

variable {places : Places} {limits : Limits} {v : Value}

theorem accepting_primitive {kind : Primitive} :
    accepting ((TypeDescriptor.primitive kind).check places limits v) = true ↔
      (kind.check limits v).issues = [] := by
  unfold TypeDescriptor.check accepting Outcome.accepted
  simp

theorem accepting_semantic {kind : Semantic} :
    accepting ((TypeDescriptor.semantic kind).check places limits v) = true ↔
      (kind.check places limits v).issues = [] := by
  unfold TypeDescriptor.check accepting Outcome.accepted
  simp

theorem integer_clean_iff : (Primitive.integer.check limits v).issues = [] ↔
    ∃ n, v = .num n ∧ n.isFinite = true ∧ n.isWhole = true ∧ safeRangeFaults n = [] ∧
      limits.Bounds n := by
  cases v with
  | num n =>
    unfold Primitive.check
    simp only [Value.num.injEq, exists_eq_left', ← numberFaults_eq_nil]
    cases hfinite : n.isFinite with
    | false => simp [wrongType, Outcome.reject]
    | true =>
      cases hwhole : n.isWhole with
      | false => simp [wrongType, Outcome.reject]
      | true => simp [Outcome.keep]
  | _ => simp [Primitive.check, wrongType, Outcome.reject]

theorem number_clean_iff : (Primitive.number.check limits v).issues = [] ↔
    ∃ n, v = .num n ∧ n.isFinite = true ∧ limits.Bounds n := by
  cases v with
  | num n =>
    unfold Primitive.check
    simp only [Value.num.injEq, exists_eq_left', ← numberFaults_eq_nil]
    cases hfinite : n.isFinite with
    | false => simp [wrongType, Outcome.reject]
    | true => simp [Outcome.keep]
  | _ => simp [Primitive.check, wrongType, Outcome.reject]

end

/-! ## Links -/

theorem dropWhile_filter_of_edge {α : Type} {edge keep : α → Bool}
    (h : ∀ x, keep x = false → edge x = true) (xs : List α) :
    (xs.filter keep).dropWhile edge = (xs.dropWhile edge).filter keep := by
  have hedge : (fun x => !keep x || edge x) = edge := by
    funext x
    cases hkeep : keep x with
    | false => simp [h x hkeep]
    | true => rfl
  rw [List.dropWhile_filter, hedge]

/-- A link that has been tidied is read as before. -/
theorem schemeOf?_tidyLink (s : String) :
    Link.schemeOf? (tidyLink s).toList = Link.schemeOf? (trimBlank s.toList) := by
  have hedge : ∀ c : Char, (!(c == '\t' || c == '\n' || c == '\r')) = false →
      decide (c.toNat ≤ 32) = true := by
    intro c hc
    simp only [Bool.not_eq_false', Bool.or_eq_true, beq_iff_eq] at hc
    rcases hc with (rfl | rfl) | rfl <;> rfl
  have hcleaned : Link.cleaned (tidyLink s).toList = Link.cleaned (trimBlank s.toList) := by
    unfold Link.cleaned tidyLink
    simp only [String.toList_ofList]
    rw [dropWhile_filter_of_edge hedge, ← List.filter_reverse, dropWhile_filter_of_edge hedge,
      ← List.filter_reverse, List.filter_filter]
    simp only [Bool.and_self]
  unfold Link.schemeOf?
  rw [hcleaned]

/-- A text is taken as a link if it is one, and its scheme is one of those that are allowed. -/
theorem haveLink_clean_iff {schemes : Option (List String)} {refusal : String} {v : Value} :
    (haveLink v schemes refusal).issues = [] ↔
      ∃ s scheme, v = .str s ∧ Link.schemeOf? (trimBlank s.toList) = some scheme ∧
        ∀ allowed, schemes = some allowed → scheme ∈ allowed := by
  cases v with
  | str s =>
    unfold haveLink onText Outcome.keep
    cases hscheme : Link.schemeOf? (trimBlank s.toList) with
    | none => simp [faultUnless, hscheme]
    | some scheme =>
      cases schemes with
      | none => simp [faultUnless, hscheme]
      | some allowed =>
        unfold Link.hasScheme
        simp [faultUnless, schemeOf?_tidyLink, hscheme]
  | _ => simp [haveLink, onText, wrongType, Outcome.reject]

end JsonModel
