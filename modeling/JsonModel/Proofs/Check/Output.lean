-- What a type gives for a value: the value that comes out, or nothing. A union gives what the first of
-- its variants does, so that only what the variants give counts, and not how they refuse.
import JsonModel.Check.Model
import JsonModel.Proofs.Check.Parts

namespace JsonModel

/-! ## What comes out -/

/-- The value of a success. -/
def ParseResult.value? : ParseResult → Option Value
  | .success v => some v
  | .failure _ => none

/-- What a type gives for a value, if it accepts it. -/
def TypeDescriptor.output? (places : Places) (t : TypeDescriptor) (limits : Limits) (v : Value) :
    Except Clash (Option Value) :=
  (t.safeParse places limits v).map ParseResult.value?

variable {places : Places} {limits : Limits} {t : TypeDescriptor} {v out : Value}

/-- The value of an outcome without issues. -/
def Outcome.output? (o : Outcome) : Option Value := if o.accepted then some o.value else none

theorem value?_toResult (o : Outcome) : o.toResult.value? = o.output? := by
  unfold Outcome.toResult Outcome.output?
  split <;> rfl

theorem output?_eq : t.output? places limits v = (t.check places limits v).map Outcome.output? := by
  unfold TypeDescriptor.output? TypeDescriptor.safeParse
  cases t.check places limits v with
  | ok o => exact congrArg Except.ok (value?_toResult o)
  | error clash => rfl

/-- The type accepts a value, and this comes out. -/
def TypeDescriptor.Gives (places : Places) (t : TypeDescriptor) (limits : Limits) (v out : Value) :
    Prop :=
  t.safeParse places limits v = .ok (.success out)

theorem output?_eq_some :
    t.output? places limits v = .ok (some out) ↔ t.Gives places limits v out := by
  unfold TypeDescriptor.output? TypeDescriptor.Gives
  rw [map_ok_iff]
  constructor
  · rintro ⟨result, hresult, hvalue⟩
    cases result with
    | success value =>
      cases hvalue
      exact hresult
    | failure issues => simp [ParseResult.value?] at hvalue
  · intro h
    exact ⟨_, h, rfl⟩

theorem output?_eq_error {clash : Clash} :
    t.output? places limits v = .error clash ↔ t.safeParse places limits v = .error clash :=
  map_error_iff

theorem exists_output? (h : ∃ result, t.safeParse places limits v = .ok result) :
    ∃ value, t.output? places limits v = .ok value := by
  obtain ⟨result, hresult⟩ := h
  exact ⟨_, map_ok_iff.mpr ⟨result, hresult, rfl⟩⟩

/-! ## The first that gives something -/

section

variable {α β ε : Type _} {f : α → Except ε (Option β)}

/-- What is found in a first list, or else in a second one. -/
theorem findSomeM?_append (xs ys : List α) :
    (xs ++ ys).findSomeM? f = (do
      match ← xs.findSomeM? f with
      | some b => return some b
      | none => ys.findSomeM? f) := by
  induction xs with
  | nil => rw [List.nil_append, List.findSomeM?_nil, pure_bind]
  | cons x xs ih =>
    rw [List.cons_append, List.findSomeM?_cons, List.findSomeM?_cons, bind_assoc]
    congr 1
    funext found
    cases found with
    | none => exact ih
    | some b => rfl

theorem bind_eq_map_or (x : Except ε (Option β)) (last : Option β) :
    (do
      match ← x with
      | some b => return some b
      | none => .ok last) = x.map fun found => found.or last := by
  cases x with
  | error e => rfl
  | ok found => cases found <;> rfl

/-- A list that stands for an item is looked through where the item stands. -/
theorem findSomeM?_splice (before inner after : List α) {x : α} (hx : f x = inner.findSomeM? f) :
    (before ++ x :: after).findSomeM? f = (before ++ inner ++ after).findSomeM? f := by
  rw [List.append_assoc, findSomeM?_append, findSomeM?_append before]
  congr 1
  funext found
  cases found with
  | none =>
    rw [List.findSomeM?_cons, hx, findSomeM?_append]
    rfl
  | some b => rfl

/-- Where nothing fails, something is found exactly if an item gives it. -/
theorem findSomeM?_total {xs : List α} (h : ∀ x ∈ xs, ∃ found, f x = .ok found) :
    ∃ found, xs.findSomeM? f = .ok found ∧
      (found.isSome = true ↔ ∃ x ∈ xs, ∃ b, f x = .ok (some b)) := by
  induction xs with
  | nil => exact ⟨none, rfl, by simp⟩
  | cons x xs ih =>
    obtain ⟨here, hhere⟩ := h x List.mem_cons_self
    obtain ⟨found, hfound, hiff⟩ := ih fun y hy => h y (List.mem_cons_of_mem _ hy)
    rw [List.findSomeM?_cons, hhere]
    cases here with
    | some b => exact ⟨some b, rfl, by simp [hhere]⟩
    | none => exact ⟨found, hfound, by simpa [hhere] using hiff⟩

/-- What comes before gives nothing, so that what stands here is found. -/
theorem findSomeM?_of_first {before : List α} (after : List α) {x : α} {b : β}
    (hbefore : ∀ y ∈ before, f y = .ok none) (hx : f x = .ok (some b)) :
    (before ++ x :: after).findSomeM? f = .ok (some b) := by
  induction before with
  | nil =>
    rw [List.nil_append, List.findSomeM?_cons, hx]
    rfl
  | cons y before ih =>
    rw [List.cons_append, List.findSomeM?_cons, hbefore y List.mem_cons_self]
    exact ih fun z hz => hbefore z (List.mem_cons_of_mem _ hz)

end

/-! ## Unions -/

/-- The value of the variant that won, if one did. -/
def variantOutput? : Outcome ⊕ List Outcome → Option Value
  | .inl winner => some winner.value
  | .inr _ => none

theorem checkVariants_output (ts : List TypeDescriptor) :
    (TypeDescriptor.checkVariants places ts limits v).map variantOutput? =
      ts.findSomeM? fun t => t.output? places limits v := by
  induction ts with
  | nil => rfl
  | cons t ts ih =>
    rw [TypeDescriptor.checkVariants, List.findSomeM?_cons, output?_eq]
    cases t.check places limits v with
    | error clash => rfl
    | ok o =>
      simp only [bind, Except.bind, Except.map, Outcome.output?]
      by_cases haccepted : o.accepted = true
      · rw [if_pos haccepted, if_pos haccepted]
        rfl
      · rw [if_neg haccepted, if_neg haccepted, ← ih]
        cases TypeDescriptor.checkVariants places ts limits v with
        | error clash => rfl
        | ok r => cases r <;> rfl

/-- A union gives what the first of its variants gives. -/
theorem output?_union (ts : List TypeDescriptor) :
    (TypeDescriptor.union ts).output? places limits v =
      ts.findSomeM? fun t => t.output? places limits v := by
  by_cases hone : ∃ only, ts = [only]
  · obtain ⟨only, rfl⟩ := hone
    have hcheck : (TypeDescriptor.union [only]).check places limits v =
        only.check places limits v := rfl
    rw [output?_eq, hcheck, ← output?_eq, List.findSomeM?_cons]
    cases only.output? places limits v with
    | error clash => rfl
    | ok found => cases found <;> rfl
  · rw [output?_eq, union_check fun only honly => hone ⟨only, honly⟩, ← checkVariants_output]
    cases hr : TypeDescriptor.checkVariants places ts limits v with
    | error clash => rfl
    | ok r =>
      rcases checkVariants_ok hr with ⟨winner, rfl, haccepted, -⟩ | ⟨outcomes, rfl, hall⟩
      · simp only [bind, Except.bind, pure, Except.pure, Except.map, Outcome.output?,
          variantOutput?]
        rw [if_pos haccepted]
      · -- No variant accepts, and neither does the one that stands for all.
        have hrejected : (noVariantOutcome v outcomes).accepted = false := by
          unfold noVariantOutcome
          split
          · rename_i only honly
            have hmem : only ∈ outcomes.filter fun o => !o.aborted := by
              rw [honly]
              exact List.mem_singleton_self _
            obtain ⟨_, -, -, hrejected⟩ :=
              exists_of_forall₂ hall.flip (List.mem_filter.mp hmem).1
            exact hrejected
          · rfl
        simp only [bind, Except.bind, pure, Except.pure, Except.map, Outcome.output?,
          variantOutput?]
        rw [if_neg (by simp [hrejected])]

/-! ## Unions with null -/

/-- What null gives: null for null, and nothing for any other value. -/
def Value.ifNull : Value → Option Value
  | .null => some .null
  | _ => none

theorem ifNull_eq_some : v.ifNull = some out ↔ v = .null ∧ out = .null := by
  cases v <;> simp [Value.ifNull, eq_comm]

theorem output?_null :
    (TypeDescriptor.primitive .null).output? places limits v = .ok v.ifNull := by
  rw [output?_eq]
  cases v <;> rfl

theorem findSomeM?_null :
    [TypeDescriptor.primitive .null].findSomeM? (fun t => t.output? places limits v) =
      .ok v.ifNull := by
  rw [List.findSomeM?_cons, output?_null]
  cases v <;> rfl

/-- Null as a further variant is asked where the others give nothing. -/
theorem output?_union_null (ts : List TypeDescriptor) :
    (TypeDescriptor.union (ts ++ [.primitive .null])).output? places limits v =
      ((TypeDescriptor.union ts).output? places limits v).map fun given => given.or v.ifNull := by
  rw [output?_union, output?_union, findSomeM?_append, findSomeM?_null]
  exact bind_eq_map_or _ _

/-- Null beside a type is asked where the type gives nothing. -/
theorem output?_pair_null : (TypeDescriptor.union [t, .primitive .null]).output? places limits v =
    (t.output? places limits v).map fun given => given.or v.ifNull := by
  rw [output?_union, List.findSomeM?_cons, findSomeM?_null]
  exact bind_eq_map_or _ _

end JsonModel
