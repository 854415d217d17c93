-- Limits on the leaves of a type. They bear on nothing but the leaves that stand in the type through
-- unions alone. And tighter limits take nothing in that looser ones do not: with the looser ones a union
-- looks at no more variants, and whether a variant clashes has nothing to do with limits.
import JsonModel.Proofs.Check.Clean
import JsonModel.Proofs.Check.Looser
import JsonModel.Proofs.Descriptor
import JsonModel.Proofs.Number.Order

namespace JsonModel

variable {places : Places} {limits limits' : Limits} {t : TypeDescriptor} {v : Value}

/-! ## What limits bear on -/

/-- A type that has limits of its own: those of a number, of a text, or of a link. -/
def TypeDescriptor.isLimited : TypeDescriptor → Bool
  | .primitive .integer | .primitive .number | .primitive .string | .semantic .uri => true
  | _ => false

/-- A type stands in another one through unions alone. -/
inductive TypeDescriptor.Offers : TypeDescriptor → TypeDescriptor → Prop
  | self {t : TypeDescriptor} : Offers t t
  | variant {ts : List TypeDescriptor} {t leaf : TypeDescriptor} : t ∈ ts → Offers t leaf →
      Offers (.union ts) leaf

/-- Nothing that has limits of its own stands in the type through unions alone. -/
def TypeDescriptor.Unlimited (t : TypeDescriptor) : Prop :=
  ∀ leaf, t.Offers leaf → leaf.isLimited = false

/-- Limits do not reach into lists, parts that must all hold and models, and most leaves have none. -/
theorem check_of_not_limited (hunion : ∀ ts, t ≠ .union ts) (hlimited : t.isLimited = false) :
    t.check places limits v = t.check places limits' v := by
  cases t with
  | primitive kind =>
    cases kind with
    | integer | number | string => simp [TypeDescriptor.isLimited] at hlimited
    | boolean | null | any => cases v <;> rfl
  | semantic kind =>
    cases kind with
    | uri => simp [TypeDescriptor.isLimited] at hlimited
    | _ => rfl
  | mapping | anyList | listOf => cases v <;> rfl
  | union ts => exact absurd rfl (hunion ts)
  | intersection ts => cases ts <;> rfl
  | composite d =>
    obtain ⟨_, _, _, _⟩ := d
    rfl

theorem checkVariants_congr {ts : List TypeDescriptor}
    (h : ∀ t ∈ ts, t.check places limits v = t.check places limits' v) :
    TypeDescriptor.checkVariants places ts limits v =
      TypeDescriptor.checkVariants places ts limits' v := by
  induction ts with
  | nil => rfl
  | cons t ts ih =>
    unfold TypeDescriptor.checkVariants
    rw [h t List.mem_cons_self, ih fun u hu => h u (List.mem_cons_of_mem _ hu)]

theorem check_union_congr {ts : List TypeDescriptor}
    (h : ∀ t ∈ ts, t.check places limits v = t.check places limits' v) :
    (TypeDescriptor.union ts).check places limits v =
      (TypeDescriptor.union ts).check places limits' v := by
  by_cases hone : ∃ only, ts = [only]
  · obtain ⟨only, rfl⟩ := hone
    exact h only List.mem_cons_self
  · have hmany : ∀ only, ts ≠ [only] := fun only honly => hone ⟨only, honly⟩
    rw [union_check hmany, union_check hmany, checkVariants_congr h]

theorem check_of_unlimited (h : t.Unlimited) :
    t.check places limits v = t.check places limits' v := by
  induction t using TypeDescriptor.induction with
  | union ts ih =>
    exact check_union_congr fun t ht => ih t ht fun leaf hleaf => h leaf (.variant ht hleaf)
  | _ => exact check_of_not_limited (by simp) (h _ .self)

/-! ## Tighter limits -/

/-- A number is another one, or less. -/
def Number.AtMost (a b : Number) : Prop := a = b ∨ a.le b = true

/-- Limits tighten others: each bound of those is there, and is at least as tight. -/
structure Limits.Tightens (limits' limits : Limits) : Prop where
  atLeast : ∀ b, limits.atLeast = some b → ∃ b', limits'.atLeast = some b' ∧ b.AtMost b'
  above : ∀ b, limits.above = some b → ∃ b', limits'.above = some b' ∧ b.AtMost b'
  atMost : ∀ b, limits.atMost = some b → ∃ b', limits'.atMost = some b' ∧ b'.AtMost b
  below : ∀ b, limits.below = some b → ∃ b', limits'.below = some b' ∧ b'.AtMost b
  multipleOf : ∀ step, limits.multipleOf = some step → limits'.multipleOf = some step
  minLength : ∀ b, limits.minLength = some b → ∃ b', limits'.minLength = some b' ∧ b.AtMost b'
  maxLength : ∀ b, limits.maxLength = some b → ∃ b', limits'.maxLength = some b' ∧ b'.AtMost b
  schemes : ∀ allowed, limits.schemes = some allowed →
    ∃ allowed', limits'.schemes = some allowed' ∧ allowed' ⊆ allowed

theorem Number.AtMost.le {a b n : Number} (h : a.AtMost b) (hb : b.le n = true) : a.le n = true := by
  rcases h with rfl | hab
  · exact hb
  · exact le_trans hab hb

theorem Number.AtMost.lt {a b n : Number} (h : a.AtMost b) (hb : b.lt n = true) : a.lt n = true := by
  rcases h with rfl | hab
  · exact hb
  · exact lt_of_le_of_lt hab hb

theorem Number.AtMost.ge {a b n : Number} (h : a.AtMost b) (ha : n.le a = true) : n.le b = true := by
  rcases h with rfl | hab
  · exact ha
  · exact le_trans ha hab

theorem Number.AtMost.gt {a b n : Number} (h : a.AtMost b) (ha : n.lt a = true) : n.lt b = true := by
  rcases h with rfl | hab
  · exact ha
  · exact lt_of_lt_of_le ha hab

theorem Limits.Tightens.bounds (h : limits'.Tightens limits) {n : Number}
    (hn : limits'.Bounds n) : limits.Bounds n where
  atLeast b hb := by
    obtain ⟨b', hb', hle⟩ := h.atLeast b hb
    exact hle.le (hn.atLeast b' hb')
  above b hb := by
    obtain ⟨b', hb', hle⟩ := h.above b hb
    exact hle.lt (hn.above b' hb')
  atMost b hb := by
    obtain ⟨b', hb', hle⟩ := h.atMost b hb
    exact hle.ge (hn.atMost b' hb')
  below b hb := by
    obtain ⟨b', hb', hle⟩ := h.below b hb
    exact hle.gt (hn.below b' hb')
  multipleOf step hstep := hn.multipleOf step (h.multipleOf step hstep)

theorem Limits.Tightens.lengths (h : limits'.Tightens limits) {s : String}
    (hs : limits'.Lengths s) : limits.Lengths s where
  minLength b hb := by
    obtain ⟨b', hb', hle⟩ := h.minLength b hb
    exact hle.le (hs.minLength b' hb')
  maxLength b hb := by
    obtain ⟨b', hb', hle⟩ := h.maxLength b hb
    exact hle.ge (hs.maxLength b' hb')

/-! ## Leaves -/

/-- A primitive type finds nothing wrong within looser limits where it finds nothing wrong within
tighter ones. -/
theorem Limits.Tightens.primitive (h : limits'.Tightens limits) {kind : Primitive}
    (hclean : (kind.check limits' v).issues = []) : (kind.check limits v).issues = [] := by
  cases kind with
  | string =>
    obtain ⟨s, rfl, hlengths⟩ := haveLength_clean_iff.mp hclean
    exact haveLength_clean_iff.mpr ⟨s, rfl, h.lengths hlengths⟩
  | integer =>
    obtain ⟨n, rfl, hfinite, hwhole, hsafe, hbounds⟩ := integer_clean_iff.mp hclean
    exact integer_clean_iff.mpr ⟨n, rfl, hfinite, hwhole, hsafe, h.bounds hbounds⟩
  | number =>
    obtain ⟨n, rfl, hfinite, hbounds⟩ := number_clean_iff.mp hclean
    exact number_clean_iff.mpr ⟨n, rfl, hfinite, h.bounds hbounds⟩
  | boolean | null | any => cases v <;> exact hclean

/-- A semantic type does so, too. -/
theorem Limits.Tightens.semantic (h : limits'.Tightens limits) {kind : Semantic}
    (hclean : (kind.check places limits' v).issues = []) :
    (kind.check places limits v).issues = [] := by
  cases kind with
  | uri =>
    simp only [Semantic.check] at hclean ⊢
    obtain ⟨s, scheme, rfl, hscheme, hallowed⟩ := haveLink_clean_iff.mp hclean
    refine haveLink_clean_iff.mpr ⟨s, scheme, rfl, hscheme, fun allowed hschemes => ?_⟩
    obtain ⟨allowed', hschemes', hsubset⟩ := h.schemes allowed hschemes
    exact hsubset (hallowed allowed' hschemes')
  | _ => exact hclean

/-! ## Types -/

section

variable {α β ε : Type _}

/-- Where the first search ends, so does the second, and it finds something if the first does. -/
def FindsNoLess (x y : Except ε (Option β)) : Prop :=
  ∀ found, x = .ok found → ∃ found', y = .ok found' ∧ (found.isSome = true → found'.isSome = true)

/-- A search through a list ends where its searches at the items end: it goes no further than one
that finds less. -/
theorem findSomeM?_findsNoLess {f g : α → Except ε (Option β)} {xs : List α}
    (h : ∀ x ∈ xs, FindsNoLess (f x) (g x)) : FindsNoLess (xs.findSomeM? f) (xs.findSomeM? g) := by
  induction xs with
  | nil =>
    rintro found ⟨⟩
    exact ⟨none, rfl, nofun⟩
  | cons x xs ih =>
    intro found hfound
    rw [List.findSomeM?_cons] at hfound
    obtain ⟨here, hhere, hfound⟩ := bind_ok_iff.mp hfound
    obtain ⟨here', hhere', hless⟩ := h x List.mem_cons_self here hhere
    rw [List.findSomeM?_cons, hhere']
    cases here' with
    | some b => exact ⟨some b, rfl, fun _ => rfl⟩
    | none =>
      cases here with
      | some b => simp at hless
      | none => exact ih (fun y hy => h y (List.mem_cons_of_mem _ hy)) found hfound

end

theorem isSome_output? {o : Outcome} : o.output?.isSome = true ↔ o.issues = [] := by
  unfold Outcome.output? Outcome.accepted
  split <;> simp_all

theorem findsNoLess_of_clean {t' : TypeDescriptor} {o o' : Outcome}
    (ho : t.check places limits' v = .ok o) (ho' : t'.check places limits v = .ok o')
    (h : o.issues = [] → o'.issues = []) :
    FindsNoLess (t.output? places limits' v) (t'.output? places limits v) := by
  rw [output?_eq, output?_eq, ho, ho']
  rintro found ⟨⟩
  refine ⟨_, rfl, ?_⟩
  rw [isSome_output?, isSome_output?]
  exact h

/-- Within looser limits a type answers where it answers within tighter ones, and takes no less. -/
theorem Limits.Tightens.findsNoLess (h : limits'.Tightens limits) (t : TypeDescriptor) :
    FindsNoLess (t.output? places limits' v) (t.output? places limits v) := by
  have hsame : ∀ t : TypeDescriptor, (∀ ts, t ≠ .union ts) → t.isLimited = false →
      FindsNoLess (t.output? places limits' v) (t.output? places limits v) := by
    intro t hunion hlimited found hfound
    rw [output?_eq, check_of_not_limited hunion hlimited, ← output?_eq] at hfound
    exact ⟨found, hfound, id⟩
  induction t using TypeDescriptor.induction with
  | primitive kind => exact findsNoLess_of_clean rfl rfl h.primitive
  | semantic kind => exact findsNoLess_of_clean rfl rfl h.semantic
  | union ts ih =>
    rw [output?_union, output?_union]
    exact findSomeM?_findsNoLess ih
  | mapping | anyList | listOf | intersection | composite => exact hsame _ (by simp) rfl

/-- Limits make no difference to a type in which nothing that has limits stands through unions alone,
and whatever is taken within some limits is taken within all that they tighten. -/
theorem limits_reach_leaves_alone_and_tighter_ones_take_less (places : Places) (t : TypeDescriptor)
    (limits : Limits) (v : Value) :
    (t.Unlimited → t.safeParse places limits v = t.safeParse places {} v) ∧
      ∀ limits', limits'.Tightens limits → (∃ out, t.Gives places limits' v out) →
        ∃ out, t.Gives places limits v out := by
  constructor
  · intro h
    unfold TypeDescriptor.safeParse
    rw [check_of_unlimited h]
  · rintro limits' htight ⟨out, hout⟩
    obtain ⟨found, hfound, hsome⟩ := htight.findsNoLess t _ (output?_eq_some.mpr hout)
    obtain ⟨out', rfl⟩ := Option.isSome_iff_exists.mp (hsome rfl)
    exact ⟨out', output?_eq_some.mp hfound⟩

/-- A link, or else any text. -/
def linkOrText : TypeDescriptor := .union [.semantic .uri, .primitive .string]

/-- Some numbers, or null. -/
def countsOrNull : TypeDescriptor := .union [.listOf (.primitive .integer), .primitive .null]

def anyLinks : Limits := { atLeast := some .zero, schemes := some ["http", "mailto"] }

def pageLinks : Limits := { anyLinks with schemes := some ["http"] }

/-- What is no link to a page is taken as a text, and comes out with its blank. With fewer limits it is
taken as a link. The numbers of a list are not limited at all. -/
theorem what_is_no_page_is_a_link_or_a_text :
    pageLinks.Tightens anyLinks ∧
      linkOrText.Gives ⟨fun _ => false, fun _ => false⟩ pageLinks (.str " mailto:ida")
        (.str " mailto:ida") ∧
      (∃ out, linkOrText.Gives ⟨fun _ => false, fun _ => false⟩ anyLinks (.str " mailto:ida") out) ∧
      countsOrNull.Unlimited ∧
      countsOrNull.safeParse ⟨fun _ => false, fun _ => false⟩ anyLinks
          (.arr .given [.num (.neg (.ofNat 1))]) =
        countsOrNull.safeParse ⟨fun _ => false, fun _ => false⟩ {}
          (.arr .given [.num (.neg (.ofNat 1))]) := by
  have htight : pageLinks.Tightens anyLinks :=
    { atLeast := fun b hb => ⟨b, hb, .inl rfl⟩
      above := by simp [anyLinks]
      atMost := by simp [anyLinks]
      below := by simp [anyLinks]
      multipleOf := by simp [anyLinks]
      minLength := by simp [anyLinks]
      maxLength := by simp [anyLinks]
      schemes := by simp [anyLinks, pageLinks] }
  have htext : linkOrText.Gives ⟨fun _ => false, fun _ => false⟩ pageLinks (.str " mailto:ida")
      (.str " mailto:ida") := rfl
  have hlink := (limits_reach_leaves_alone_and_tighter_ones_take_less
    ⟨fun _ => false, fun _ => false⟩ linkOrText anyLinks (.str " mailto:ida")).2
      pageLinks htight ⟨_, htext⟩
  have hunlimited : countsOrNull.Unlimited := by
    rintro leaf (_ | ⟨hmem, hoffers⟩)
    · rfl
    · simp only [List.mem_cons, List.not_mem_nil, or_false] at hmem
      rcases hmem with rfl | rfl <;> cases hoffers <;> rfl
  exact ⟨htight, htext, hlink, hunlimited,
    (limits_reach_leaves_alone_and_tighter_ones_take_less _ countsOrNull anyLinks _).1 hunlimited⟩

end JsonModel
