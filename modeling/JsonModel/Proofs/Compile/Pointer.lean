-- Which locations of a document a pointer names. A pointer is cut at its slashes and its segments
-- are taken as they stand: a location is reached by the steps that lead to it, as long as no name on
-- the way has a slash in it, and no pointer leads through a name that has one.
import JsonModel.Proofs.Check.Place
import JsonModel.Proofs.Json.Numeral
import JsonModel.Proofs.Split
import JsonModel.Tool.Answer

namespace JsonModel

/-! ## Indices -/

namespace Number

theorem spacing_mul_pow_dvd {i : Nat} (h : i < Nat.pow 2 53) (k : Nat) :
    spacing (i * Nat.pow 2 k) ∣ Nat.pow 2 k := by
  have hlog : (i * Nat.pow 2 k).log2 < 53 + k := by
    by_cases hzero : i * Nat.pow 2 k = 0
    · rw [hzero, Nat.log2_zero]
      omega
    · rw [Nat.log2_lt hzero, Nat.pow_add]
      exact Nat.mul_lt_mul_of_pos_right h (two_pow_pos k)
  exact Nat.pow_dvd_pow 2 (by omega)

theorem representable_of_lt {i : Nat} (h : i < Nat.pow 2 53) : Representable (i * unitsPerOne) := by
  have hlimit : Nat.pow 2 53 * unitsPerOne ≤ unitLimit := by
    unfold unitLimit
    rw [← two_pow_add_unit]
    apply two_pow_le
    omega
  constructor
  · exact Nat.lt_of_lt_of_le (Nat.mul_lt_mul_of_pos_right h unitsPerOne_pos) hlimit
  · unfold unitsPerOne
    generalize 1074 = k
    exact Nat.dvd_trans (spacing_mul_pow_dvd h k) (Nat.dvd_mul_left _ _)

/-- A whole number of up to 53 binary digits is a number of its own. -/
theorem toIndex?_ofNat {i : Nat} (h : i < Nat.pow 2 53) : (ofNat i).toIndex? = some i := by
  have hunits := representable_of_lt h
  unfold ofNat ofFraction ofUnits
  rw [nearestUnits_of_representable hunits, dif_pos hunits]
  unfold toIndex? toInt?
  simp [Nat.mul_mod_left, Nat.mul_div_cancel _ unitsPerOne_pos, Int.toNat?]

end Number

theorem not_blank_of_digit {c : Char} (h : c.isDigit = true) : isBlank c = false := by
  rw [Char.isDigit_iff_toNat] at h
  have hzero : '0'.toNat = 48 := rfl
  have hnine : '9'.toNat = 57 := rfl
  unfold isBlank
  simp only [Bool.or_eq_false_iff, Bool.and_eq_false_iff, decide_eq_false_iff_not,
    beq_eq_false_iff_ne]
  omega

theorem dropWhile_eq_self {p : Char → Bool} {cs : List Char} (h : ∀ c ∈ cs, p c = false) :
    cs.dropWhile p = cs := by
  cases cs with
  | nil => rfl
  | cons c cs => simp [h c List.mem_cons_self]

theorem trimBlank_eq_self {cs : List Char} (h : ∀ c ∈ cs, isBlank c = false) :
    trimBlank cs = cs := by
  unfold trimBlank
  rw [dropWhile_eq_self h, dropWhile_eq_self fun c hc => h c (List.mem_reverse.mp hc),
    List.reverse_reverse]

/-- The digits of a whole number are read as that number. -/
theorem Number.ofText_decimalText (n : Nat) : Number.ofText (decimalText n) = .ofNat n := by
  have hdigits : ∀ c ∈ Nat.toDigits 10 n, c.isDigit = true := fun c =>
    Nat.isDigit_of_mem_toDigits (by decide) (by decide)
  have hunsigned : Number.literalUnsigned false (Nat.toDigits 10 n) = .ofNat n := by
    unfold Number.literalUnsigned
    rw [if_neg]
    · have hspan : (Nat.toDigits 10 n ++ []).span isDecimalDigit = (Nat.toDigits 10 n, []) :=
        Json.span_digits (allDigits_toDigits n) (by simp [Json.EndsDigits])
      rw [List.append_nil] at hspan
      simp only [hspan, Number.literalExponent?, List.append_nil]
      rw [if_neg Nat.toDigits_ne_nil, digitsValue_toDigits, Number.ofDecimal_eq_ofFraction]
      unfold Number.ofNat
      generalize unitsPerOne = unit
      simp
    · intro hinfinity
      have hletter := hdigits 'I' (by rw [hinfinity]; decide)
      cases hletter
  unfold Number.ofText decimalText
  rw [String.toList_ofList, trimBlank_eq_self fun c hc => not_blank_of_digit (hdigits c hc)]
  split
  · rename_i hnil
    exact absurd hnil Nat.toDigits_ne_nil
  · rename_i mark ds hcons
    by_cases hn : n < 10
    · rw [Nat.toDigits_of_lt_base hn] at hcons
      simp at hcons
    · have hhead := head?_toDigits_ne_zero (n := n) (by omega)
      rw [hcons] at hhead
      exact absurd rfl hhead
  · rename_i cs hcons
    have hminus := hdigits '-' (by rw [hcons]; exact List.mem_cons_self)
    cases hminus
  · rename_i cs hcons
    have hplus := hdigits '+' (by rw [hcons]; exact List.mem_cons_self)
    cases hplus
  · exact hunsigned

/-! ## The steps of a pointer -/

/-- The pointer of a path, with the text of each step as it stands. -/
def pointerText (path : List Step) : String := joinTexts "/" ("#" :: path.map Step.text)

/-- A character of a name in a pointer of the standard. -/
def escapeChar : Char → List Char
  | '~' => ['~', '0']
  | '/' => ['~', '1']
  | c => [c]

/-- A name in a pointer of the standard. -/
def escapeName (name : String) : String := String.ofList (name.toList.flatMap escapeChar)

/-- A step with its name as the standard writes it. -/
def Step.escaped : Step → Step
  | .key name => .key (escapeName name)
  | .index i => .index i

/-- The pointer that the standard gives a path. -/
def standardPointer (path : List Step) : String := pointerText (path.map Step.escaped)

/-- The names on a path do not have a character in them. -/
def Lacks (c : Char) (path : List Step) : Prop := ∀ name, .key name ∈ path → c ∉ name.toList

/-- A path that can be written: its indices are numbers of their own, as the indices of all lists of
fewer than 2⁵³ items are. -/
def Writable (path : List Step) : Prop := ∀ i, .index i ∈ path → i < Nat.pow 2 53

theorem slash_not_mem_text {path : List Step} (h : Lacks '/' path) {step : Step}
    (hstep : step ∈ path) : '/' ∉ step.text.toList := by
  cases step with
  | key name => exact h name hstep
  | index i =>
    intro hslash
    unfold Step.text decimalText at hslash
    rw [String.toList_ofList] at hslash
    cases Nat.isDigit_of_mem_toDigits (by decide) (by decide) hslash

theorem pointerSegments_pointerText {path : List Step} (h : Lacks '/' path) :
    pointerSegments (pointerText path) = "#" :: path.map Step.text := by
  unfold pointerSegments pointerText joinTexts
  rw [String.toList_ofList, splitAt_eq_splitOn, joinWith_eq_intercalate]
  rw [show "/".toList = ['/'] from rfl, List.splitOn_intercalate]
  · simp [Function.comp_def]
  · intro part hpart
    obtain ⟨text, htext, rfl⟩ := List.mem_map.mp hpart
    obtain rfl | htext := List.mem_cons.mp htext
    · decide
    · obtain ⟨step, hstep, rfl⟩ := List.mem_map.mp htext
      exact slash_not_mem_text h hstep
  · simp

theorem step?_text {container next : Json} {step : Step} (hstep : Writable [step])
    (h : container.inside? step = some next) : step? container step.text = some next := by
  cases step with
  | key name =>
    cases container with
    | obj ms => exact h
    | _ => cases h
  | index i =>
    cases container with
    | arr items =>
      have hi := hstep i List.mem_cons_self
      unfold Json.inside? at h
      unfold step? Step.text
      rw [Number.ofText_decimalText, Number.toIndex?_ofNat hi]
      exact h
    | _ => cases h

/-- By induction on the path: what it leads to is what its texts are walked to. -/
theorem walk_texts {path : List Step} {j v : Json} (hpath : Writable path)
    (h : j.at? path = some v) : walk j (path.map Step.text) = .ok v := by
  induction path generalizing j with
  | nil =>
    cases h
    rfl
  | cons step path ih =>
    unfold Json.at? at h
    obtain ⟨next, hnext, hrest⟩ := Option.bind_eq_some_iff.mp h
    have hstep := step?_text (fun i hi => hpath i (by simp_all)) hnext
    rw [List.map_cons, walk, hstep]
    exact ih (fun i hi => hpath i (List.mem_cons_of_mem _ hi)) hrest

/-- Starting from the definitions is walking to them first. -/
theorem resolveRef_of_walk {ref : String} {root : Members Json} {segments : List String} {v : Json}
    (hsegments : pointerSegments ref = "#" :: segments)
    (h : walk (.obj root) segments = .ok v) : resolveRef ref root = .ok v := by
  unfold resolveRef
  rw [hsegments]
  split
  · rename_i name rest heq
    cases heq
    unfold walk at h
    cases hdefs : step? (.obj root) "$defs" with
    | none => simp [hdefs] at h
    | some definitions =>
      have hget : Members.get? "$defs" root = some definitions := hdefs
      rw [hdefs] at h
      rw [hget]
      exact mapError_ok_iff.mpr h
  · exact mapError_ok_iff.mpr h

/-- A path without slashes is followed by its pointer. -/
theorem resolveRef_pointerText {root : Members Json} {path : List Step} {v : Json}
    (hslash : Lacks '/' path) (hpath : Writable path) (h : (Json.obj root).at? path = some v) :
    resolveRef (pointerText path) root = .ok v :=
  resolveRef_of_walk (pointerSegments_pointerText hslash) (walk_texts hpath h)

/-- A segment of a pointer leads one step into a document, by a name only if it is that name. -/
theorem inside?_of_step? {container next : Json} {segment : String}
    (h : step? container segment = some next) :
    ∃ step, container.inside? step = some next ∧ ∀ name, step = .key name → name = segment := by
  cases container with
  | arr items =>
    obtain ⟨i, -, hi⟩ := Option.bind_eq_some_iff.mp h
    exact ⟨.index i, hi, by simp⟩
  | obj ms => exact ⟨.key segment, h, by simp⟩
  | _ => cases h

theorem at?_of_walk {segments : List String} {j v : Json} (h : walk j segments = .ok v) :
    ∃ path, j.at? path = some v ∧ ∀ name, .key name ∈ path → name ∈ segments := by
  induction segments generalizing j with
  | nil =>
    cases h
    exact ⟨[], rfl, by simp⟩
  | cons segment segments ih =>
    unfold walk at h
    split at h
    · rename_i next hnext
      obtain ⟨step, hstep, hname⟩ := inside?_of_step? hnext
      obtain ⟨path, hpath, hnames⟩ := ih h
      refine ⟨step :: path, ?_, fun name hmem => ?_⟩
      · rw [Json.at?, hstep]
        exact hpath
      · obtain heq | hmem := List.mem_cons.mp hmem
        · exact hname name heq.symm ▸ List.mem_cons_self
        · exact List.mem_cons_of_mem _ (hnames name hmem)
    · cases h

/-- What a pointer names stands at a path without slashes: no pointer leads through a name that has
one. -/
theorem a_pointer_leads_through_no_name_with_a_slash {ref : String} {root : Members Json} {v : Json}
    (h : resolveRef ref root = .ok v) :
    ∃ path, Lacks '/' path ∧ (Json.obj root).at? path = some v := by
  have hwalk : ∃ segments ⊆ pointerSegments ref, walk (.obj root) segments = .ok v := by
    unfold resolveRef at h
    split at h
    · rename_i name rest hsegments
      rw [hsegments]
      split at h
      · rename_i definitions hdefs
        refine ⟨"$defs" :: name :: rest, List.subset_cons_self _ _, ?_⟩
        rw [walk, show step? (.obj root) "$defs" = some definitions from hdefs]
        exact mapError_ok_iff.mp h
      · cases h
    · exact ⟨_, List.drop_subset 1 _, mapError_ok_iff.mp h⟩
  obtain ⟨segments, hsegments, hwalk⟩ := hwalk
  obtain ⟨path, hpath, hnames⟩ := at?_of_walk hwalk
  refine ⟨path, fun name hname => ?_, hpath⟩
  obtain ⟨part, hpart, rfl⟩ := List.mem_map.mp (hsegments (hnames name hname))
  rw [String.toList_ofList]
  exact separator_not_mem hpart

/-! ## The pointers of the standard -/

theorem slash_not_mem_escapeName (name : String) : '/' ∉ (escapeName name).toList := by
  unfold escapeName
  rw [String.toList_ofList, List.mem_flatMap]
  rintro ⟨c, -, hc⟩
  unfold escapeChar at hc
  split at hc
  · simp at hc
  · simp at hc
  · rename_i hslash
    exact hslash (List.mem_singleton.mp hc).symm

theorem lacks_slash_escaped (path : List Step) : Lacks '/' (path.map Step.escaped) := by
  intro name hname
  obtain ⟨step, -, hstep⟩ := List.mem_map.mp hname
  cases step with
  | key name' =>
    cases hstep
    exact slash_not_mem_escapeName name'
  | index i => cases hstep

theorem writable_escaped {path : List Step} (h : Writable path) :
    Writable (path.map Step.escaped) := by
  intro i hi
  obtain ⟨step, hstep, heq⟩ := List.mem_map.mp hi
  cases step with
  | key name => cases heq
  | index j =>
    cases heq
    exact h i hstep

theorem escapeName_eq_self {name : String} (htilde : '~' ∉ name.toList)
    (hslash : '/' ∉ name.toList) : escapeName name = name := by
  have hchars : ∀ c ∈ name.toList, escapeChar c = [c] := by
    intro c hc
    unfold escapeChar
    split
    · exact absurd hc htilde
    · exact absurd hc hslash
    · rfl
  unfold escapeName
  rw [List.flatMap_congr hchars]
  simp

/-- Names are written as they stand where there is nothing to escape. -/
theorem map_escaped_eq_self {path : List Step} (htilde : Lacks '~' path)
    (hslash : Lacks '/' path) : path.map Step.escaped = path := by
  refine (List.map_congr_left fun step hstep => ?_).trans (List.map_id path)
  cases step with
  | key name => exact congrArg Step.key (escapeName_eq_self (htilde name hstep) (hslash name hstep))
  | index i => rfl

/-! ## What pointers name -/

/-- A location that a path leads to is named by the pointer of that path, as long as no name on it
has a character that the standard escapes: the segments of a pointer are taken as they stand. With
its names written as they stand the pointer names the location if only they have no slash, and the
escaped pointer of any path is followed along the escaped names. -/
theorem a_location_is_named_by_its_pointer (root : Members Json) (path : List Step)
    (hpath : Writable path) :
    (∀ v, (Json.obj root).at? path = some v → Lacks '~' path → Lacks '/' path →
        resolveRef (standardPointer path) root = .ok v) ∧
      (∀ v, (Json.obj root).at? path = some v → Lacks '/' path →
        resolveRef (pointerText path) root = .ok v) ∧
      ∀ v, (Json.obj root).at? (path.map Step.escaped) = some v →
        resolveRef (standardPointer path) root = .ok v := by
  have hescaped : ∀ v, (Json.obj root).at? (path.map Step.escaped) = some v →
      resolveRef (standardPointer path) root = .ok v := fun v =>
    resolveRef_pointerText (lacks_slash_escaped path) (writable_escaped hpath)
  refine ⟨fun v hv htilde hslash => ?_, fun v hv hslash => ?_, hescaped⟩
  · apply hescaped
    rwa [map_escaped_eq_self htilde hslash]
  · exact resolveRef_pointerText hslash hpath hv

/-- A shelf of definitions: under one of them stands a list. -/
def shelf : Members Json :=
  [("$defs", .obj [("book of 1", .obj [("anyOf", .arr [.str "bound", .str "loose"])])])]

theorem a_loose_book_is_named :
    Writable [.key "$defs", .key "book of 1", .key "anyOf", .index 1] ∧
      standardPointer [.key "$defs", .key "book of 1", .key "anyOf", .index 1] =
        "#/$defs/book of 1/anyOf/1" ∧
      resolveRef "#/$defs/book of 1/anyOf/1" shelf = .ok (.str "loose") := by
  have hwritable : Writable [.key "$defs", .key "book of 1", .key "anyOf", .index 1] := by
    intro i hi
    simp only [List.mem_cons, Step.index.injEq, reduceCtorEq, false_or, List.not_mem_nil,
      or_false] at hi
    subst hi
    decide
  have htext : standardPointer [.key "$defs", .key "book of 1", .key "anyOf", .index 1] =
      "#/$defs/book of 1/anyOf/1" := rfl
  refine ⟨hwritable, htext, ?_⟩
  rw [← htext]
  refine (a_location_is_named_by_its_pointer shelf _ hwritable).1 _ rfl ?_ ?_
  all_goals
    intro name hname
    simp only [List.mem_cons, Step.key.injEq, reduceCtorEq, List.not_mem_nil, or_false] at hname
    obtain rfl | rfl | rfl := hname <;> decide

/-- A slash is not found again when it is escaped. -/
theorem a_name_with_a_slash_is_not_found :
    (Json.obj [("a/b", .num (.ofNat 1))]).at? [.key "a/b"] = some (.num (.ofNat 1)) ∧
      standardPointer [.key "a/b"] = "#/a~1b" ∧
      resolveRef "#/a~1b" [("a/b", .num (.ofNat 1))] = .error (.unresolved "#/a~1b" "a~1b") :=
  ⟨rfl, rfl, rfl⟩

end JsonModel
