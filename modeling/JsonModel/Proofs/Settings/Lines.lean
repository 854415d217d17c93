-- The settings of a text and its lines. A setting is on the line of its label, so the lines without a
-- label say nothing, but for one case: the line below a label with nothing behind it.
import Mathlib.Data.List.Forall2
import JsonModel.Proofs.Settings.Search

namespace JsonModel

/-! ## Lines -/

/-- The lines of a text. -/
def linesOf (cs : List Char) : List (List Char) := splitAt '\n' cs

/-- The text that some lines make. -/
def joinLines (lines : List (List Char)) : List Char := joinWith ['\n'] lines

theorem joinLines_linesOf (cs : List Char) : joinLines (linesOf cs) = cs := by
  rw [joinLines, linesOf, joinWith_eq_intercalate, splitAt_eq_splitOn, List.intercalate_splitOn]

theorem linesOf_joinLines {lines : List (List Char)} (hbreak : ∀ line ∈ lines, '\n' ∉ line)
    (hne : lines ≠ []) : linesOf (joinLines lines) = lines := by
  rw [joinLines, linesOf, joinWith_eq_intercalate, splitAt_eq_splitOn,
    List.splitOn_intercalate _ hbreak hne]

theorem joinLines_cons {lines : List (List Char)} (hne : lines ≠ []) (line : List Char) :
    joinLines (line :: lines) = line ++ '\n' :: joinLines lines := by
  cases lines with
  | nil => exact absurd rfl hne
  | cons second lines =>
    unfold joinLines
    rw [joinWith, List.append_assoc, List.singleton_append]
    simp

theorem joinLines_append {lines below : List (List Char)} (hne : lines ≠ []) (hbelow : below ≠ []) :
    joinLines (lines ++ below) = joinLines lines ++ '\n' :: joinLines below := by
  induction lines with
  | nil => exact absurd rfl hne
  | cons line lines ih =>
    cases lines with
    | nil => exact joinLines_cons hbelow line
    | cons second lines =>
      have hrest : (second :: lines) ++ below ≠ [] := List.cons_ne_nil _ _
      rw [List.cons_append, joinLines_cons hrest, ih (List.cons_ne_nil _ _),
        joinLines_cons (List.cons_ne_nil _ _), List.append_assoc, List.cons_append]

theorem endsWithLabel_joinLines {label line : List Char} (h : EndsWithLabel label line)
    (above : List (List Char)) : EndsWithLabel label (joinLines (above ++ [line])) := by
  obtain rfl | hne := eq_or_ne above []
  · exact h
  · obtain ⟨before, written, blanks, rfl, hwritten, hblank⟩ := h
    rw [joinLines_append hne (List.cons_ne_nil _ _)]
    refine ⟨joinLines above ++ '\n' :: before, written, blanks, ?_, hwritten, hblank⟩
    simp [joinLines, joinWith]

namespace Marker

variable (m : Marker)

theorem firstWord?_joinLines_cons (line : List Char) (lines : List (List Char)) :
    m.firstWord? (joinLines (line :: lines)) =
      if line.all isBlank then m.firstWord? (joinLines lines) else m.firstWord? line := by
  cases lines with
  | nil =>
    split
    · rename_i hblank
      exact m.firstWord?_of_blank hblank
    · rfl
  | cons second lines =>
    rw [joinLines_cons (List.cons_ne_nil _ _)]
    exact m.firstWord?_break line _

/-- A text without a first word has none either when it is cut off after a line. -/
theorem firstWord?_joinLines_left {lines below : List (List Char)}
    (h : m.firstWord? (joinLines (lines ++ below)) = none) : m.firstWord? (joinLines lines) = none := by
  induction lines with
  | nil => rfl
  | cons line lines ih =>
    rw [List.cons_append, firstWord?_joinLines_cons] at h
    rw [firstWord?_joinLines_cons]
    split
    · rename_i hblank
      rw [if_pos hblank] at h
      exact ih h
    · rename_i hsolid
      rw [if_neg hsolid] at h
      exact h

theorem word?_joinLines_of_own {line word : List Char} (h : m.word? line = some word)
    (lines : List (List Char)) : m.word? (joinLines (line :: lines)) = some word := by
  cases lines with
  | nil => exact h
  | cons second lines =>
    rw [joinLines_cons (List.cons_ne_nil _ _)]
    exact m.word?_of_own h _

theorem word?_joinLines_of_open {line : List Char} (hnone : m.word? line = none)
    (hopen : EndsWithLabel m.label line) (lines : List (List Char)) :
    m.word? (joinLines (line :: lines)) =
      (m.firstWord? (joinLines lines)).or (m.word? (joinLines lines)) := by
  cases lines with
  | nil => exact hnone
  | cons second lines =>
    rw [joinLines_cons (List.cons_ne_nil _ _)]
    exact m.word?_of_open hnone hopen _

theorem word?_joinLines_of_closed {line : List Char} (hnone : m.word? line = none)
    (hclosed : ¬ EndsWithLabel m.label line) (lines : List (List Char)) :
    m.word? (joinLines (line :: lines)) = m.word? (joinLines lines) := by
  cases lines with
  | nil => exact hnone
  | cons second lines =>
    rw [joinLines_cons (List.cons_ne_nil _ _)]
    exact m.word?_of_closed hnone hclosed _

/-- A text has no word if none of its lines has one and no label ends a line above a word. -/
theorem word?_joinLines_eq_none {lines : List (List Char)} (hown : ∀ line ∈ lines, m.word? line = none)
    (hbelow : ∀ above line below, lines = above ++ line :: below → EndsWithLabel m.label line →
      m.firstWord? (joinLines below) = none) :
    m.word? (joinLines lines) = none := by
  induction lines with
  | nil => rfl
  | cons line lines ih =>
    have hnone : m.word? line = none := hown line List.mem_cons_self
    have hrest : m.word? (joinLines lines) = none := by
      apply ih
      · exact fun other hmem => hown other (List.mem_cons_of_mem _ hmem)
      · intro above last below hlines hlast
        exact hbelow (line :: above) last below (by rw [hlines, List.cons_append]) hlast
    by_cases hopen : EndsWithLabel m.label line
    · rw [m.word?_joinLines_of_open hnone hopen, hbelow [] line lines rfl hopen, hrest]
      rfl
    · rw [m.word?_joinLines_of_closed hnone hopen, hrest]

end Marker

/-! ## Settings by their labels -/

/-- What a text can set. -/
inductive Setting
  | extra
  | frozen
  | module
deriving DecidableEq

namespace Setting

/-- The label of a setting, and the words behind it. -/
def marker : Setting → Marker
  | extra =>
    { label := "**extra fields:**".toList
      isWord := isWordCharacter
      no_break := by decide
      solid_end := ⟨'*', by decide⟩
      solid_word := fun _ => not_wordCharacter_of_blank }
  | frozen =>
    { label := "**frozen:**".toList
      isWord := isWordCharacter
      no_break := by decide
      solid_end := ⟨'*', by decide⟩
      solid_word := fun _ => not_wordCharacter_of_blank }
  | module =>
    { label := "**module:**".toList
      isWord := fun c => !isBlank c
      no_break := by decide
      solid_end := ⟨'*', by decide⟩
      solid_word := fun _ hblank => by rw [hblank, Bool.not_true] }

/-- A setting is what it is without a text. -/
def AtDefault : Setting → Settings → Prop
  | extra, settings => settings.extra = ({} : Settings).extra
  | frozen, settings => settings.frozen = ({} : Settings).frozen
  | module, settings => settings.module = ({} : Settings).module

end Setting

/-- The settings that the words behind the labels make. -/
def Settings.ofWords (words : Setting → Option (List Char)) : Settings :=
  let plain (s : Setting) := (words s).map fun word => String.ofList (word.map Char.toLower)
  let standard : Settings := {}
  { extra := ((plain .extra).bind ExtraMode.ofName?).getD standard.extra
    frozen := ((plain .frozen).map yesWords.contains).getD standard.frozen
    module := ((words .module).map String.ofList).getD standard.module }

theorem Settings.ofText_eq_ofWords (text : String) :
    Settings.ofText text = Settings.ofWords fun s => s.marker.word? text.toList := by
  unfold Settings.ofText Settings.ofWords plainWord?
  rfl

/-- A setting without a word stays at its default. -/
theorem Setting.atDefault_of_none {s : Setting} {words : Setting → Option (List Char)}
    (h : words s = none) : s.AtDefault (Settings.ofWords words) := by
  cases s <;> simp only [Setting.AtDefault, Settings.ofWords, h] <;> rfl

/-! ## Lines with a label and lines without -/

/-- A line with a label of one of the settings. -/
def IsLabelled (line : List Char) : Prop := ∃ s : Setting, HasLabel s.marker.label line

/-- The shortest label is the one of the module, with eleven characters. -/
theorem not_isLabelled_of_length {line : List Char} (h : line.length ≤ 10) : ¬ IsLabelled line := by
  rintro ⟨s, before, written, after, rfl, hwritten⟩
  have hlength : 11 ≤ written.length := by
    rw [← List.length_map Char.toLower, hwritten]
    cases s <;> decide
  simp only [List.length_append] at h
  omega

/-- As many lines in one text as in the other, where a line with a label is the same in both, and no
other line has a label. -/
def SameLabelled (lines lines' : List (List Char)) : Prop :=
  List.Forall₂ (fun line line' => line = line' ∨ ¬ IsLabelled line ∧ ¬ IsLabelled line') lines lines'

/-- A label ends a line before a word for it was found, and the line below has no label. -/
def LeftOpen (m : Marker) (lines : List (List Char)) : Prop :=
  ∃ above line next below, lines = above ++ line :: next :: below ∧ EndsWithLabel m.label line ∧
    ¬ IsLabelled next ∧ m.word? (joinLines (above ++ [line])) = none

/-- What is open below a line is open from that line on, unless the line itself gets a word. -/
theorem LeftOpen.cons {m : Marker} {line : List Char} {lines : List (List Char)} (h : LeftOpen m lines)
    (hnone : m.word? line = none)
    (hbelow : EndsWithLabel m.label line → m.firstWord? (joinLines lines) = none) :
    LeftOpen m (line :: lines) := by
  obtain ⟨above, last, next, below, rfl, hlast, hnext, habove⟩ := h
  refine ⟨line :: above, last, next, below, rfl, hlast, hnext, ?_⟩
  by_cases hopen : EndsWithLabel m.label line
  · have hcut : above ++ last :: next :: below = (above ++ [last]) ++ next :: below := by simp
    have hfirst : m.firstWord? (joinLines (above ++ [last])) = none :=
      m.firstWord?_joinLines_left (hcut ▸ hbelow hopen)
    rw [List.cons_append, m.word?_joinLines_of_open hnone hopen, hfirst, habove]
    rfl
  · rw [List.cons_append, m.word?_joinLines_of_closed hnone hopen, habove]

/-- A line without a label is passed over. -/
theorem Setting.word?_joinLines_of_plain (s : Setting) {line : List Char} (h : ¬ IsLabelled line)
    (lines : List (List Char)) :
    s.marker.word? (joinLines (line :: lines)) = s.marker.word? (joinLines lines) := by
  have hnone : s.marker.word? line = none := s.marker.word?_eq_none fun hlabel => h ⟨s, hlabel⟩
  exact s.marker.word?_joinLines_of_closed hnone (fun hends => h ⟨s, hends.hasLabel⟩) lines

/-- A line with a label decides on the first word of the text from there on. -/
theorem IsLabelled.firstWord?_joinLines {line : List Char} (h : IsLabelled line) (m : Marker)
    (lines : List (List Char)) : m.firstWord? (joinLines (line :: lines)) = m.firstWord? line := by
  obtain ⟨s, hlabel⟩ := h
  rw [m.firstWord?_joinLines_cons, s.marker.not_blank_of_hasLabel hlabel]
  rfl

/-- Below a label that ends a line and is not left open, the first word stays the same. -/
theorem firstWord?_eq_of_sameLabelled {m : Marker} {line : List Char} {lines lines' : List (List Char)}
    (hsame : SameLabelled lines lines') (h : ¬ LeftOpen m (line :: lines)) (hown : m.word? line = none)
    (hopen : EndsWithLabel m.label line) :
    m.firstWord? (joinLines lines') = m.firstWord? (joinLines lines) := by
  cases hsame with
  | nil => rfl
  | @cons next next' below below' hnext hbelow =>
    have hlabelled : IsLabelled next := by
      by_contra hplain
      exact h ⟨[], line, next, below, rfl, hopen, hplain, hown⟩
    obtain rfl := hnext.resolve_right fun hplain => hplain.1 hlabelled
    rw [hlabelled.firstWord?_joinLines, hlabelled.firstWord?_joinLines]

/-- Where no label is left open, the lines with a label decide on the word. -/
theorem word?_eq_of_sameLabelled (s : Setting) {lines lines' : List (List Char)}
    (hsame : SameLabelled lines lines') (h : ¬ LeftOpen s.marker lines) :
    s.marker.word? (joinLines lines') = s.marker.word? (joinLines lines) := by
  induction hsame with
  | nil => rfl
  | @cons line line' lines lines' hline hlines ih =>
    by_cases hlabelled : IsLabelled line
    · obtain rfl := hline.resolve_right fun hother => hother.1 hlabelled
      cases hown : s.marker.word? line with
      | some word =>
        rw [s.marker.word?_joinLines_of_own hown, s.marker.word?_joinLines_of_own hown]
      | none =>
        by_cases hopen : EndsWithLabel s.marker.label line
        · rw [s.marker.word?_joinLines_of_open hown hopen, s.marker.word?_joinLines_of_open hown hopen,
            firstWord?_eq_of_sameLabelled hlines h hown hopen]
          cases hword : s.marker.firstWord? (joinLines lines) with
          | some word => rfl
          | none => rw [ih fun hlow => h (hlow.cons hown fun _ => hword)]
        · rw [s.marker.word?_joinLines_of_closed hown hopen,
            s.marker.word?_joinLines_of_closed hown hopen]
          exact ih fun hlow => h (hlow.cons hown fun hends => absurd hends hopen)
    · have hlabelled' : ¬ IsLabelled line' := by
        obtain rfl | hother := hline
        · exact hlabelled
        · exact hother.2
      have hnone : s.marker.word? line = none :=
        s.marker.word?_eq_none fun hlabel => hlabelled ⟨s, hlabel⟩
      rw [s.word?_joinLines_of_plain hlabelled, s.word?_joinLines_of_plain hlabelled']
      exact ih fun hlow => h (hlow.cons hnone fun hends => absurd ⟨s, hends.hasLabel⟩ hlabelled)

/-! ## The line below an open label -/

/-- The line below an open label gives it its word. -/
theorem word?_below_open {m : Marker} {above : List (List Char)} {line word : List Char}
    (hopen : EndsWithLabel m.label line) (hnone : m.word? (joinLines (above ++ [line])) = none)
    (hword : m.firstWord? word = some word) (below : List (List Char)) :
    m.word? (joinLines (above ++ line :: word :: below)) = some word := by
  have hsolid : ¬ word.all isBlank = true := by
    intro hblank
    rw [m.firstWord?_of_blank hblank] at hword
    cases hword
  have hcut : above ++ line :: word :: below = (above ++ [line]) ++ (word :: below) := by simp
  rw [hcut, joinLines_append (by simp) (List.cons_ne_nil _ _),
    m.word?_of_open hnone (endsWithLabel_joinLines hopen above), m.firstWord?_joinLines_cons,
    if_neg hsolid, hword]
  rfl

/-- For each setting there are two words that do not set it alike. -/
theorem Setting.exists_words (s : Setting) : ∃ word word' : List Char,
    (s.marker.firstWord? word = some word ∧ word.length ≤ 10 ∧ '\n' ∉ word) ∧
    (s.marker.firstWord? word' = some word' ∧ word'.length ≤ 10 ∧ '\n' ∉ word') ∧
    ∀ words words' : Setting → Option (List Char), words s = some word → words' s = some word' →
      Settings.ofWords words ≠ Settings.ofWords words' := by
  cases s with
  | extra =>
    refine ⟨"forbid".toList, "allow".toList, by decide, by decide, ?_⟩
    intro words words' hword hword' heq
    have hextra := congrArg Settings.extra heq
    simp only [Settings.ofWords, hword, hword'] at hextra
    revert hextra
    decide
  | frozen =>
    refine ⟨"yes".toList, "no".toList, by decide, by decide, ?_⟩
    intro words words' hword hword' heq
    have hfrozen := congrArg Settings.frozen heq
    simp only [Settings.ofWords, hword, hword'] at hfrozen
    revert hfrozen
    decide
  | module =>
    refine ⟨"a".toList, "b".toList, by decide, by decide, ?_⟩
    intro words words' hword hword' heq
    have hmodule := congrArg Settings.module heq
    simp only [Settings.ofWords, hword, hword'] at hmodule
    revert hmodule
    decide

/-- A line below an open label can be made the word of the label, and no line with a label changes. -/
theorem exists_text_of_leftOpen {s : Setting} {cs word : List Char} (h : LeftOpen s.marker (linesOf cs))
    (hword : s.marker.firstWord? word = some word) (hlength : word.length ≤ 10)
    (hbreak : '\n' ∉ word) :
    ∃ text : String, SameLabelled (linesOf cs) (linesOf text.toList) ∧
      s.marker.word? text.toList = some word := by
  obtain ⟨above, line, next, below, hlines, hopen, hnext, hnone⟩ := h
  have hkept : linesOf (joinLines (above ++ line :: word :: below)) = above ++ line :: word :: below := by
    apply linesOf_joinLines
    · intro part hpart
      have hmem : part = word ∨ part ∈ linesOf cs := by
        rw [hlines]
        simp only [List.mem_append, List.mem_cons] at hpart ⊢
        obtain habove | hline | hword | hbelow := hpart
        · exact .inr (.inl habove)
        · exact .inr (.inr (.inl hline))
        · exact .inl hword
        · exact .inr (.inr (.inr (.inr hbelow)))
      obtain rfl | hmem := hmem
      · exact hbreak
      · exact separator_not_mem hmem
    · simp
  refine ⟨String.ofList (joinLines (above ++ line :: word :: below)), ?_, ?_⟩
  · rw [String.toList_ofList, hkept, hlines]
    have hsame : ∀ lines, SameLabelled lines lines :=
      fun lines => List.forall₂_same.mpr fun _ _ => .inl rfl
    exact List.rel_append (hsame above) (.cons (.inl rfl)
      (.cons (.inr ⟨hnext, not_isLabelled_of_length hlength⟩) (hsame below)))
  · rw [String.toList_ofList]
    exact word?_below_open hopen hnone hword below

/-- The settings are read line by line unless a label is left open above a line without one, and a
label with nothing behind it leaves the default unless the lines below it start with a word. -/
theorem settings_are_read_line_by_line_unless_a_label_is_left_open (text : String) :
    ((∀ text' : String, SameLabelled (linesOf text.toList) (linesOf text'.toList) →
        Settings.ofText text' = Settings.ofText text) ↔
      ∀ s : Setting, ¬ LeftOpen s.marker (linesOf text.toList)) ∧
    ∀ s : Setting, (∀ line ∈ linesOf text.toList, s.marker.word? line = none) →
      (∀ above line below, linesOf text.toList = above ++ line :: below →
        EndsWithLabel s.marker.label line → s.marker.firstWord? (joinLines below) = none) →
      s.AtDefault (Settings.ofText text) := by
  refine ⟨⟨?_, ?_⟩, ?_⟩
  · -- Two words below the open label give two settings, but the text has one.
    intro hlocal s hopen
    obtain ⟨word, word', ⟨hword, hlength, hbreak⟩, ⟨hword', hlength', hbreak'⟩, hdiffer⟩ := s.exists_words
    obtain ⟨first, hfirst, hread⟩ := exists_text_of_leftOpen hopen hword hlength hbreak
    obtain ⟨second, hsecond, hread'⟩ := exists_text_of_leftOpen hopen hword' hlength' hbreak'
    apply hdiffer (fun s => s.marker.word? first.toList) (fun s => s.marker.word? second.toList)
      hread hread'
    rw [← Settings.ofText_eq_ofWords, ← Settings.ofText_eq_ofWords, hlocal first hfirst,
      hlocal second hsecond]
  · intro hclosed text' hsame
    rw [Settings.ofText_eq_ofWords, Settings.ofText_eq_ofWords]
    congr 1
    funext s
    have hword := word?_eq_of_sameLabelled s hsame (hclosed s)
    rwa [joinLines_linesOf, joinLines_linesOf] at hword
  · intro s hown hbelow
    rw [Settings.ofText_eq_ofWords]
    apply Setting.atDefault_of_none
    rw [← joinLines_linesOf text.toList]
    exact s.marker.word?_joinLines_eq_none hown hbelow

/-- What stands above the line of a label does not matter. -/
theorem a_heading_above_a_label_is_free :
    SameLabelled (linesOf "# Drafts\n**Frozen:** yes".toList) (linesOf "# Notes\n**Frozen:** yes".toList) ∧
      Settings.ofText "# Notes\n**Frozen:** yes" = Settings.ofText "# Drafts\n**Frozen:** yes" := by
  have hsame : SameLabelled (linesOf "# Drafts\n**Frozen:** yes".toList)
      (linesOf "# Notes\n**Frozen:** yes".toList) :=
    .cons (.inr ⟨not_isLabelled_of_length (by decide), not_isLabelled_of_length (by decide)⟩)
      (.cons (.inl (by decide)) .nil)
  refine ⟨hsame, (settings_are_read_line_by_line_unless_a_label_is_left_open _).1.mpr ?_ _ hsame⟩
  rintro s ⟨above, line, next, below, hlines, hopen, -⟩
  have hshort : linesOf "# Drafts\n**Frozen:** yes".toList =
      ["# Drafts".toList, "**Frozen:** yes".toList] := by decide
  rw [hshort] at hlines
  cases above with
  | nil =>
    cases hlines
    exact not_isLabelled_of_length (by decide) ⟨s, hopen.hasLabel⟩
  | cons first above =>
    have hcount := congrArg List.length hlines
    simp only [List.length_cons, List.length_append, List.length_nil] at hcount
    omega

/-- An answer on the line below its label is read, though that line has no label. -/
theorem an_answer_below_its_label_is_read :
    SameLabelled (linesOf "**Frozen:**\nyes".toList) (linesOf "**Frozen:**\nno".toList) ∧
      (Settings.ofText "**Frozen:**\nyes").frozen = true ∧
      (Settings.ofText "**Frozen:**\nno").frozen = false :=
  ⟨.cons (.inl (by decide)) (.cons (.inr ⟨not_isLabelled_of_length (by decide),
    not_isLabelled_of_length (by decide)⟩) .nil), by decide, by decide⟩

end JsonModel
