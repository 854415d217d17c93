-- Settings that are written down. Each setting has a line of its own, which says what it is to be; in
-- whatever order these lines stand, and whatever stands around them, the settings are read back.
import Mathlib.Data.List.Infix
import JsonModel.Proofs.Settings.Lines

namespace JsonModel

/-! ## Where a label stands -/

theorem hasLabel_iff_occurs {label cs : List Char} :
    HasLabel label cs ↔ label <:+: cs.map Char.toLower := by
  constructor
  · rintro ⟨before, written, after, rfl, rfl⟩
    exact ⟨before.map Char.toLower, after.map Char.toLower, by simp only [List.map_append]⟩
  · rintro ⟨before', after', h⟩
    obtain ⟨front, after, rfl, hfront, -⟩ := List.map_eq_append_iff.mp h.symm
    obtain ⟨before, written, rfl, -, hwritten⟩ := List.map_eq_append_iff.mp hfront
    exact ⟨before, written, after, rfl, hwritten⟩

section

variable {α : Type} {part xs ys : List α} {x : α}

/-- What does not have a character in it stands before that character or behind it. -/
theorem infix_append_cons (hx : x ∉ part) (h : part <:+: xs ++ x :: ys) :
    part <:+: xs ∨ part <:+: ys := by
  obtain h | h | ⟨left, right, rfl, hleft, hright⟩ := List.infix_append_iff.mp h
  · exact .inl h
  · obtain h | h := List.infix_cons_iff.mp h
    · obtain rfl | ⟨rest, rfl, -⟩ := List.prefix_cons_iff.mp h
      · exact .inl (List.nil_infix)
      · exact absurd List.mem_cons_self hx
    · exact .inr h
  · obtain rfl | ⟨rest, rfl, -⟩ := List.prefix_cons_iff.mp hright
    · rw [List.append_nil]
      exact .inl hleft.isInfix
    · exact absurd (List.mem_append_right _ List.mem_cons_self) hx

/-- What ends with a character does not reach into a part without that character. -/
theorem infix_of_append (h : part <:+: xs ++ ys) (hlast : part.getLast? = some x) (hx : x ∉ ys) :
    part <:+: xs := by
  obtain h | h | ⟨left, right, rfl, hleft, hright⟩ := List.infix_append_iff.mp h
  · exact h
  · exact absurd (h.subset (List.mem_of_getLast? hlast)) hx
  · cases hright' : right.getLast? with
    | none =>
      rw [List.getLast?_eq_none_iff.mp hright', List.append_nil]
      exact hleft.isInfix
    | some y =>
      rw [List.getLast?_append, hright', Option.some_or] at hlast
      cases hlast
      exact absurd (hright.subset (List.mem_of_getLast? hright')) hx

end

/-! ## The lines of the settings -/

namespace Setting

/-- The label of a setting as it is written. -/
def title : Setting → List Char
  | extra => "**Extra fields:**".toList
  | frozen => "**Frozen:**".toList
  | module => "**Module:**".toList

/-- What stands on the line of a setting before the word. -/
def opening (s : Setting) : List Char := "- ".toList ++ s.title ++ [' ']

/-- A word says what a setting is. The mode may be in any case. -/
def Says (settings : Settings) (word : List Char) : Setting → Prop
  | extra => word.map Char.toLower = settings.extra.name.toList
  | frozen => word = (if settings.frozen then "yes" else "no").toList
  | module => word = settings.module.toList

/-- A line gives a setting a word. White space may stand behind it. -/
def IsLine (s : Setting) (word line : List Char) : Prop :=
  ∃ blanks, blanks.all isBlank = true ∧ line = s.opening ++ word ++ blanks

end Setting

/-- A name for a module that a line can give: there is something of it, but no white space, and no label
of another setting. The label of extra fields has white space in it. -/
structure IsModuleName (name : List Char) : Prop where
  ne_nil : name ≠ []
  solid : ∀ c ∈ name, isBlank c = false
  not_frozen : ¬ HasLabel Setting.frozen.marker.label name

/-- The settings are written in some lines: each setting has a line that says what it is, and the other
lines have no label. The lines may stand in any order. -/
def Settings.WrittenIn (settings : Settings) (lines : List (List Char)) : Prop :=
  ∃ (own : Setting → List Char) (others : List (List Char)),
    (∀ s : Setting, ∃ word, s.Says settings word ∧ s.IsLine word (own s)) ∧
    (∀ line ∈ others, ¬ IsLabelled line) ∧
    lines.Perm (own .extra :: own .frozen :: own .module :: others)

/-! ## The word on a line -/

namespace Marker

variable (m : Marker)

/-- A word is the first one of a text if it ends where the text does, or where white space starts. -/
theorem firstWord?_append {word blanks : List Char} (hne : word ≠ [])
    (hword : ∀ c ∈ word, m.isWord c = true) (hblank : blanks.all isBlank = true) :
    m.firstWord? (word ++ blanks) = some word := by
  have hdrop : (word ++ blanks).dropWhile isBlank = word ++ blanks := by
    obtain ⟨c, rest, rfl⟩ := List.exists_cons_of_ne_nil hne
    refine List.dropWhile_cons_of_neg fun hc => ?_
    exact Bool.false_ne_true ((m.solid_word c hc).symm.trans (hword c List.mem_cons_self))
  have hbehind : blanks.takeWhile m.isWord = [] := by
    cases blanks with
    | nil => rfl
    | cons c blanks =>
      have hc : isBlank c = true := List.all_eq_true.mp hblank c List.mem_cons_self
      exact List.takeWhile_cons_of_neg (by simp [m.solid_word c hc])
  have htake : (word ++ blanks).takeWhile m.isWord = word := by
    rw [List.takeWhile_append_of_pos hword, hbehind, List.append_nil]
  unfold firstWord?
  rw [hdrop, htake]
  split
  · exact absurd rfl hne
  · rfl

theorem word?_of_afterLabel? {cs rest word : List Char} (h : afterLabel? m.label cs = some rest)
    (hword : m.firstWord? rest = some word) : m.word? cs = some word := by
  cases cs with
  | nil =>
    obtain ⟨l, ls, hlabel⟩ := List.exists_cons_of_ne_nil m.label_ne_nil
    rw [hlabel] at h
    cases h
  | cons c cs => rw [word?_cons, h, Option.bind_some, hword, Option.some_or]

/-- If a word stands on one line, and no other line has the label, it is the word of the whole text. -/
theorem word?_joinLines_of_mem {own word : List Char} {lines : List (List Char)}
    (hown : m.word? own = some word) (hmem : own ∈ lines)
    (hothers : ∀ line ∈ lines, line ≠ own → ¬ HasLabel m.label line) :
    m.word? (joinLines lines) = some word := by
  induction lines with
  | nil => cases hmem
  | cons line lines ih =>
    by_cases hline : line = own
    · rw [hline]
      exact m.word?_joinLines_of_own hown lines
    · have hfree : ¬ HasLabel m.label line := hothers line List.mem_cons_self hline
      rw [m.word?_joinLines_of_closed (m.word?_eq_none hfree) fun hends => hfree hends.hasLabel]
      exact ih (List.mem_of_ne_of_mem (Ne.symm hline) hmem)
        fun other hother => hothers other (List.mem_cons_of_mem _ hother)

end Marker

theorem isWordCharacter_of_toLower {c : Char} (h : isWordCharacter c.toLower = true) :
    isWordCharacter c = true := by
  unfold Char.toLower at h
  split at h
  · rename_i hcapital
    have hlarge : 'A' ≤ c ∧ c ≤ 'Z' := by
      simp only [char_le_iff, Char.reduceToNat]
      exact hcapital
    simp [isWordCharacter, isBasicAlphanumeric, isBasicLetter, hlarge]
  · exact h

namespace Setting

variable {s t : Setting} {settings : Settings} {word line : List Char}

theorem Says.isWord (hname : IsModuleName settings.module.toList) (h : s.Says settings word) :
    word ≠ [] ∧ ∀ c ∈ word, s.marker.isWord c = true := by
  cases s with
  | extra =>
    have hmode : ∀ mode : ExtraMode, mode.name.toList ≠ [] ∧
        mode.name.toList.all isWordCharacter = true := by
      intro mode
      cases mode <;> decide
    obtain ⟨hne, hletters⟩ := hmode settings.extra
    rw [← h] at hne hletters
    refine ⟨fun hnil => hne (by rw [hnil]; rfl), fun c hc => ?_⟩
    exact isWordCharacter_of_toLower (List.all_eq_true.mp hletters _ (List.mem_map_of_mem hc))
  | frozen =>
    subst h
    rw [← List.all_eq_true]
    cases settings.frozen <;> decide
  | module =>
    subst h
    refine ⟨hname.ne_nil, fun c hc => ?_⟩
    show (!isBlank c) = true
    rw [hname.solid c hc, Bool.not_false]

/-- The line of a setting has its word. -/
theorem IsLine.word? (hname : IsModuleName settings.module.toList) (hsaid : s.Says settings word)
    (h : s.IsLine word line) : s.marker.word? line = some word := by
  obtain ⟨blanks, hblank, rfl⟩ := h
  obtain ⟨hne, hword⟩ := hsaid.isWord hname
  have hfirst : s.marker.firstWord? (' ' :: (word ++ blanks)) = some word := by
    rw [s.marker.firstWord?_blank (by decide)]
    exact s.marker.firstWord?_append hne hword hblank
  have hafter : afterLabel? s.marker.label (s.title ++ ' ' :: (word ++ blanks)) =
      some (' ' :: (word ++ blanks)) := by
    refine afterLabel?_eq_some_iff.mpr ⟨s.title, rfl, ?_⟩
    cases s <;> decide
  have hline : s.opening ++ word ++ blanks = '-' :: ' ' :: (s.title ++ ' ' :: (word ++ blanks)) := by
    simp [opening]
  have hdash : ∀ cs, afterLabel? s.marker.label ('-' :: cs) = none := by
    intro cs
    cases s <;> rfl
  have hspace : ∀ cs, afterLabel? s.marker.label (' ' :: cs) = none := by
    intro cs
    cases s <;> rfl
  rw [hline, Marker.word?_cons, hdash, Option.bind_none, Option.none_or, Marker.word?_cons, hspace,
    Option.bind_none, Option.none_or]
  exact s.marker.word?_of_afterLabel? hafter hfirst

end Setting

/-! ## The labels on a line -/

/-- White space at the end of a text has no part in a label. -/
theorem Marker.hasLabel_of_append (m : Marker) {cs blanks : List Char} (hblank : blanks.all isBlank = true)
    (h : HasLabel m.label (cs ++ blanks)) : HasLabel m.label cs := by
  rw [hasLabel_iff_occurs, List.map_append] at h
  obtain ⟨c, hlast, hsolid⟩ := m.solid_end
  refine hasLabel_iff_occurs.mpr (infix_of_append h hlast fun hmem => ?_)
  obtain ⟨d, hd, rfl⟩ := List.mem_map.mp hmem
  rw [isBlank_toLower, List.all_eq_true.mp hblank d hd] at hsolid
  cases hsolid

namespace Setting

variable {s t : Setting} {settings : Settings} {word line : List Char}

/-- A word has no label of another setting in it, up to white space if the label has some. -/
theorem Says.not_inside (hname : IsModuleName settings.module.toList) (h : t.Says settings word)
    (hs : s ≠ .extra) (hne : s ≠ t) : ¬ s.marker.label <:+: word.map Char.toLower := by
  cases t with
  | extra =>
    have hword : word.map Char.toLower = settings.extra.name.toList := h
    rw [hword]
    cases settings.extra <;> cases s <;> decide
  | frozen =>
    subst h
    cases settings.frozen <;> cases s <;> decide
  | module =>
    subst h
    cases s with
    | extra => exact absurd rfl hs
    | frozen => exact fun hlabel => hname.not_frozen (hasLabel_iff_occurs.mpr hlabel)
    | module => exact absurd rfl hne

/-- The line of a setting has no label of another setting. -/
theorem IsLine.not_hasLabel (hname : IsModuleName settings.module.toList)
    (hsaid : t.Says settings word) (h : t.IsLine word line) (hne : s ≠ t) :
    ¬ HasLabel s.marker.label line := by
  obtain ⟨blanks, hblank, rfl⟩ := h
  intro hlabel
  have hoccurs := hasLabel_iff_occurs.mp (s.marker.hasLabel_of_append hblank hlabel)
  rw [List.map_append] at hoccurs
  by_cases hs : s = .extra
  · -- The label has a blank in it, so what stands before the blank would stand before the word.
    subst hs
    have hsolid : ' ' ∉ word.map Char.toLower := by
      intro hmem
      obtain ⟨c, hc, hblank⟩ := List.mem_map.mp hmem
      have hc' : isBlank c = true := by
        rw [← isBlank_toLower, hblank]
        decide
      exact Bool.false_ne_true ((t.marker.solid_word c hc').symm.trans ((hsaid.isWord hname).2 c hc))
    have hstart : "**extra ".toList <:+: Setting.extra.marker.label := by decide
    have hbefore := infix_of_append (x := ' ') (hstart.trans hoccurs) (by decide) hsolid
    revert hne hbefore
    cases t <;> decide
  · have hopening : t.opening.map Char.toLower = ("- ".toList ++ t.marker.label) ++ [' '] := by
      cases t <;> decide
    rw [hopening, List.append_assoc, List.singleton_append] at hoccurs
    have hblank : ' ' ∉ s.marker.label := by
      revert hs
      cases s <;> decide
    obtain hbefore | hword := infix_append_cons hblank hoccurs
    · revert hne hbefore
      cases s <;> cases t <;> decide
    · exact hsaid.not_inside hname hs hne hword

end Setting

/-! ## Settings read back -/

theorem ExtraMode.ofName?_name (mode : ExtraMode) : ExtraMode.ofName? mode.name = some mode := by
  cases mode <;> decide

/-- The words that say what the settings are make them. -/
theorem Settings.ofWords_of_says {settings : Settings} {words : Setting → List Char}
    (h : ∀ s : Setting, s.Says settings (words s)) :
    Settings.ofWords (fun s => some (words s)) = settings := by
  have hextra : (words .extra).map Char.toLower = settings.extra.name.toList := h .extra
  have hfrozen : words .frozen = (if settings.frozen then "yes" else "no").toList := h .frozen
  have hmodule : words .module = settings.module.toList := h .module
  have hyes : yesWords.contains (String.ofList ((words .frozen).map Char.toLower)) = settings.frozen := by
    rw [hfrozen]
    cases settings.frozen <;> decide
  simp only [Settings.ofWords, Option.map_some, Option.bind_some, Option.getD_some, hextra, hyes,
    hmodule, String.ofList_toList, ExtraMode.ofName?_name]

/-- Settings that are written on lines of their own are read back, whatever other lines there are and in
whatever order all of them stand. -/
theorem written_settings_are_read_back {settings : Settings} {text : String}
    (hname : IsModuleName settings.module.toList) (h : settings.WrittenIn (linesOf text.toList)) :
    Settings.ofText text = settings := by
  obtain ⟨own, others, hown, hothers, hlines⟩ := h
  choose words hsaid hline using hown
  have hmem : ∀ s, own s ∈ linesOf text.toList := by
    intro s
    rw [hlines.mem_iff]
    cases s <;> simp
  have hfree : ∀ s, ∀ line ∈ linesOf text.toList, line ≠ own s → ¬ HasLabel s.marker.label line := by
    intro s line hmem hne
    have hcases : (∃ t, line = own t) ∨ line ∈ others := by
      rw [hlines.mem_iff] at hmem
      simp only [List.mem_cons] at hmem
      obtain rfl | rfl | rfl | hmem := hmem
      · exact .inl ⟨.extra, rfl⟩
      · exact .inl ⟨.frozen, rfl⟩
      · exact .inl ⟨.module, rfl⟩
      · exact .inr hmem
    obtain ⟨t, rfl⟩ | hother := hcases
    · have hst : s ≠ t := fun heq => hne (by rw [heq])
      exact (hline t).not_hasLabel hname (hsaid t) hst
    · exact fun hlabel => hothers line hother ⟨s, hlabel⟩
  have hwords : ∀ s, s.marker.word? text.toList = some (words s) := by
    intro s
    have hword := s.marker.word?_joinLines_of_mem ((hline s).word? hname (hsaid s)) (hmem s) (hfree s)
    rwa [joinLines_linesOf] at hword
  rw [Settings.ofText_eq_ofWords, funext hwords]
  exact Settings.ofWords_of_says hsaid

def billingText : String :=
  "- **Module:** billing.models\n\nAsk Ida.\n- **Extra fields:** Forbid\n- **Frozen:** yes"

theorem the_settings_of_a_billing_project_are_read_back :
    Settings.WrittenIn ⟨.forbid, true, "billing.models"⟩ (linesOf billingText.toList) ∧
      Settings.ofText billingText = ⟨.forbid, true, "billing.models"⟩ := by
  have hsolid : "billing.models".toList.all (fun c => !isBlank c) = true := by decide
  have hname : IsModuleName "billing.models".toList :=
    { ne_nil := by decide
      solid := by simpa only [List.all_eq_true, Bool.not_eq_true'] using hsolid
      not_frozen := fun hlabel => absurd (hasLabel_iff_occurs.mp hlabel) (by decide) }
  have hplain : ∀ line ∈ ["".toList, "Ask Ida.".toList], ¬ IsLabelled line := by
    intro line hline
    apply not_isLabelled_of_length
    revert line
    decide
  have hlines : linesOf billingText.toList =
      ["- **Module:** billing.models".toList, "".toList, "Ask Ida.".toList] ++
        ["- **Extra fields:** Forbid".toList, "- **Frozen:** yes".toList] := by
    decide
  have hwritten : Settings.WrittenIn ⟨.forbid, true, "billing.models"⟩ (linesOf billingText.toList) := by
    refine ⟨fun s => match s with
      | .extra => "- **Extra fields:** Forbid".toList
      | .frozen => "- **Frozen:** yes".toList
      | .module => "- **Module:** billing.models".toList, _, fun s => ?_, hplain, ?_⟩
    · cases s with
      | extra => exact ⟨"Forbid".toList, rfl, [], rfl, rfl⟩
      | frozen => exact ⟨"yes".toList, rfl, [], rfl, rfl⟩
      | module => exact ⟨"billing.models".toList, rfl, [], rfl, rfl⟩
    · rw [hlines]
      exact List.perm_append_comm
  exact ⟨hwritten, written_settings_are_read_back hname hwritten⟩

end JsonModel
