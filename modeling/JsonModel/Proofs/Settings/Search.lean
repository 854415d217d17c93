-- The search of a text for a word behind a label, line by line. A label stands on one line, but the white
-- space between it and its word may go over the end of that line: a label with nothing behind it takes
-- its word from the lines below.
import Mathlib.Data.List.TakeWhile
import JsonModel.Proofs.Split
import JsonModel.Settings.Text

namespace JsonModel

/-! ## White space -/

theorem char_le_iff {c d : Char} : c ≤ d ↔ c.toNat ≤ d.toNat := by
  rw [Char.le_def, UInt32.le_iff_toNat_le]
  rfl

theorem not_blank_of_toNat {c : Char} (hlow : 32 < c.toNat) (hhigh : c.toNat < 160) :
    isBlank c = false := by
  unfold isBlank
  simp only [Bool.or_eq_false_iff, Bool.and_eq_false_iff, decide_eq_false_iff_not,
    beq_eq_false_iff_ne]
  omega

/-- The case of a letter does not make it white space. -/
theorem isBlank_toLower (c : Char) : isBlank c.toLower = isBlank c := by
  unfold Char.toLower
  split
  · rename_i hcapital
    have hlow : 65 ≤ c.toNat := hcapital.1
    have hhigh : c.toNat ≤ 90 := hcapital.2
    have hlower : (c.val + ('a'.val - 'A'.val)).toNat = c.toNat + 32 := by
      have hsum := UInt32.toNat_add c.val ('a'.val - 'A'.val)
      have hstep : ('a'.val - 'A'.val).toNat = 32 := rfl
      have hval : c.val.toNat = c.toNat := rfl
      omega
    rw [not_blank_of_toNat (show 32 < c.toNat by omega) (by omega)]
    apply not_blank_of_toNat
    · exact Nat.lt_of_lt_of_eq (by omega) hlower.symm
    · exact Nat.lt_of_le_of_lt (Nat.le_of_eq hlower) (by omega)
  · rfl

/-- White space is no character of a plain word. -/
theorem not_wordCharacter_of_blank {c : Char} (h : isBlank c = true) : isWordCharacter c = false := by
  by_contra hword
  have hrange : 48 ≤ c.toNat ∧ c.toNat ≤ 122 := by
    by_contra hout
    have hdigit : ¬ ('0' ≤ c ∧ c ≤ '9') := by
      simp only [char_le_iff, Char.reduceToNat]
      omega
    have hsmall : ¬ ('a' ≤ c ∧ c ≤ 'z') := by
      simp only [char_le_iff, Char.reduceToNat]
      omega
    have hlarge : ¬ ('A' ≤ c ∧ c ≤ 'Z') := by
      simp only [char_le_iff, Char.reduceToNat]
      omega
    have hother : c ≠ '_' := by
      rintro rfl
      exact hout (by decide)
    simp [isWordCharacter, isBasicAlphanumeric, isBasicLetter, isDecimalDigit, isDigitOf,
      digitValue?, hdigit, hsmall, hlarge, hother] at hword
  rw [not_blank_of_toNat (by omega) (by omega)] at h
  cases h

theorem takeWhile_append_cons {α : Type} {p : α → Bool} {x : α} (hx : p x = false) (xs ys : List α) :
    (xs ++ x :: ys).takeWhile p = xs.takeWhile p := by
  induction xs with
  | nil => simp [hx]
  | cons y xs ih => simp only [List.cons_append, List.takeWhile_cons, ih]

/-! ## Labels -/

theorem afterLabel?_eq_some_iff {label cs rest : List Char} :
    afterLabel? label cs = some rest ↔
      ∃ written, cs = written ++ rest ∧ written.map Char.toLower = label := by
  induction label generalizing cs with
  | nil => simp [afterLabel?, eq_comm]
  | cons l ls ih =>
    cases cs with
    | nil => simp [afterLabel?]
    | cons c cs =>
      unfold afterLabel?
      constructor
      · intro h
        split at h
        · rename_i hc
          obtain ⟨written, rfl, hwritten⟩ := ih.mp h
          exact ⟨c :: written, rfl, by rw [List.map_cons, hc, hwritten]⟩
        · cases h
      · rintro ⟨written, hcs, hwritten⟩
        cases written with
        | nil => cases hwritten
        | cons d written =>
          cases hcs
          cases hwritten
          rw [if_pos rfl]
          exact ih.mpr ⟨written, rfl, rfl⟩

/-- A label without line breaks is not found across one. -/
theorem afterLabel?_append {label : List Char} (h : '\n' ∉ label) (cs rest : List Char) :
    afterLabel? label (cs ++ '\n' :: rest) = (afterLabel? label cs).map (· ++ '\n' :: rest) := by
  induction label generalizing cs with
  | nil => rfl
  | cons l ls ih =>
    have hl : l ≠ '\n' := fun heq => h (heq ▸ List.mem_cons_self)
    have hls : '\n' ∉ ls := fun hmem => h (List.mem_cons_of_mem _ hmem)
    cases cs with
    | nil =>
      have hbreak : '\n' ≠ l := hl.symm
      simp [afterLabel?, hbreak]
    | cons c cs =>
      rw [List.cons_append, afterLabel?, afterLabel?]
      split
      · exact ih hls cs
      · rfl

/-- A label stands in a text, in whatever case. -/
def HasLabel (label cs : List Char) : Prop :=
  ∃ before written after, cs = before ++ written ++ after ∧ written.map Char.toLower = label

/-- A label stands at the end of a text, with nothing but white space behind it. -/
def EndsWithLabel (label cs : List Char) : Prop :=
  ∃ before written blanks, cs = before ++ written ++ blanks ∧
    written.map Char.toLower = label ∧ blanks.all isBlank = true

theorem EndsWithLabel.hasLabel {label cs : List Char} (h : EndsWithLabel label cs) :
    HasLabel label cs := by
  obtain ⟨before, written, blanks, hcs, hwritten, -⟩ := h
  exact ⟨before, written, blanks, hcs, hwritten⟩

theorem HasLabel.cons {label cs : List Char} (h : HasLabel label cs) (c : Char) :
    HasLabel label (c :: cs) := by
  obtain ⟨before, written, after, rfl, hwritten⟩ := h
  exact ⟨c :: before, written, after, rfl, hwritten⟩

theorem EndsWithLabel.cons {label cs : List Char} (h : EndsWithLabel label cs) (c : Char) :
    EndsWithLabel label (c :: cs) := by
  obtain ⟨before, written, blanks, rfl, hwritten, hblank⟩ := h
  exact ⟨c :: before, written, blanks, rfl, hwritten, hblank⟩

/-- A label that ends a text starts it, or ends what is behind the first character. -/
theorem endsWithLabel_cons {label cs : List Char} {c : Char} (h : EndsWithLabel label (c :: cs)) :
    (∃ rest, afterLabel? label (c :: cs) = some rest ∧ rest.all isBlank = true) ∨
      EndsWithLabel label cs := by
  obtain ⟨before, written, blanks, hcs, hwritten, hblank⟩ := h
  cases before with
  | nil => exact .inl ⟨blanks, afterLabel?_eq_some_iff.mpr ⟨written, hcs, hwritten⟩, hblank⟩
  | cons d before =>
    cases hcs
    exact .inr ⟨before, written, blanks, rfl, hwritten, hblank⟩

/-! ## Markers -/

/-- A label, and what makes up the words behind it. A label stands on one line and does not end with
white space, and no word has white space in it. -/
structure Marker where
  label : List Char
  isWord : Char → Bool
  no_break : '\n' ∉ label
  solid_end : ∃ c, label.getLast? = some c ∧ isBlank c = false
  solid_word : ∀ c, isBlank c = true → isWord c = false

namespace Marker

variable (m : Marker)

/-- The first word behind the label in a text. -/
def word? (cs : List Char) : Option (List Char) := labelled? m.label m.isWord cs

/-- The word that a text starts with, white space apart. -/
def firstWord? (cs : List Char) : Option (List Char) :=
  match (cs.dropWhile isBlank).takeWhile m.isWord with
  | [] => none
  | word => some word

theorem word?_cons (c : Char) (cs : List Char) :
    m.word? (c :: cs) = ((afterLabel? m.label (c :: cs)).bind m.firstWord?).or (m.word? cs) := rfl

/-! ### The first word of a text -/

theorem firstWord?_of_blank {cs : List Char} (h : cs.all isBlank = true) :
    m.firstWord? cs = none := by
  have hdrop : cs.dropWhile isBlank = [] := List.dropWhile_eq_nil_iff.mpr (List.all_eq_true.mp h)
  unfold firstWord?
  rw [hdrop]
  rfl

theorem firstWord?_blank {c : Char} (hc : isBlank c = true) (cs : List Char) :
    m.firstWord? (c :: cs) = m.firstWord? cs := by
  unfold firstWord?
  rw [List.dropWhile_cons_of_pos hc]

/-- A line break ends a word, and lines of white space are passed over. -/
theorem firstWord?_break (line rest : List Char) : m.firstWord? (line ++ '\n' :: rest) =
    if line.all isBlank then m.firstWord? rest else m.firstWord? line := by
  have hbreak : isBlank '\n' = true := by decide
  induction line with
  | nil => simp [firstWord?, hbreak]
  | cons c line ih =>
    cases hc : isBlank c with
    | true =>
      rw [List.cons_append, m.firstWord?_blank hc, m.firstWord?_blank hc, ih]
      simp [hc]
    | false =>
      have hword : ((c :: line) ++ '\n' :: rest).takeWhile m.isWord =
          (c :: line).takeWhile m.isWord := takeWhile_append_cons (m.solid_word _ hbreak) _ _
      have hkeep : ∀ cs, (c :: cs).dropWhile isBlank = c :: cs := by
        intro cs
        simp [hc]
      have hsame : m.firstWord? (c :: (line ++ '\n' :: rest)) = m.firstWord? (c :: line) := by
        unfold firstWord?
        rw [hkeep, hkeep, ← List.cons_append, hword]
      rw [List.cons_append, hsame]
      simp [hc]

/-! ### Lines with a label -/

theorem label_ne_nil : m.label ≠ [] := by
  intro hnil
  obtain ⟨c, hc, -⟩ := m.solid_end
  rw [hnil] at hc
  cases hc

/-- The last character of a label is none of white space, in whatever case it is written. -/
theorem solid_written {written : List Char} (h : written.map Char.toLower = m.label) :
    ∃ c, written.getLast? = some c ∧ isBlank c = false := by
  obtain ⟨l, hl, hsolid⟩ := m.solid_end
  rw [← h, List.getLast?_map, Option.map_eq_some_iff] at hl
  obtain ⟨c, hc, rfl⟩ := hl
  exact ⟨c, hc, isBlank_toLower c ▸ hsolid⟩

theorem not_blank_of_hasLabel {cs : List Char} (h : HasLabel m.label cs) : cs.all isBlank = false := by
  obtain ⟨before, written, after, rfl, hwritten⟩ := h
  obtain ⟨c, hc, hsolid⟩ := m.solid_written hwritten
  rw [List.all_eq_false]
  refine ⟨c, ?_, by simpa using hsolid⟩
  simp [List.mem_of_getLast? hc]

theorem hasLabel_of_word? {cs : List Char} {word : List Char} (h : m.word? cs = some word) :
    HasLabel m.label cs := by
  induction cs with
  | nil => cases h
  | cons c cs ih =>
    rw [word?_cons, Option.or_eq_some_iff] at h
    obtain h | ⟨-, h⟩ := h
    · obtain ⟨rest, hrest, -⟩ := Option.bind_eq_some_iff.mp h
      obtain ⟨written, hcs, hwritten⟩ := afterLabel?_eq_some_iff.mp hrest
      exact ⟨[], written, rest, hcs, hwritten⟩
    · exact (ih h).cons c

theorem word?_eq_none {cs : List Char} (h : ¬ HasLabel m.label cs) : m.word? cs = none := by
  rw [Option.eq_none_iff_forall_ne_some]
  exact fun word hword => h (m.hasLabel_of_word? hword)

/-- Behind the start of a label that ends a text, it does not stand again: its last character would be
white space. -/
theorem not_hasLabel_behind {c : Char} {cs rest : List Char}
    (h : afterLabel? m.label (c :: cs) = some rest) (hblank : rest.all isBlank = true) :
    ¬ HasLabel m.label cs := by
  rintro ⟨before, again, after, rfl, hagain⟩
  obtain ⟨written, hcs, hwritten⟩ := afterLabel?_eq_some_iff.mp h
  have hlength : again.length = written.length := by
    rw [← List.length_map Char.toLower, hagain, ← hwritten, List.length_map]
  -- The second one reaches further than the first, into the white space.
  have hends : c :: (before ++ again) = written ++ rest.take (before.length + 1) := by
    have htake := congrArg (List.take (written.length + (before.length + 1))) hcs
    rw [List.take_length_add_append, ← List.cons_append, List.take_left'] at htake
    · exact htake
    · simp only [List.length_cons, List.length_append]
      omega
  obtain ⟨d, hd, hsolid⟩ := m.solid_written hagain
  have hlast : (c :: (before ++ again)).getLast? = some d := by
    rw [← List.cons_append, List.getLast?_append, hd, Option.some_or]
  have htail : rest.take (before.length + 1) ≠ [] := by
    intro hnil
    have hcount := congrArg List.length hends
    rw [hnil] at hcount
    simp only [List.length_cons, List.length_append, List.length_nil] at hcount
    omega
  obtain ⟨e, he⟩ := Option.ne_none_iff_exists'.mp (mt List.getLast?_eq_none_iff.mp htail)
  rw [hends, List.getLast?_append, he, Option.some_or] at hlast
  cases hlast
  have hmem : d ∈ rest := List.mem_of_mem_take (List.mem_of_getLast? he)
  rw [List.all_eq_true.mp hblank d hmem] at hsolid
  cases hsolid

/-! ### A line and the lines below -/

/-- What follows a label on its line decides, and the lines below only where nothing does. -/
theorem bind_afterLabel? (cs rest : List Char) :
    (afterLabel? m.label (cs ++ '\n' :: rest)).bind m.firstWord? =
      (afterLabel? m.label cs).bind fun behind =>
        if behind.all isBlank then m.firstWord? rest else m.firstWord? behind := by
  rw [afterLabel?_append m.no_break]
  cases afterLabel? m.label cs with
  | none => rfl
  | some behind => exact m.firstWord?_break behind rest

theorem word?_break_nil (rest : List Char) : m.word? ('\n' :: rest) = m.word? rest := by
  have hnone : afterLabel? m.label [] = none := by
    cases hlabel : m.label with
    | nil => exact absurd hlabel m.label_ne_nil
    | cons l ls => rfl
  have hbreak := m.bind_afterLabel? [] rest
  rw [List.nil_append, hnone] at hbreak
  rw [word?_cons, hbreak]
  rfl

/-- A line that has no word and does not end with the label is passed over. -/
theorem word?_of_closed {line : List Char} (hnone : m.word? line = none)
    (hclosed : ¬ EndsWithLabel m.label line) (rest : List Char) :
    m.word? (line ++ '\n' :: rest) = m.word? rest := by
  induction line with
  | nil => exact m.word?_break_nil rest
  | cons c line ih =>
    rw [word?_cons, Option.or_eq_none_iff] at hnone
    have hclosed' : ¬ EndsWithLabel m.label line := fun h => hclosed (h.cons c)
    have hstart : (afterLabel? m.label (c :: line ++ '\n' :: rest)).bind m.firstWord? = none := by
      rw [bind_afterLabel?]
      cases hbehind : afterLabel? m.label (c :: line) with
      | none => rfl
      | some behind =>
        have hsolid : ¬ behind.all isBlank = true := by
          intro hblank
          obtain ⟨written, hcs, hwritten⟩ := afterLabel?_eq_some_iff.mp hbehind
          exact hclosed ⟨[], written, behind, hcs, hwritten, hblank⟩
        rw [hbehind] at hnone
        rw [Option.bind_some, if_neg hsolid]
        exact hnone.1
    rw [List.cons_append, word?_cons, ← List.cons_append, hstart, Option.none_or, ih hnone.2 hclosed']

/-- A line that has no word and ends with the label takes the word that the lines below start with. -/
theorem word?_of_open {line : List Char} (hnone : m.word? line = none)
    (hopen : EndsWithLabel m.label line) (rest : List Char) :
    m.word? (line ++ '\n' :: rest) = (m.firstWord? rest).or (m.word? rest) := by
  induction line with
  | nil =>
    have hblank := m.not_blank_of_hasLabel hopen.hasLabel
    cases hblank
  | cons c line ih =>
    rw [word?_cons, Option.or_eq_none_iff] at hnone
    rw [List.cons_append, word?_cons, ← List.cons_append, bind_afterLabel?]
    by_cases hstart : ∃ behind, afterLabel? m.label (c :: line) = some behind ∧ behind.all isBlank
    · -- The label is the one that ends the line, so there is none behind it.
      obtain ⟨behind, hbehind, hblank⟩ := hstart
      have hlast : ¬ HasLabel m.label line := m.not_hasLabel_behind hbehind hblank
      rw [hbehind, Option.bind_some, if_pos hblank,
        m.word?_of_closed hnone.2 (fun h => hlast h.hasLabel)]
    · have hpassed : ((afterLabel? m.label (c :: line)).bind fun behind =>
          if behind.all isBlank then m.firstWord? rest else m.firstWord? behind) = none := by
        cases hbehind : afterLabel? m.label (c :: line) with
        | none => rfl
        | some behind =>
          have hsolid : ¬ behind.all isBlank = true := fun hblank => hstart ⟨behind, hbehind, hblank⟩
          rw [Option.bind_some, if_neg hsolid]
          rw [hbehind] at hnone
          exact hnone.1
      have hopen' : EndsWithLabel m.label line := (endsWithLabel_cons hopen).resolve_left hstart
      rw [hpassed, Option.none_or, ih hnone.2 hopen']

/-- A line that has a word keeps it. -/
theorem word?_of_own {line word : List Char} (h : m.word? line = some word) (rest : List Char) :
    m.word? (line ++ '\n' :: rest) = some word := by
  induction line with
  | nil => cases h
  | cons c line ih =>
    rw [word?_cons] at h
    rw [List.cons_append, word?_cons, ← List.cons_append, bind_afterLabel?]
    cases hbehind : afterLabel? m.label (c :: line) with
    | none =>
      rw [hbehind, Option.bind_none, Option.none_or] at h
      rw [Option.bind_none, Option.none_or, ih h]
    | some behind =>
      rw [hbehind, Option.bind_some] at h
      rw [Option.bind_some]
      cases hblank : behind.all isBlank with
      | true =>
        -- The word would be behind the label that ends the line.
        rw [m.firstWord?_of_blank hblank, Option.none_or] at h
        exact absurd (m.hasLabel_of_word? h) (m.not_hasLabel_behind hbehind hblank)
      | false =>
        cases hfirst : m.firstWord? behind with
        | none =>
          rw [hfirst, Option.none_or] at h
          rw [if_neg Bool.false_ne_true, Option.none_or, ih h]
        | some first =>
          rw [hfirst] at h
          rw [if_neg Bool.false_ne_true]
          exact h

end Marker

end JsonModel
