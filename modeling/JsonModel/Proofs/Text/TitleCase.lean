-- Title case, run by run and position by position. A character that is no letter cuts a text in two, and
-- each part is put in title case by itself. In a text of ASCII characters each letter keeps its place, and
-- only the first of each run becomes a capital.
import JsonModel.Text.TitleCase

namespace JsonModel

/-! ## Cutting between the runs -/

/-- What stands in front of a character that is no letter and what stands behind it do not meet. -/
theorem titleFrom_append_cons {c : Char} (hc : isLetter c = false) (word before behind : List Char) :
    titleFrom word (before ++ c :: behind) = titleFrom word before ++ c :: titleFrom [] behind := by
  induction before generalizing word with
  | nil => simp [titleFrom, hc]
  | cons d before ih =>
    rw [List.cons_append, titleFrom, titleFrom]
    cases isLetter d with
    | true => exact ih (d :: word)
    | false => simp [ih []]

theorem titleCase_append_singleton {c : Char} (hc : isLetter c = false) (s t : String) :
    titleCase (s ++ String.singleton c ++ t) = titleCase s ++ String.singleton c ++ titleCase t := by
  have hlist : (s ++ String.singleton c ++ t).toList = s.toList ++ c :: t.toList := by
    simp
  unfold titleCase
  rw [hlist, titleFrom_append_cons hc, ← List.singleton_append, String.ofList_append,
    String.ofList_append, String.append_assoc]
  rfl

/-! ## ASCII characters -/

/-- All characters of a text are of ASCII. -/
def IsAscii (cs : List Char) : Prop := ∀ c ∈ cs, c.toNat < 128

/-- What holds of each character in the table of ASCII holds of each ASCII character. -/
@[elab_as_elim]
theorem of_ascii_table {P : Char → Prop} (htable : ∀ n < 128, P (Char.ofNat n)) (c : Char)
    (hc : c.toNat < 128) : P c := by
  have hchar := htable c.toNat hc
  rwa [Char.ofNat_toNat] at hchar

theorem isLetter_of_ascii {c : Char} (hc : c.toNat < 128) : isLetter c = c.isAlpha :=
  of_ascii_table (by decide +kernel) c hc

theorem upperCase_of_ascii {c : Char} (hc : c.toNat < 128) : upperCase c = [c.toUpper] :=
  of_ascii_table (by decide +kernel) c hc

theorem lowerCase_of_ascii {c : Char} (hc : c.toNat < 128) : lowerCase c = [c.toLower] :=
  of_ascii_table (by decide +kernel) c hc

/-- A character in the case of its place. -/
def recase (small : Bool) (c : Char) : Char := if small then c.toLower else c.toUpper

/-- Its case is all that an ASCII character loses: what is no letter stays, a letter stays the same
letter, and it is a capital exactly if its place asks for one. -/
theorem recase_of_ascii {c : Char} (hc : c.toNat < 128) (small : Bool) :
    (recase small c).toNat < 128 ∧
      (c.isAlpha = false → recase small c = c) ∧
      (recase small c).isAlpha = c.isAlpha ∧
      (recase small c).toLower = c.toLower ∧
      (recase small c).isUpper = (c.isAlpha && !small) ∧
      recase small (recase small c) = recase small c := by
  revert small
  exact of_ascii_table (by decide +kernel) c hc

/-- The form of a sigma at the end of a word is the only one that depends on its neighbours. -/
theorem lowerFrom_of_ascii {cs : List Char} (hcs : IsAscii cs) (afterCased : Bool) :
    lowerFrom afterCased cs = cs.map Char.toLower := by
  induction cs generalizing afterCased with
  | nil => rfl
  | cons c cs ih =>
    obtain ⟨hc, hcs⟩ := List.forall_mem_cons.mp hcs
    have hsigma : c ≠ 'Σ' := by
      rintro rfl
      revert hc
      decide
    unfold lowerFrom
    simp only [if_neg hsigma, lowerCase_of_ascii hc, ih hcs, List.map_cons, List.singleton_append]

/-! ## One pass over the text -/

/-- A text with a capital where a letter does not follow a letter, and small letters elsewhere. -/
def capitalized (afterLetter : Bool) : List Char → List Char
  | [] => []
  | c :: cs => recase afterLetter c :: capitalized c.isAlpha cs

theorem titleWord_append_singleton {word : List Char} {c : Char} (hword : IsAscii word)
    (hc : c.toNat < 128) :
    titleWord (word ++ [c]) = titleWord word ++ [recase (!word.isEmpty) c] := by
  cases word with
  | nil => simp [titleWord, upperCase_of_ascii hc, lowerFrom, recase]
  | cons d word =>
    obtain ⟨-, hword⟩ := List.forall_mem_cons.mp hword
    have hboth : IsAscii (word ++ [c]) := by
      intro e he
      obtain he | he := List.mem_append.mp he
      · exact hword e he
      · rwa [List.mem_singleton.mp he]
    simp [titleWord, lowerFrom_of_ascii hword, lowerFrom_of_ascii hboth, recase]

/-- The run that is being read is put in title case, and the rest of the text goes on from there. -/
theorem titleFrom_of_ascii {word cs : List Char} (hword : IsAscii word) (hcs : IsAscii cs) :
    titleFrom word cs = titleWord word.reverse ++ capitalized (!word.isEmpty) cs := by
  induction cs generalizing word with
  | nil => simp [titleFrom, capitalized]
  | cons c cs ih =>
    obtain ⟨hc, hcs⟩ := List.forall_mem_cons.mp hcs
    unfold titleFrom capitalized
    rw [isLetter_of_ascii hc]
    cases halpha : c.isAlpha with
    | true =>
      have hread : IsAscii (c :: word) := List.forall_mem_cons.mpr ⟨hc, hword⟩
      have hreverse : IsAscii word.reverse := fun d hd => hword d (List.mem_reverse.mp hd)
      rw [if_pos rfl, ih hread hcs, List.reverse_cons, titleWord_append_singleton hreverse hc,
        List.isEmpty_reverse, List.append_assoc]
      rfl
    | false =>
      obtain ⟨-, hother, -⟩ := recase_of_ascii hc (!word.isEmpty)
      rw [if_neg Bool.false_ne_true, ih (List.forall_mem_nil _) hcs, hother halpha]
      rfl

theorem toList_titleCase_of_ascii {s : String} (hs : IsAscii s.toList) :
    (titleCase s).toList = capitalized false s.toList := by
  unfold titleCase
  rw [String.toList_ofList, titleFrom_of_ascii (List.forall_mem_nil _) hs]
  rfl

theorem isAscii_capitalized {cs : List Char} (hcs : IsAscii cs) (afterLetter : Bool) :
    IsAscii (capitalized afterLetter cs) := by
  induction cs generalizing afterLetter with
  | nil => exact List.forall_mem_nil _
  | cons c cs ih =>
    obtain ⟨hc, hcs⟩ := List.forall_mem_cons.mp hcs
    exact List.forall_mem_cons.mpr ⟨(recase_of_ascii hc afterLetter).1, ih hcs c.isAlpha⟩

theorem capitalized_capitalized {cs : List Char} (hcs : IsAscii cs) (afterLetter : Bool) :
    capitalized afterLetter (capitalized afterLetter cs) = capitalized afterLetter cs := by
  induction cs generalizing afterLetter with
  | nil => rfl
  | cons c cs ih =>
    obtain ⟨hc, hcs⟩ := List.forall_mem_cons.mp hcs
    obtain ⟨-, -, halpha, -, -, hagain⟩ := recase_of_ascii hc afterLetter
    rw [capitalized, capitalized, hagain, halpha, ih hcs]

/-! ## Position by position -/

/-- A letter stands right before a position. What stands before the first one is given. -/
def letterBefore (afterLetter : Bool) (cs : List Char) : Nat → Bool
  | 0 => afterLetter
  | i + 1 => cs[i]?.any Char.isAlpha

theorem getElem?_capitalized (afterLetter : Bool) (cs : List Char) (i : Nat) :
    (capitalized afterLetter cs)[i]? = cs[i]?.map (recase (letterBefore afterLetter cs i)) := by
  induction cs generalizing afterLetter i with
  | nil => rfl
  | cons c cs ih =>
    cases i with
    | zero => rfl
    | succ i =>
      have hbefore : letterBefore c.isAlpha cs i = letterBefore afterLetter (c :: cs) (i + 1) := by
        cases i <;> rfl
      rw [capitalized, List.getElem?_cons_succ, List.getElem?_cons_succ, ih, hbefore]

/-- A run of letters starts at a position: a letter stands there, and none right before it. -/
def RunStartsAt (cs : List Char) (i : Nat) : Prop :=
  (∃ c, cs[i]? = some c ∧ c.isAlpha = true) ∧
    (i = 0 ∨ ∃ b, cs[i - 1]? = some b ∧ b.isAlpha = false)

theorem runStartsAt_iff {cs : List Char} {i : Nat} {c : Char} (hc : cs[i]? = some c) :
    RunStartsAt cs i ↔ c.isAlpha = true ∧ letterBefore false cs i = false := by
  unfold RunStartsAt
  rw [hc]
  simp only [Option.some.injEq, exists_eq_left']
  cases i with
  | zero => simp [letterBefore]
  | succ i =>
    obtain ⟨hi, -⟩ := List.getElem?_eq_some_iff.mp hc
    have hbefore : cs[i]? = some cs[i] := List.getElem?_eq_getElem (by omega)
    simp [letterBefore, hbefore]

/-- A text of ASCII characters with each run of letters capitalized: nothing moves, and nothing changes
but the case of letters. -/
structure Capitalizes (cs out : List Char) : Prop where
  length_eq : out.length = cs.length
  same_letter : ∀ (i : Nat) (c d : Char), cs[i]? = some c → out[i]? = some d → d.toLower = c.toLower
  other_eq : ∀ (i : Nat) (c : Char), cs[i]? = some c → c.isAlpha = false → out[i]? = some c
  capital_iff : ∀ i, (∃ d, out[i]? = some d ∧ d.isUpper = true) ↔ RunStartsAt cs i

theorem length_capitalized (cs : List Char) (afterLetter : Bool) :
    (capitalized afterLetter cs).length = cs.length := by
  induction cs generalizing afterLetter with
  | nil => rfl
  | cons c cs ih => rw [capitalized, List.length_cons, List.length_cons, ih]

theorem capitalizes_capitalized {cs : List Char} (hcs : IsAscii cs) :
    Capitalizes cs (capitalized false cs) where
  length_eq := length_capitalized cs false
  same_letter i c d hc hd := by
    have hascii := hcs c (List.mem_of_getElem? hc)
    obtain ⟨-, -, -, hletter, -⟩ := recase_of_ascii hascii (letterBefore false cs i)
    rw [getElem?_capitalized, hc, Option.map_some, Option.some.injEq] at hd
    rw [← hd, hletter]
  other_eq i c hc halpha := by
    have hascii := hcs c (List.mem_of_getElem? hc)
    obtain ⟨-, hother, -⟩ := recase_of_ascii hascii (letterBefore false cs i)
    rw [getElem?_capitalized, hc, Option.map_some, hother halpha]
  capital_iff i := by
    rw [getElem?_capitalized]
    cases hc : cs[i]? with
    | none => simp [RunStartsAt, hc]
    | some c =>
      have hascii := hcs c (List.mem_of_getElem? hc)
      obtain ⟨-, -, -, -, hcapital, -⟩ := recase_of_ascii hascii (letterBefore false cs i)
      rw [runStartsAt_iff hc]
      simp [hcapital]

/-- In a text of ASCII characters title case makes the first letter of each run a capital and the others
small, so that doing it again changes nothing; and whatever is no letter cuts a text, of whatever
characters, into parts that are put in title case each by itself. -/
theorem each_run_of_letters_is_capitalized {s : String} (hs : IsAscii s.toList) :
    Capitalizes s.toList (titleCase s).toList ∧ titleCase (titleCase s) = titleCase s ∧
      ∀ (c : Char) (t : String), isLetter c = false →
        titleCase (s ++ String.singleton c ++ t) = titleCase s ++ String.singleton c ++ titleCase t := by
  have hout := toList_titleCase_of_ascii hs
  refine ⟨?_, ?_, fun c t hc => titleCase_append_singleton hc s t⟩
  · rw [hout]
    exact capitalizes_capitalized hs
  · have hagain : IsAscii (titleCase s).toList := by
      rw [hout]
      exact isAscii_capitalized hs false
    apply String.toList_injective
    rw [toList_titleCase_of_ascii hagain, hout, capitalized_capitalized hs]

theorem a_home_address_is_capitalized :
    IsAscii "home_address of ida2B".toList ∧
      Capitalizes "home_address of ida2B".toList (titleCase "home_address of ida2B").toList ∧
      titleCase "home_address of ida2B" = "Home_Address Of Ida2B" ∧
      titleCase "Home_Address Of Ida2B" = "Home_Address Of Ida2B" := by
  have hascii : IsAscii "home_address of ida2B".toList := by
    simp [IsAscii]
  have htitle : titleCase "home_address of ida2B" = "Home_Address Of Ida2B" := by decide +kernel
  obtain ⟨hcapital, hagain, -⟩ := each_run_of_letters_is_capitalized hascii
  rw [htitle] at hagain
  exact ⟨hascii, hcapital, htitle, hagain⟩

end JsonModel
