-- Quoted text is read as the text that was quoted: each character comes back from its escape, and no
-- character is one half of a pair.
import Mathlib.Tactic.SplitIfs
import JsonModel.Json.Reader
import JsonModel.Text.Quoted

namespace JsonModel

/-! ## Units -/

theorem not_half_of_char (c : Char) : isHighUnit c.toNat = false ∧ isLowUnit c.toNat = false := by
  have hvalid : c.toNat < 0xD800 ∨ 0xDFFF < c.toNat ∧ c.toNat < 0x110000 := c.valid
  unfold isHighUnit isLowUnit
  simp only [Bool.and_eq_false_iff, decide_eq_false_iff_not]
  omega

@[simp] theorem singleUnit_toNat (c : Char) : singleUnit c.toNat = c := by
  unfold singleUnit
  obtain ⟨hhigh, hlow⟩ := not_half_of_char c
  rw [hhigh, hlow]
  exact Char.ofNat_toNat c

/-- Numbers of characters write those characters. -/
theorem joinUnits_map_toNat (cs : List Char) : joinUnits (cs.map Char.toNat) = cs := by
  induction cs with
  | nil => rfl
  | cons c cs ih =>
    cases cs with
    | nil => simp [joinUnits]
    | cons d cs =>
      simp only [List.map_cons] at ih ⊢
      unfold joinUnits
      rw [(not_half_of_char c).1, Bool.false_and, if_neg Bool.false_ne_true, ih, singleUnit_toNat]

namespace Json

/-! ## Characters -/

theorem hexDigits_of_control : ∀ n < 32,
    ['0', '0', Nat.digitChar (n / 16), Nat.digitChar (n % 16)].all isHexDigit = true ∧
      digitsValue 16 ['0', '0', Nat.digitChar (n / 16), Nat.digitChar (n % 16)] = n := by
  decide

variable {rest tail : List Char} {units : List Nat}

theorem readUnits_short {c char : Char} (hshort : shortEscape? c = some char)
    (hread : readUnits rest = .ok (units, tail)) :
    readUnits ('\\' :: c :: rest) = .ok (char.toNat :: units, tail) := by
  have hc : c ≠ 'u' := by
    rintro rfl
    simp [shortEscape?] at hshort
  rw [readUnits]
  · rw [hshort]
    simp only [hread, bind, Except.bind]
  · exact fun _ _ _ _ _ hu _ => hc hu
  · exact hc

theorem readUnits_hex {n : Nat} (hn : n < 32) (hread : readUnits rest = .ok (units, tail)) :
    readUnits ('\\' :: 'u' :: '0' :: '0' :: Nat.digitChar (n / 16) :: Nat.digitChar (n % 16) ::
      rest) = .ok (n :: units, tail) := by
  obtain ⟨hdigits, hvalue⟩ := hexDigits_of_control n hn
  rw [readUnits, if_pos hdigits, hvalue]
  simp only [hread, bind, Except.bind]

theorem readUnits_plain {c : Char} (hquote : c ≠ '"') (hslash : c ≠ '\\')
    (hcontrol : ¬ c.toNat < 32) (hread : readUnits rest = .ok (units, tail)) :
    readUnits (c :: rest) = .ok (c.toNat :: units, tail) := by
  rw [readUnits]
  · rw [if_neg hcontrol]
    simp only [hread, bind, Except.bind]
  · exact hquote
  · exact fun _ _ _ _ _ hc _ => hslash hc
  · exact fun _ hc _ => hslash hc
  · exact fun _ _ hc _ => hslash hc
  · exact fun hc _ => hslash hc

/-- How a character is written: with a short escape, as a number, or as it is. -/
theorem encodeChar_cases (c : Char) :
    (∃ e, shortEscape? e = some c ∧ Quoted.encodeChar c = ['\\', e]) ∨
      (c.toNat < 32 ∧ Quoted.encodeChar c =
        ['\\', 'u', '0', '0', Nat.digitChar (c.toNat / 16), Nat.digitChar (c.toNat % 16)]) ∨
      (c ≠ '"' ∧ c ≠ '\\' ∧ ¬ c.toNat < 32 ∧ Quoted.encodeChar c = [c]) := by
  have hnamed : ∀ {n : Nat} {e : Char}, c.toNat = n → shortEscape? e = some (Char.ofNat n) →
      shortEscape? e = some c := by
    intro n e hc he
    rw [he, ← hc, Char.ofNat_toNat]
  unfold Quoted.encodeChar
  split_ifs with hquote hslash h8 h9 h10 h12 h13 hcontrol
  · exact .inl ⟨'"', by rw [hquote]; rfl, rfl⟩
  · exact .inl ⟨'\\', by rw [hslash]; rfl, rfl⟩
  · exact .inl ⟨'b', hnamed h8 rfl, rfl⟩
  · exact .inl ⟨'t', hnamed h9 rfl, rfl⟩
  · exact .inl ⟨'n', hnamed h10 rfl, rfl⟩
  · exact .inl ⟨'f', hnamed h12 rfl, rfl⟩
  · exact .inl ⟨'r', hnamed h13 rfl, rfl⟩
  · exact .inr (.inl ⟨hcontrol, rfl⟩)
  · exact .inr (.inr ⟨hquote, hslash, hcontrol, rfl⟩)

/-- A character is read from the way it is written. -/
theorem readUnits_encodeChar (c : Char) (hread : readUnits rest = .ok (units, tail)) :
    readUnits (Quoted.encodeChar c ++ rest) = .ok (c.toNat :: units, tail) := by
  rcases encodeChar_cases c with ⟨e, hshort, hc⟩ | ⟨hcontrol, hc⟩ | ⟨hquote, hslash, hplain, hc⟩
  · rw [hc]
    exact readUnits_short hshort hread
  · rw [hc]
    exact readUnits_hex hcontrol hread
  · rw [hc]
    exact readUnits_plain hquote hslash hplain hread

/-! ## Texts -/

theorem readUnits_flatMap (cs rest : List Char) :
    readUnits (cs.flatMap Quoted.encodeChar ++ '"' :: rest) = .ok (cs.map Char.toNat, rest) := by
  induction cs with
  | nil => rw [List.flatMap_nil, List.nil_append, readUnits, List.map_nil]
  | cons c cs ih =>
    rw [List.flatMap_cons, List.append_assoc, List.map_cons]
    exact readUnits_encodeChar c ih

/-- A text that was quoted is read back. -/
theorem readString_encode (s : String) (rest : List Char) :
    ∃ cs, Quoted.encode s ++ rest = '"' :: cs ∧ readString cs = .ok (s, rest) := by
  refine ⟨s.toList.flatMap Quoted.encodeChar ++ '"' :: rest, ?_, ?_⟩
  · unfold Quoted.encode
    simp
  · unfold readString
    rw [readUnits_flatMap]
    simp only [bind, Except.bind, joinUnits_map_toNat, String.ofList_toList]

end Json
end JsonModel
