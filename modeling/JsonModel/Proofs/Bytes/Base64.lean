-- Bytes come back from their base64 text. Each group of four characters stands for three bytes, and the
-- equals signs of the last group tell how many bytes it has.
import JsonModel.Bytes.Base64

namespace JsonModel.Base64

/-! ## Characters -/

theorem value?_digit {n : Nat} (h : n < 64) : value? (digit n) = some n := by
  have hall : ∀ n < 64, value? (digit n) = some n := by decide
  exact hall n h

/-- No number is written as an equals sign. -/
theorem digit_ne_equals {n : Nat} (h : n < 64) : digit n ≠ '=' := by
  have hall : ∀ n < 64, digit n ≠ '=' := by decide
  exact hall n h

/-! ## Groups of characters -/

section

variable {i j k l : Nat}

/-- Two characters before two equals signs stand for one byte. -/
theorem decodeChars_one (hi : i < 64) (hj : j < 64) :
    decodeChars [digit i, digit j, '=', '='] = some [UInt8.ofNat (i * 4 + j / 16)] := by
  unfold decodeChars
  simp [value?_digit hi, value?_digit hj]

/-- Three characters before an equals sign stand for two bytes. -/
theorem decodeChars_two (hi : i < 64) (hj : j < 64) (hk : k < 64) :
    decodeChars [digit i, digit j, digit k, '='] =
      some [UInt8.ofNat (i * 4 + j / 16), UInt8.ofNat (j % 16 * 16 + k / 4)] := by
  rw [decodeChars]
  · simp [value?_digit hi, value?_digit hj, value?_digit hk]
  · exact digit_ne_equals hk

/-- Four characters stand for three bytes, and reading goes on after them. -/
theorem decodeChars_three (hi : i < 64) (hj : j < 64) (hk : k < 64) (hl : l < 64)
    (rest : List Char) :
    decodeChars (digit i :: digit j :: digit k :: digit l :: rest) =
      (decodeChars rest).map fun content =>
        UInt8.ofNat (i * 4 + j / 16) :: UInt8.ofNat (j % 16 * 16 + k / 4)
          :: UInt8.ofNat (k % 4 * 64 + l) :: content := by
  rw [decodeChars]
  · cases hrest : decodeChars rest <;>
      simp [value?_digit hi, value?_digit hj, value?_digit hk, value?_digit hl]
  · exact fun h _ _ => digit_ne_equals hk h
  · exact fun h _ => digit_ne_equals hl h

end

/-! ## Bytes -/

theorem ofNat_eq {a : UInt8} {n : Nat} (h : n = a.toNat) : UInt8.ofNat n = a := by
  rw [h, UInt8.ofNat_toNat]

/-- The text of some bytes is read as the bytes: a group has their bits, cut at other places. -/
theorem decodeChars_encodeChars (content : List UInt8) :
    decodeChars (encodeChars content) = some content := by
  fun_induction encodeChars content with
  | case1 => rfl
  | case2 a =>
    have ha := a.toNat_lt
    rw [decodeChars_one (by omega) (by omega), ofNat_eq (a := a) (by omega)]
  | case3 a b =>
    have ha := a.toNat_lt
    have hb := b.toNat_lt
    rw [decodeChars_two (by omega) (by omega) (by omega), ofNat_eq (a := a) (by omega),
      ofNat_eq (a := b) (by omega)]
  | case4 a b c rest ih =>
    have ha := a.toNat_lt
    have hb := b.toNat_lt
    have hc := c.toNat_lt
    rw [decodeChars_three (by omega) (by omega) (by omega) (by omega), ih,
      ofNat_eq (a := a) (by omega), ofNat_eq (a := b) (by omega), ofNat_eq (a := c) (by omega)]
    rfl

/-- Bytes of any number come back from their text. -/
theorem decode?_encode (content : List UInt8) : decode? (encode content) = some content := by
  unfold decode? encode
  rw [String.toList_ofList, decodeChars_encodeChars]

/-- The last group has four characters, whatever it has to hold. -/
example : encode "fooba".toUTF8.toList = "Zm9vYmE=" ∧ encode "foob".toUTF8.toList = "Zm9vYg==" := by
  decide +kernel

end JsonModel.Base64
