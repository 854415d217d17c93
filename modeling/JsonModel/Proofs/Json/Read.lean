-- What was read is data: of two members with one name the later alone is kept, the names stand in the
-- order of keys, and no text writes a number that is none.
import JsonModel.Json.Reader
import JsonModel.Proofs.Document
import JsonModel.Proofs.KeyOrder
import JsonModel.Proofs.Traversal

namespace JsonModel

/-! ## Numbers -/

theorem Number.ofUnits_ne_nan (negative : Bool) (units : Nat) :
    Number.ofUnits negative units ≠ .nan := by
  unfold Number.ofUnits
  split <;> simp

theorem Number.ofDecimal_ne_nan (negative : Bool) (d : Decimal) :
    Number.ofDecimal negative d ≠ .nan := by
  unfold Number.ofDecimal
  split
  · exact ofUnits_ne_nan _ _
  · split
    · simp
    · split
      · exact ofUnits_ne_nan _ _
      · exact ofUnits_ne_nan _ _

namespace Json

theorem readUnsigned_ne_nan {negative : Bool} {cs rest : List Char} {n : Number}
    (h : readUnsigned negative cs = .ok (n, rest)) : n ≠ .nan := by
  unfold readUnsigned at h
  obtain ⟨whole, -, h⟩ := bind_ok_iff.mp h
  obtain ⟨fraction, -, h⟩ := bind_ok_iff.mp h
  obtain ⟨exponent, -, h⟩ := bind_ok_iff.mp h
  cases h
  exact Number.ofDecimal_ne_nan _ _

theorem readNumber_ne_nan {cs rest : List Char} {n : Number}
    (h : readNumber cs = .ok (n, rest)) : n ≠ .nan := by
  unfold readNumber at h
  split at h
  · split at h
    · exact readUnsigned_ne_nan h
    · simp [fail] at h
  · split at h
    · exact readUnsigned_ne_nan h
    · simp [fail] at h

/-! ## Values -/

theorem readWord_value {value j : Json} {word cs rest : List Char}
    (h : readWord value word cs = .ok (j, rest)) : j = value := by
  induction word generalizing cs with
  | nil =>
    unfold readWord at h
    cases h
    rfl
  | cons c word ih =>
    cases cs with
    | nil => simp [readWord, fail] at h
    | cons d cs =>
      unfold readWord at h
      split at h
      · exact ih h
      · simp [fail] at h

/-- What a text writes: no number is NaN, and every object lists its members in order, each once. -/
def Written (j : Json) : Prop :=
  j.Every (· ≠ .nan) fun names => names.Nodup ∧ keyOrder names = names

/-- The members that were read make an object, whichever names they have. -/
theorem written_ofList {ms : List (String × Json)} (h : ∀ m ∈ ms, m.2.Written) :
    (Json.obj (Members.ofList ms)).Written := by
  refine every_obj.mpr ⟨⟨Members.nodup_ofList ms, ?_⟩, fun m hm => h m (Members.mem_of_mem_ofList hm)⟩
  rw [Members.names_ofList]
  exact keyOrder_keyOrder _

variable {fuel : Nat} {cs rest : List Char}

theorem readValue_written {j : Json} (hitems : ∀ {cs items rest},
      readItems fuel cs = .ok (items, rest) → ∀ item ∈ items, item.Written)
    (hmembers : ∀ {missing cs ms rest},
      readMembers missing fuel cs = .ok (ms, rest) → ∀ m ∈ ms, m.2.Written)
    (h : readValue (fuel + 1) cs = .ok (j, rest)) : j.Written := by
  unfold readValue at h
  split at h
  · rw [readWord_value h]
    trivial
  · rw [readWord_value h]
    trivial
  · rw [readWord_value h]
    trivial
  · obtain ⟨s, -, h⟩ := bind_ok_iff.mp h
    cases h
    trivial
  · split at h
    · cases h
      trivial
    · obtain ⟨⟨items, _⟩, hread, h⟩ := bind_ok_iff.mp h
      cases h
      exact every_arr.mpr (hitems hread)
  · split at h
    · cases h
      exact @written_ofList [] (by simp)
    · obtain ⟨⟨ms, _⟩, hread, h⟩ := bind_ok_iff.mp h
      cases h
      exact written_ofList (hmembers hread)
  · obtain ⟨⟨n, _⟩, hread, h⟩ := bind_ok_iff.mp h
    cases h
    exact readNumber_ne_nan hread

theorem readItems_written {items : List Json} (hvalue : ∀ {cs j rest},
      readValue fuel cs = .ok (j, rest) → j.Written)
    (hitems : ∀ {cs items rest},
      readItems fuel cs = .ok (items, rest) → ∀ item ∈ items, item.Written)
    (h : readItems (fuel + 1) cs = .ok (items, rest)) : ∀ item ∈ items, item.Written := by
  unfold readItems at h
  obtain ⟨⟨first, _⟩, hfirst, h⟩ := bind_ok_iff.mp h
  simp only at h
  split at h
  · cases h
    intro item hmem
    rw [List.mem_singleton.mp hmem]
    exact hvalue hfirst
  · obtain ⟨⟨others, _⟩, hothers, h⟩ := bind_ok_iff.mp h
    cases h
    intro item hmem
    rcases List.mem_cons.mp hmem with rfl | hmem
    · exact hvalue hfirst
    · exact hitems hothers item hmem
  · simp [fail] at h

theorem readMembers_written {missing : ReadFault} {ms : List (String × Json)}
    (hvalue : ∀ {cs j rest}, readValue fuel cs = .ok (j, rest) → j.Written)
    (hmembers : ∀ {missing cs ms rest},
      readMembers missing fuel cs = .ok (ms, rest) → ∀ m ∈ ms, m.2.Written)
    (h : readMembers missing (fuel + 1) cs = .ok (ms, rest)) : ∀ m ∈ ms, m.2.Written := by
  unfold readMembers at h
  split at h
  · obtain ⟨⟨name, _⟩, -, h⟩ := bind_ok_iff.mp h
    simp only at h
    split at h
    · obtain ⟨⟨first, _⟩, hfirst, h⟩ := bind_ok_iff.mp h
      simp only at h
      split at h
      · cases h
        intro m hmem
        rw [List.mem_singleton.mp hmem]
        exact hvalue hfirst
      · obtain ⟨⟨others, _⟩, hothers, h⟩ := bind_ok_iff.mp h
        cases h
        intro m hmem
        rcases List.mem_cons.mp hmem with rfl | hmem
        · exact hvalue hfirst
        · exact hmembers hothers m hmem
      · simp [fail] at h
    · simp [fail] at h
  · simp [fail] at h

/-- With any fuel, what is read is what a text writes. -/
theorem written_of_fuel (fuel : Nat) :
    (∀ {cs j rest}, readValue fuel cs = .ok (j, rest) → j.Written) ∧
      (∀ {cs items rest}, readItems fuel cs = .ok (items, rest) → ∀ item ∈ items, item.Written) ∧
      ∀ {missing cs ms rest},
        readMembers missing fuel cs = .ok (ms, rest) → ∀ m ∈ ms, m.2.Written := by
  induction fuel with
  | zero =>
    refine ⟨fun h => ?_, fun h => ?_, fun h => ?_⟩
    · simp [readValue, fail] at h
    · simp [readItems, fail] at h
    · simp [readMembers, fail] at h
  | succ fuel ih =>
    obtain ⟨hvalue, hitems, hmembers⟩ := ih
    exact ⟨readValue_written hitems hmembers, readItems_written hvalue hitems,
      readMembers_written hvalue hmembers⟩

/-- Every document that is read is what a text writes. -/
theorem written_of_read {text : String} {j : Json} (h : read text = .ok j) : j.Written := by
  unfold read at h
  obtain ⟨⟨found, _⟩, hfound, h⟩ := bind_ok_iff.mp h
  simp only at h
  split at h
  · cases h
    exact (written_of_fuel _).1 hfound
  · simp at h

/-- Every document that is read is data. -/
theorem isData_of_read {text : String} {j : Json} (h : read text = .ok j) : j.IsData :=
  (written_of_read h).imp (fun _ => id) fun _ => And.left

end Json
end JsonModel
