-- What the checks of types without parts leave alone. A primitive type and most semantic ones give
-- the value back as it was, and none of them speaks of unknown keys.
import JsonModel.Check.Leaf

namespace JsonModel

/-- No issue reports unknown keys of the checked value itself. -/
def Outcome.Plain (o : Outcome) : Prop := ∀ issue ∈ o.issues, Outcome.unknownHere? issue = none

theorem plain_accept (v : Value) : (Outcome.accept v).Plain := by
  intro issue h
  simp [Outcome.accept] at h

theorem plain_keep {v : Value} {faults : List Fault}
    (h : ∀ fault ∈ faults, Outcome.unknownHere? (.here fault) = none) :
    (Outcome.keep v faults).Plain := by
  intro issue hissue
  obtain ⟨fault, hfault, rfl⟩ := List.mem_map.mp hissue
  exact h fault hfault

theorem plain_reject {v : Value} {fault : Fault}
    (h : Outcome.unknownHere? (.here fault) = none) : (Outcome.reject v fault).Plain := by
  intro issue hissue
  rw [List.mem_singleton.mp hissue]
  exact h

theorem plain_wrongType (expected : Expected) (v : Value) : (wrongType expected v).Plain :=
  plain_reject rfl

/-! ## Primitive types -/

theorem mem_boundFault {bound : Option Number} {keeps : Number → Bool} {fault : Number → Fault}
    {x : Fault} (h : x ∈ boundFault bound keeps fault) : ∃ b, x = fault b := by
  unfold boundFault at h
  split at h
  · rename_i b
    split at h
    · simp at h
    · exact ⟨b, List.mem_singleton.mp h⟩
  · simp at h

theorem plain_numberFaults {limits : Limits} {n : Number} {x : Fault}
    (h : x ∈ limits.numberFaults n) : Outcome.unknownHere? (.here x) = none := by
  unfold Limits.numberFaults at h
  simp only [List.mem_append] at h
  rcases h with (((h | h) | h) | h) | h <;> obtain ⟨_, rfl⟩ := mem_boundFault h <;> rfl

theorem plain_safeRangeFaults {n : Number} {x : Fault} (h : x ∈ safeRangeFaults n) :
    Outcome.unknownHere? (.here x) = none := by
  unfold safeRangeFaults at h
  split at h
  · rw [List.mem_singleton.mp h]
    rfl
  · split at h
    · rw [List.mem_singleton.mp h]
      rfl
    · simp at h

theorem plain_lengthFaults {limits : Limits} {v : Value} {x : Fault}
    (h : x ∈ limits.lengthFaults v) : Outcome.unknownHere? (.here x) = none := by
  unfold Limits.lengthFaults at h
  split at h
  · rcases List.mem_append.mp h with h | h <;> obtain ⟨_, rfl⟩ := mem_boundFault h <;> rfl
  · simp at h

theorem haveLength_value (limits : Limits) (v : Value) : (haveLength limits v).value = v := by
  unfold haveLength
  split <;> rfl

theorem plain_haveLength (limits : Limits) (v : Value) : (haveLength limits v).Plain := by
  unfold haveLength
  split
  · exact plain_keep fun _ => plain_lengthFaults
  · apply plain_keep
    intro fault h
    rcases List.mem_cons.mp h with rfl | h
    · rfl
    · exact plain_lengthFaults h

/-- A primitive type gives every value back. -/
theorem Primitive.check_value (kind : Primitive) (limits : Limits) (v : Value) :
    (kind.check limits v).value = v := by
  unfold Primitive.check
  split
  · exact haveLength_value _ _
  · split
    · rfl
    · split <;> rfl
  · rfl
  · split <;> rfl
  all_goals rfl

theorem Primitive.check_plain (kind : Primitive) (limits : Limits) (v : Value) :
    (kind.check limits v).Plain := by
  unfold Primitive.check
  split
  · exact plain_haveLength _ _
  · split
    · exact plain_wrongType _ _
    · split
      · exact plain_wrongType _ _
      · apply plain_keep
        intro fault h
        rcases List.mem_append.mp h with h | h
        · exact plain_safeRangeFaults h
        · exact plain_numberFaults h
  · exact plain_wrongType _ _
  · split
    · exact plain_keep fun _ => plain_numberFaults
    · exact plain_wrongType _ _
  · exact plain_wrongType _ _
  · exact plain_accept _
  · exact plain_wrongType _ _
  · exact plain_accept _
  · exact plain_wrongType _ _
  · exact plain_accept _

/-! ## Semantic types -/

/-- The kinds whose check gives a text back as it was: it is not decoded, hidden or tidied. -/
def Semantic.Keeps : Semantic → Prop
  | .base64Bytes | .jsonString | .secretString | .secretBytes | .uri | .httpUri | .fileUri => False
  | _ => True

theorem mem_faultUnless {holds : Bool} {fault x : Fault} (h : x ∈ faultUnless holds fault) :
    x = fault := by
  unfold faultUnless at h
  split at h
  · simp at h
  · exact List.mem_singleton.mp h

theorem onText_value {v : Value} {check : String → Outcome}
    (h : ∀ s, v = .str s → (check s).value = v) : (onText v check).value = v := by
  unfold onText
  split
  · exact h _ rfl
  · rfl

theorem plain_onText {v : Value} {check : String → Outcome} (h : ∀ s, (check s).Plain) :
    (onText v check).Plain := by
  unfold onText
  split
  · exact h _
  · exact plain_wrongType _ _

theorem haveForm_value (v : Value) (form : String) (test : List Char → Bool) :
    (haveForm v form test).value = v := onText_value fun _ _ => rfl

theorem plain_haveForm (v : Value) (form : String) (test : List Char → Bool) :
    (haveForm v form test).Plain := by
  refine plain_onText fun s => plain_keep fun fault h => ?_
  rw [mem_faultUnless h]
  rfl

theorem haveSomeForm_value (v : Value) (tests : List (List Char → Bool)) :
    (haveSomeForm v tests).value = v := by
  unfold haveSomeForm
  split
  · split <;> rfl
  · rfl

theorem plain_haveSomeForm (v : Value) (tests : List (List Char → Bool)) :
    (haveSomeForm v tests).Plain := by
  unfold haveSomeForm
  split
  · split
    · exact plain_accept _
    · exact plain_reject rfl
  · exact plain_reject rfl

theorem haveUuidVersion_value (v : Value) (version : Char) :
    (haveUuidVersion v version).value = v := onText_value fun _ _ => rfl

theorem plain_haveUuidVersion (v : Value) (version : Char) :
    (haveUuidVersion v version).Plain := by
  refine plain_onText fun s => plain_keep fun fault h => ?_
  rcases List.mem_append.mp h with h | h <;> rw [mem_faultUnless h] <;> rfl

theorem plain_changed (v : Value) {change : String → Except Fault Value}
    (h : ∀ s fault, change s = .error fault → Outcome.unknownHere? (.here fault) = none) :
    (changed v change).Plain := by
  unfold changed
  split
  · split
    · exact plain_accept _
    · rename_i fault hfault
      intro issue hissue
      rw [List.mem_singleton.mp hissue]
      exact h _ fault hfault
  · exact plain_wrongType .string _

theorem plain_haveLink (v : Value) (schemes : Option (List String)) (refusal : String) :
    (haveLink v schemes refusal).Plain := by
  refine plain_onText fun s => plain_keep fun fault h => ?_
  rcases List.mem_append.mp h with h | h <;> rw [mem_faultUnless h] <;> rfl

/-- A kind that keeps texts gives every value back. -/
theorem Semantic.check_value {kind : Semantic} (h : kind.Keeps) (places : Places)
    (limits : Limits) (v : Value) : (kind.check places limits v).value = v := by
  cases kind with
  | base64Bytes | jsonString | secretString | secretBytes | uri | httpUri | fileUri =>
    exact h.elim
  | strictBytes =>
    unfold Semantic.check
    simp only
    split <;> rfl
  | directoryPath | filePath =>
    unfold Semantic.check
    exact onText_value fun _ _ => rfl
  | path => exact haveLength_value _ _
  | ipAnyAddress | ipAnyInterface | ipAnyNetwork => exact haveSomeForm_value _ _
  | uuid1 | uuid3 | uuid4 | uuid5 => exact haveUuidVersion_value _ _
  | _ => exact haveForm_value _ _ _

theorem Semantic.check_plain (kind : Semantic) (places : Places) (limits : Limits) (v : Value) :
    (kind.check places limits v).Plain := by
  cases kind with
  | base64Bytes =>
    refine plain_changed v fun s fault h => ?_
    split at h
    · simp at h
    · cases h
      rfl
  | jsonString =>
    refine plain_changed v fun s fault h => ?_
    split at h
    · simp at h
    · cases h
      rfl
  | secretString | secretBytes => exact plain_changed v fun s fault h => by simp at h
  | uri | httpUri | fileUri =>
    unfold Semantic.check
    exact plain_haveLink _ _ _
  | strictBytes =>
    unfold Semantic.check
    simp only
    split
    · exact plain_accept _
    · exact plain_wrongType _ _
  | directoryPath | filePath =>
    unfold Semantic.check
    refine plain_onText fun s => plain_keep fun fault h => ?_
    rw [mem_faultUnless h]
    rfl
  | path => exact plain_haveLength _ _
  | ipAnyAddress | ipAnyInterface | ipAnyNetwork => exact plain_haveSomeForm _ _
  | uuid1 | uuid3 | uuid4 | uuid5 => exact plain_haveUuidVersion _ _
  | _ => exact plain_haveForm _ _ _

end JsonModel
