-- Cutting a text at a separator and joining the parts again. Either undoes the other, as long as no part
-- has the separator in it.
import JsonModel.Text.Split

namespace JsonModel

theorem splitAt_eq_splitOn (separator : Char) (cs : List Char) :
    splitAt separator cs = cs.splitOn separator := by
  induction cs with
  | nil => rfl
  | cons c cs ih =>
    rw [List.splitOn_cons_eq_if_modifyHead]
    unfold splitAt
    by_cases hc : c = separator
    · rw [if_pos hc, if_pos (by simpa using hc), ih]
    · rw [if_neg hc, if_neg (by simpa using hc), ih]
      split
      · rename_i hnil
        exact absurd hnil (List.splitOn_ne_nil _ _)
      · rename_i hcons
        rw [hcons]
        rfl

theorem joinWith_eq_intercalate (separator : List Char) (parts : List (List Char)) :
    joinWith separator parts = separator.intercalate parts := by
  induction parts with
  | nil => rfl
  | cons part parts ih =>
    cases parts with
    | nil => simp [joinWith]
    | cons second parts =>
      rw [List.intercalate_cons_cons, ← ih, joinWith]
      simp

/-- No part of a text that is cut has the separator in it. -/
theorem separator_not_mem {separator : Char} {cs part : List Char}
    (h : part ∈ splitAt separator cs) : separator ∉ part := by
  induction cs generalizing part with
  | nil =>
    rw [splitAt, List.mem_singleton] at h
    simp [h]
  | cons c cs ih =>
    unfold splitAt at h
    split at h
    · obtain rfl | h := List.mem_cons.mp h
      · exact List.not_mem_nil
      · exact ih h
    · rename_i hc
      split at h
      · rw [List.mem_singleton.mp h]
        simpa using fun heq => hc heq.symm
      · rename_i first parts hparts
        obtain rfl | h := List.mem_cons.mp h
        · have hfirst : separator ∉ first := ih (by rw [hparts]; exact List.mem_cons_self)
          rw [List.mem_cons, not_or]
          exact ⟨fun heq => hc heq.symm, hfirst⟩
        · exact ih (by rw [hparts]; exact List.mem_cons_of_mem _ h)

/-- What has no separator in it is one part. -/
theorem splitAt_of_not_mem {separator : Char} {cs : List Char} (h : separator ∉ cs) :
    splitAt separator cs = [cs] := by
  have hjoined : ([separator].intercalate [cs]).splitOn separator = [cs] :=
    List.splitOn_intercalate separator (by simpa using h) (by simp)
  rwa [List.intercalate_singleton, ← splitAt_eq_splitOn] at hjoined

theorem splitAt_append_cons (separator : Char) (cs cs' : List Char) :
    splitAt separator (cs ++ separator :: cs') = splitAt separator cs ++ splitAt separator cs' := by
  simp only [splitAt_eq_splitOn, List.splitOn_append_cons_self]

theorem splitAt_ne_nil (separator : Char) (cs : List Char) : splitAt separator cs ≠ [] := by
  rw [splitAt_eq_splitOn]
  exact List.splitOn_ne_nil _ _

end JsonModel
