-- Documents that their texts tell in full. Their numbers are finite, and none is zero with a sign; their
-- objects list their members as every object does. Such a document is read back as it is.
import JsonModel.Proofs.Json.Print
import JsonModel.Proofs.Json.Read

namespace JsonModel

/-! ## Numbers -/

/-- A number is told by its text: it is finite, and not the zero that has a sign. -/
def Number.Told (n : Number) : Prop := n.isFinite = true ∧ n ≠ .negativeZero

theorem reread?_of_told {n : Number} (h : n.Told) : n.reread? = some n := by
  obtain ⟨hfinite, hsign⟩ := h
  unfold Number.reread?
  rw [if_pos hfinite]
  cases n with
  | infinite | nan => simp [Number.isFinite] at hfinite
  | finite negative size =>
    rw [Option.some.injEq, Json.same_zero_finite]
    split
    · rename_i hzero
      rw [← Number.ofUnits_units, of_decide_eq_true hzero] at hsign ⊢
      cases negative with
      | false => rfl
      | true => exact absurd rfl hsign
    · rfl

namespace Json

variable {number : Number → Prop} {j : Json}

/-! ## Documents -/

/-- The document is told by its text: so are its numbers, and its objects list their members in
order, each once. -/
def Told (j : Json) : Prop := j.Every Number.Told fun names => names.Nodup ∧ keyOrder names = names

theorem Told.keysInOrder (h : j.Told) : j.KeysInOrder := h.imp (fun _ _ => trivial) fun _ => id

/-- A document that is read lists the members of its objects in order, so that only its numbers count. -/
theorem told_of_read {text : String} (h : read text = .ok j)
    (hnumbers : j.Every Number.Told fun _ => True) : j.Told :=
  (hnumbers.and (written_of_read h)).imp (fun _ => And.left) fun _ => And.right

theorem reread_of_told (h : j.Told) : j.reread = j := by
  induction j using Json.induction with
  | scalar j hitems hmembers =>
    cases j with
    | arr items => simp [items?] at hitems
    | obj ms => simp [members?] at hmembers
    | num n =>
      rw [reread, reread?_of_told h]
      rfl
    | _ => simp [reread]
  | arr items ih =>
    rw [reread_arr]
    refine congrArg arr ?_
    conv_rhs => rw [← List.map_id items]
    exact List.map_congr_left fun item hmem => ih item hmem (every_arr.mp h item hmem)
  | obj ms ih =>
    rw [reread_obj, rereadMembers_eq_map]
    refine congrArg obj ?_
    conv_rhs => rw [← List.map_id ms]
    exact List.map_congr_left fun m hmem =>
      congrArg (m.1, ·) (ih m hmem ((every_obj.mp h).2 m hmem))

/-! ## Objects of given names -/

/-- Names none of which is an index stay in the order in which they are set. -/
theorem keyOrder_of_unindexed {names : List String} (h : ∀ name ∈ names, indexName? name = none) :
    keyOrder names = names := by
  have hindexes : (names.filter fun name => (indexName? name).isSome) = [] :=
    List.filter_eq_nil_iff.mpr fun name hname => by simp [h name hname]
  have hothers : (names.filter fun name => (indexName? name).isNone) = names :=
    List.filter_eq_self.mpr fun name hname => by simp [h name hname]
  unfold keyOrder
  rw [hindexes, hothers]
  rfl

/-- Some names, each once, none of which is an index. -/
structure Keywords (names : List String) : Prop where
  nodup : names.Nodup
  unindexed : ∀ name ∈ names, indexName? name = none

/-- An object with some of the names, in their order, lists them as every object does. -/
theorem every_of_keywords {keywords : List String} (hkeywords : Keywords keywords)
    {ms : Members Json} (hnames : (Members.names ms).Sublist keywords)
    (hvalues : ∀ m ∈ ms, m.2.Every number fun names => names.Nodup ∧ keyOrder names = names) :
    (Json.obj ms).Every number fun names => names.Nodup ∧ keyOrder names = names :=
  every_obj.mpr ⟨⟨hkeywords.nodup.sublist hnames, keyOrder_of_unindexed fun name hname =>
    hkeywords.unindexed name (hnames.subset hname)⟩, hvalues⟩

end Json
end JsonModel
