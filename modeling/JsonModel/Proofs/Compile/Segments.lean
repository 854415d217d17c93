-- How a pointer is followed when a segment is put behind it. Pointers into the definitions start from
-- there, but are followed as all others are: segment by segment from the root, until one leads nowhere.
import JsonModel.Proofs.Compile.Pointer

namespace JsonModel

/-! ## Segments -/

/-- A text without a slash that is put behind a pointer is a segment of its own. -/
theorem pointerSegments_extended (ref : String) {segment : String} (h : '/' ∉ segment.toList) :
    pointerSegments (ref ++ "/" ++ segment) = pointerSegments ref ++ [segment] := by
  unfold pointerSegments
  rw [String.toList_append, String.toList_append, show "/".toList = ['/'] from rfl,
    List.append_assoc, List.singleton_append, splitAt_append_cons, splitAt_of_not_mem h]
  simp

theorem pointerSegments_of_no_slash {ref : String} (h : '/' ∉ ref.toList) :
    pointerSegments ref = [ref] := by
  unfold pointerSegments
  rw [splitAt_of_not_mem h]
  simp

theorem pointerSegments_ne_nil (ref : String) : pointerSegments ref ≠ [] := by
  unfold pointerSegments
  simpa using splitAt_ne_nil '/' ref.toList

/-! ## Steps -/

/-- What one segment leads to: the member of that name, or the item whose index the segment writes as
a number. -/
inductive LeadsTo (segment : String) : Json → Json → Prop
  | member {ms : Members Json} {next : Json} :
      ms.get? segment = some next → LeadsTo segment (.obj ms) next
  | item {items : List Json} {i : Nat} {next : Json} :
      (Number.ofText segment).toInt? = some (i : Int) → items[i]? = some next →
      LeadsTo segment (.arr items) next

theorem toIndex?_eq_some_iff {n : Number} {i : Nat} :
    n.toIndex? = some i ↔ n.toInt? = some (i : Int) := by
  unfold Number.toIndex?
  rw [Option.bind_eq_some_iff]
  constructor
  · rintro ⟨z, hz, hi⟩
    rw [hz, Int.mem_toNat?.mp hi]
  · intro h
    exact ⟨i, h, rfl⟩

theorem step?_eq_some_iff {container next : Json} {segment : String} :
    step? container segment = some next ↔ LeadsTo segment container next := by
  constructor
  · intro h
    cases container with
    | arr items =>
      obtain ⟨i, hi, hitem⟩ := Option.bind_eq_some_iff.mp h
      exact .item (toIndex?_eq_some_iff.mp hi) hitem
    | obj ms => exact .member h
    | _ => cases h
  · intro h
    cases h with
    | member hget => exact hget
    | item hi hitem => exact Option.bind_eq_some_iff.mpr ⟨_, toIndex?_eq_some_iff.mpr hi, hitem⟩

/-! ## Walks -/

/-- A walk in two parts. -/
theorem walk_append (segments segments' : List String) (current : Json) :
    walk current (segments ++ segments') =
      (walk current segments).bind fun next => walk next segments' := by
  induction segments generalizing current with
  | nil => rfl
  | cons segment segments ih =>
    rw [List.cons_append, walk, walk]
    cases step? current segment with
    | none => rfl
    | some next => exact ih next

/-- Starting from the definitions makes no difference: every pointer is followed from the root, by all
its segments but the first, and reports the first of these that leads nowhere. -/
theorem resolveRef_eq_walk (ref : String) (root : Members Json) :
    resolveRef ref root =
      (walk (.obj root) ((pointerSegments ref).drop 1)).mapError (.unresolved ref) := by
  unfold resolveRef
  split
  · rename_i name rest hsegments
    have hstep : step? (.obj root) "$defs" = Members.get? "$defs" root := rfl
    rw [hsegments, List.drop_one, List.tail_cons, walk, hstep]
    cases Members.get? "$defs" root with
    | none => rfl
    | some definitions => rfl
  · rfl

theorem resolveRef_extended (ref : String) {segment : String} (h : '/' ∉ segment.toList)
    (root : Members Json) :
    resolveRef (ref ++ "/" ++ segment) root =
      ((walk (.obj root) ((pointerSegments ref).drop 1)).bind fun v => walk v [segment]).mapError
        (.unresolved (ref ++ "/" ++ segment)) := by
  rw [resolveRef_eq_walk, pointerSegments_extended ref h, ← walk_append]
  have hdrop : (pointerSegments ref ++ [segment]).drop 1 =
      (pointerSegments ref).drop 1 ++ [segment] :=
    List.drop_append_of_le_length (List.length_pos_of_ne_nil (pointerSegments_ne_nil ref))
  rw [hdrop]

/-! ## Pointers with one segment more -/

/-- What becomes of a pointer when a segment is put behind it. -/
structure FollowsSegment (root : Members Json) (ref segment : String) : Prop where
  /-- Where the pointer leads to a value, the longer one leads to what its segment leads to from there. -/
  found : ∀ v next, resolveRef ref root = .ok v → LeadsTo segment v next →
    resolveRef (ref ++ "/" ++ segment) root = .ok next
  /-- Where the segment leads nowhere, it is reported. -/
  missed : ∀ v, resolveRef ref root = .ok v → (∀ next, ¬ LeadsTo segment v next) →
    resolveRef (ref ++ "/" ++ segment) root =
      .error (.unresolved (ref ++ "/" ++ segment) segment)
  /-- Where the pointer misses a segment, the longer one misses the same. -/
  failed : ∀ e, resolveRef ref root = .error e → ∃ missing, e = .unresolved ref missing ∧
    resolveRef (ref ++ "/" ++ segment) root =
      .error (.unresolved (ref ++ "/" ++ segment) missing)

theorem followsSegment (root : Members Json) (ref : String) {segment : String}
    (h : '/' ∉ segment.toList) : FollowsSegment root ref segment := by
  have hstep : ∀ v, walk v [segment] = (step? v segment).elim (.error segment) .ok := by
    intro v
    rw [walk]
    cases step? v segment <;> rfl
  constructor
  · intro v next hv hleads
    rw [resolveRef_eq_walk, mapError_ok_iff] at hv
    rw [resolveRef_extended ref h, hv, Except.bind, hstep, step?_eq_some_iff.mpr hleads]
    rfl
  · intro v hv hno
    have hnone : step? v segment = none := by
      rw [Option.eq_none_iff_forall_ne_some]
      exact fun next hnext => hno next (step?_eq_some_iff.mp hnext)
    rw [resolveRef_eq_walk, mapError_ok_iff] at hv
    rw [resolveRef_extended ref h, hv, Except.bind, hstep, hnone]
    rfl
  · intro e he
    rw [resolveRef_eq_walk] at he
    cases hwalk : walk (.obj root) ((pointerSegments ref).drop 1) with
    | ok v =>
      rw [hwalk] at he
      cases he
    | error missing =>
      rw [hwalk] at he
      cases he
      rw [resolveRef_extended ref h, hwalk]
      exact ⟨missing, rfl, rfl⟩

/-- A pointer is followed segment by segment: one segment more is one step more, and the first segment
that leads nowhere is the one reported. A pointer without a slash names the root, and pointers into the
definitions are followed like all others. -/
theorem a_pointer_is_followed_segment_by_segment (root : Members Json) (ref : String) :
    (∀ segment, '/' ∉ segment.toList → FollowsSegment root ref segment) ∧
      ('/' ∉ ref.toList → resolveRef ref root = .ok (.obj root)) ∧
      resolveRef ref root =
        (walk (.obj root) ((pointerSegments ref).drop 1)).mapError (.unresolved ref) := by
  refine ⟨fun segment => followsSegment root ref, fun hslash => ?_, resolveRef_eq_walk ref root⟩
  rw [resolveRef_eq_walk, pointerSegments_of_no_slash hslash]
  rfl

/-- Definitions in a list, of which the second has a name in it. -/
def listedRoot : Members Json :=
  [("$defs", .arr [.null, .obj [("", .str "Ida")]])]

theorem the_second_of_listed_definitions_is_named :
    resolveRef "#" listedRoot = .ok (.obj listedRoot) ∧
      resolveRef "#/$defs/1" listedRoot = .ok (.obj [("", .str "Ida")]) ∧
      resolveRef "#/$defs/2" listedRoot = .error (.unresolved "#/$defs/2" "2") ∧
      resolveRef "#/$defs/2/" listedRoot = .error (.unresolved "#/$defs/2/" "2") := by
  have hdefs : resolveRef "#/$defs" listedRoot =
      .ok (.arr [.null, .obj [("", .str "Ida")]]) := rfl
  have hone : (Number.ofText "1").toInt? = some ((1 : Nat) : Int) := by decide +kernel
  have htwo : (Number.ofText "2").toInt? = some ((2 : Nat) : Int) := by decide +kernel
  have hbehind : ∀ next, ¬ LeadsTo "2" (.arr [.null, .obj [("", .str "Ida")]]) next := by
    rintro next ⟨⟩
    rename_i i hi hitem
    obtain rfl : 2 = i := Int.ofNat_inj.mp (Option.some.inj (htwo.symm.trans hi))
    cases hitem
  have hsegments := a_pointer_is_followed_segment_by_segment listedRoot
  have hmissed : resolveRef "#/$defs/2" listedRoot = .error (.unresolved "#/$defs/2" "2") :=
    ((hsegments "#/$defs").1 "2" (by decide)).missed _ hdefs hbehind
  refine ⟨(hsegments "#").2.1 (by decide), ?_, hmissed, ?_⟩
  · exact ((hsegments "#/$defs").1 "1" (by decide)).found _ _ hdefs (.item hone rfl)
  · obtain ⟨missing, he, hlonger⟩ := ((hsegments "#/$defs/2").1 "" (by decide)).failed _ hmissed
    cases he
    exact hlonger

end JsonModel
