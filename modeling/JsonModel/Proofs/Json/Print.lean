-- A document that is printed is read back. The blanks between its parts do not count, numbers come
-- back as their texts tell them, and the members of an object are set one after the other.
import JsonModel.Proofs.Json.Numeral
import JsonModel.Proofs.Json.Quoted
import JsonModel.Proofs.KeyOrder

namespace JsonModel.Json

/-! ## What is read back -/

mutual

/-- What a document is read back as. -/
def restored : Json → Json
  | .num n => (n.reread?.map .num).getD .null
  | .arr items => .arr (restoredItems items)
  | .obj ms => .obj (Members.ofList (restoredMembers ms))
  | j => j

/-- Item by item. -/
def restoredItems : List Json → List Json
  | [] => []
  | item :: items => item.restored :: restoredItems items

/-- Member by member. -/
def restoredMembers : List (String × Json) → List (String × Json)
  | [] => []
  | (name, value) :: ms => (name, value.restored) :: restoredMembers ms

end

@[simp] theorem restored_null : Json.null.restored = .null := by simp [restored]

@[simp] theorem restored_bool (b : Bool) : (Json.bool b).restored = .bool b := by simp [restored]

@[simp] theorem restored_str (s : String) : (Json.str s).restored = .str s := by simp [restored]

@[simp] theorem restored_arr (items : List Json) :
    (Json.arr items).restored = .arr (items.map restored) := by
  have hitems : ∀ items, restoredItems items = items.map restored := by
    intro items
    induction items with
    | nil => rw [restoredItems, List.map_nil]
    | cons item items ih => rw [restoredItems, ih, List.map_cons]
  rw [restored, hitems]

@[simp] theorem restored_obj (ms : List (String × Json)) :
    (Json.obj ms).restored = .obj (Members.ofList (ms.map fun m => (m.1, m.2.restored))) := by
  have hmembers : ∀ ms, restoredMembers ms = ms.map fun m => (m.1, m.2.restored) := by
    intro ms
    induction ms with
    | nil => rw [restoredMembers, List.map_nil]
    | cons m ms ih => rw [restoredMembers, ih, List.map_cons]
  rw [restored, hmembers]

/-- The members of an object of distinct names are found as they were. -/
theorem get?_restored {ms : List (String × Json)} (h : (ms.map Prod.fst).Nodup) (name : String) :
    (Json.obj ms).restored.get? name = (Members.get? name ms).map restored := by
  have hnames : ((ms.map fun m => (m.1, m.2.restored)).map Prod.fst).Nodup := by
    rw [List.map_map]
    exact h
  rw [restored_obj, ← Members.get?_map restored name ms]
  exact Members.get?_ofList hnames name

/-! ## Blanks -/

/-- A text of blanks. -/
def AllBlank (cs : List Char) : Prop := ∀ c ∈ cs, isJsonBlank c = true

/-- Nothing but blanks stands between the parts of a document. -/
structure Layout.Blank (layout : Layout) : Prop where
  gap : ∀ depth, AllBlank (layout.gap depth)
  afterColon : AllBlank layout.afterColon

theorem allBlank_nil : AllBlank [] := fun _ hc => absurd hc List.not_mem_nil

theorem blank_compact : Layout.compact.Blank where
  gap _ := allBlank_nil
  afterColon := allBlank_nil

theorem blank_indented : Layout.indented.Blank where
  gap depth c hc := by
    rcases List.mem_cons.mp hc with rfl | hc
    · rfl
    · rw [(List.mem_replicate.mp hc).2]
      rfl
  afterColon := List.forall_mem_singleton.mpr rfl

/-- The first character of a part: no blank, and no closing bracket. -/
def OpensPart (c : Char) : Prop := isJsonBlank c = false ∧ c ≠ ']' ∧ c ≠ '}'

variable {cs gap rest : List Char}

theorem skipBlank_append (hgap : AllBlank gap) (cs : List Char) :
    skipBlank (gap ++ cs) = skipBlank cs := by
  unfold skipBlank
  rw [List.dropWhile_append_of_pos hgap]

theorem skipBlank_cons {c : Char} (h : isJsonBlank c = false) (cs : List Char) :
    skipBlank (c :: cs) = c :: cs := by
  unfold skipBlank
  rw [List.dropWhile_cons, if_neg (by simp [h])]

theorem skipBlank_of_starts (h : Starts OpensPart cs) : skipBlank cs = cs := by
  obtain ⟨c, tail, rfl, hc, -⟩ := h
  exact skipBlank_cons hc tail

theorem endsNumber_blank {c : Char} (h : isJsonBlank c = true) (cs : List Char) :
    EndsNumber (c :: cs) := by
  intro d hd
  cases hd
  unfold isJsonBlank at h
  simp only [Bool.or_eq_true, beq_iff_eq] at h
  rcases h with ((rfl | rfl) | rfl) | rfl <;> decide

/-- Blanks in front do not go on with a number. -/
theorem EndsNumber.append (hgap : AllBlank gap) (hrest : EndsNumber rest) :
    EndsNumber (gap ++ rest) := by
  cases gap with
  | nil => exact hrest
  | cons c gap => exact endsNumber_blank (hgap c List.mem_cons_self) _

theorem endsNumber_nil : EndsNumber [] := by
  intro c hc
  cases hc

theorem endsNumber_cons {c : Char} (h : c = ',' ∨ c = ']' ∨ c = '}') (cs : List Char) :
    EndsNumber (c :: cs) := by
  intro d hd
  cases hd
  rcases h with rfl | rfl | rfl <;> decide

/-! ## Values without parts -/

theorem readWord_append (value : Json) (word rest : List Char) :
    readWord value word (word ++ rest) = .ok (value, rest) := by
  induction word with
  | nil => cases rest <;> rfl
  | cons c word ih =>
    rw [List.cons_append, readWord, if_pos rfl]
    exact ih

/-- The first character of a number. -/
def OpensNumber (c : Char) : Prop := c = '-' ∨ IsDigit c

theorem starts_number {n : Number} (h : n.isFinite = true) :
    Starts OpensNumber (numberLayout.number n) := by
  cases n with
  | finite negative size =>
    unfold NumberLayout.number
    simp only
    split
    · exact ⟨'-', _, rfl, .inl rfl⟩
    · exact (starts_size size).mono fun _ => .inr
  | infinite negative => simp [Number.isFinite] at h
  | nan => simp [Number.isFinite] at h

/-- No word, text, list, object or blank starts like a number. -/
theorem OpensNumber.not_mem {c : Char} (h : OpensNumber c) :
    c ∉ ['n', 't', 'f', '"', '[', '{', ']', '}', ' ', '\t', '\n', '\r'] := by
  have hdigits : ∀ d < 10, Nat.digitChar d ∉
      ['n', 't', 'f', '"', '[', '{', ']', '}', ' ', '\t', '\n', '\r'] := by
    decide
  rcases h with rfl | hc
  · decide
  · obtain ⟨d, hd⟩ := Option.isSome_iff_exists.mp hc
    obtain ⟨hlt, rfl⟩ := digitChar_of_decimal hd
    exact hdigits d hlt

theorem OpensNumber.opensPart {c : Char} (h : OpensNumber c) : OpensPart c := by
  have hc := h.not_mem
  simp only [List.mem_cons, List.not_mem_nil, or_false, not_or] at hc
  unfold OpensPart isJsonBlank
  simp [hc]

theorem readValue_number (h : Starts OpensNumber cs) (fuel : Nat) :
    readValue (fuel + 1) cs = (readNumber cs).map fun read => (.num read.1, read.2) := by
  obtain ⟨c, tail, rfl, hc⟩ := h
  have hc := hc.not_mem
  simp only [List.mem_cons, List.not_mem_nil, or_false, not_or] at hc
  rw [readValue]
  · cases readNumber (c :: tail) <;> rfl
  all_goals simp [hc]

/-- Each document starts with a character of its own. -/
theorem starts_write (layout : Layout) (depth : Nat) (j : Json) :
    Starts OpensPart (j.write layout depth) := by
  cases j with
  | null => exact ⟨'n', _, rfl, rfl, by decide, by decide⟩
  | bool b =>
    cases b with
    | true => exact ⟨'t', _, rfl, rfl, by decide, by decide⟩
    | false => exact ⟨'f', _, rfl, rfl, by decide, by decide⟩
  | num n =>
    unfold write writeNumber
    split
    · rename_i hn
      exact (starts_number hn).mono fun _ => OpensNumber.opensPart
    · exact ⟨'n', _, rfl, rfl, by decide, by decide⟩
  | str s => exact ⟨'"', _, rfl, rfl, by decide, by decide⟩
  | arr items => cases items <;> exact ⟨'[', _, rfl, rfl, by decide, by decide⟩
  | obj ms => cases ms <;> exact ⟨'{', _, rfl, rfl, by decide, by decide⟩

/-- The document is read back from its text, however deep it stands and whatever follows. The length
of the text is enough fuel. -/
def Restores (layout : Layout) (j : Json) : Prop :=
  ∀ fuel depth rest, (j.write layout depth).length ≤ fuel → EndsNumber rest →
    readValue fuel (j.write layout depth ++ rest) = .ok (j.restored, rest)

theorem restores_word {layout : Layout} {j : Json} (c : Char) (word : List Char)
    (hwrite : ∀ depth, j.write layout depth = c :: word) (hj : j.restored = j)
    (hread : ∀ fuel rest, readValue (fuel + 1) (c :: rest) = readWord j word rest) :
    Restores layout j := by
  intro fuel depth rest hfuel _
  rw [hwrite] at hfuel ⊢
  cases fuel with
  | zero => simp at hfuel
  | succ fuel => rw [List.cons_append, hread, readWord_append, hj]

theorem restores_null (layout : Layout) : Restores layout .null := by
  refine restores_word 'n' "ull".toList (fun _ => ?_) restored_null fun _ _ => ?_
  · rw [write]
    rfl
  · rw [readValue]

theorem restores_bool (layout : Layout) (b : Bool) : Restores layout (.bool b) := by
  cases b with
  | true =>
    refine restores_word 't' "rue".toList (fun _ => ?_) (restored_bool true) fun _ _ => ?_
    · rw [write]
      rfl
    · rw [readValue]
  | false =>
    refine restores_word 'f' "alse".toList (fun _ => ?_) (restored_bool false) fun _ _ => ?_
    · rw [write]
      rfl
    · rw [readValue]

theorem restores_num (layout : Layout) (n : Number) : Restores layout (.num n) := by
  intro fuel depth rest hfuel hrest
  cases hn : n.isFinite with
  | false =>
    -- What is not finite is written like null.
    have hnone : n.reread? = none := by
      unfold Number.reread?
      rw [hn]
      rfl
    have hword := restores_null layout fuel depth rest
    rw [write, writeNumber, hn, if_neg Bool.false_ne_true] at hfuel ⊢
    rw [write, restored_null] at hword
    rw [restored, hnone]
    exact hword hfuel hrest
  | true =>
    have hstarts := starts_number hn
    obtain ⟨m, hm⟩ : ∃ m, n.reread? = some m := by
      unfold Number.reread?
      rw [if_pos hn]
      exact ⟨_, rfl⟩
    rw [write, writeNumber, if_pos hn] at hfuel ⊢
    cases fuel with
    | zero =>
      obtain ⟨c, tail, hnumber, -⟩ := hstarts
      simp [hnumber] at hfuel
    | succ fuel =>
      rw [readValue_number (hstarts.append rest), readNumber_number hm hrest, restored, hm]
      rfl

theorem restores_str (layout : Layout) (s : String) : Restores layout (.str s) := by
  intro fuel depth rest hfuel _
  obtain ⟨cs, hcs, hread⟩ := readString_encode s rest
  rw [write] at hfuel ⊢
  cases fuel with
  | zero => simp [Quoted.encode] at hfuel
  | succ fuel =>
    rw [hcs, readValue, hread, restored_str]
    rfl

/-! ## Lists -/

variable {layout : Layout}

theorem endsNumber_writeItems (layout : Layout) (depth : Nat) (items : List Json)
    (hrest : EndsNumber rest) : EndsNumber (writeItems layout depth items ++ rest) := by
  cases items with
  | nil =>
    rw [writeItems, List.nil_append]
    exact hrest
  | cons item items =>
    rw [writeItems]
    exact endsNumber_cons (.inl rfl) _

/-- The items of a list are read one after the other. -/
theorem readItems_write (hlayout : layout.Blank) {depth : Nat} {items : List Json}
    (hitems : ∀ item ∈ items, Restores layout item) {first : Json}
    (hfirst : Restores layout first) (hgap : AllBlank gap) {fuel : Nat}
    (hfuel : (first.write layout depth).length + (writeItems layout depth items).length < fuel) :
    readItems fuel (first.write layout depth ++
        (writeItems layout depth items ++ (gap ++ ']' :: rest))) =
      .ok (first.restored :: items.map restored, rest) := by
  have hclose : EndsNumber (gap ++ ']' :: rest) := (endsNumber_cons (.inr (.inl rfl)) _).append hgap
  induction items generalizing first fuel with
  | nil =>
    cases fuel with
    | zero => exact absurd hfuel (Nat.not_lt_zero _)
    | succ fuel =>
      rw [readItems, hfirst fuel depth _ (by omega) (endsNumber_writeItems layout depth [] hclose)]
      simp only [bind, Except.bind, writeItems, List.nil_append]
      rw [skipBlank_append hgap, skipBlank_cons rfl]
      rfl
  | cons next items ih =>
    obtain ⟨hnext, hitems⟩ := List.forall_mem_cons.mp hitems
    cases fuel with
    | zero => exact absurd hfuel (Nat.not_lt_zero _)
    | succ fuel =>
      rw [readItems, hfirst fuel depth _ (by omega)
        (endsNumber_writeItems layout depth (next :: items) hclose)]
      rw [writeItems] at hfuel ⊢
      simp only [List.length_append, List.length_cons] at hfuel
      simp only [bind, Except.bind, List.cons_append, List.append_assoc]
      rw [skipBlank_cons rfl]
      simp only
      rw [skipBlank_append (hlayout.gap depth),
        skipBlank_of_starts ((starts_write layout depth next).append _), ih hitems hnext (by omega)]
      rfl

theorem readValue_list (h : Starts OpensPart cs) (hgap : AllBlank gap) (fuel : Nat) :
    readValue (fuel + 1) ('[' :: (gap ++ cs)) =
      (readItems fuel cs).map fun read => (.arr read.1, read.2) := by
  rw [readValue, skipBlank_append hgap, skipBlank_of_starts h]
  obtain ⟨c, tail, rfl, -, hc, -⟩ := h
  split
  · rename_i heq
    cases heq
    exact absurd rfl hc
  · cases readItems fuel (c :: tail) <;> rfl

theorem restores_arr (hlayout : layout.Blank) {items : List Json}
    (hitems : ∀ item ∈ items, Restores layout item) : Restores layout (.arr items) := by
  intro fuel depth rest hfuel _
  rw [restored_arr]
  cases items with
  | nil =>
    rw [write] at hfuel ⊢
    cases fuel with
    | zero => simp at hfuel
    | succ fuel => rfl
  | cons first items =>
    obtain ⟨hfirst, hitems⟩ := List.forall_mem_cons.mp hitems
    rw [write] at hfuel ⊢
    simp only [List.length_append, List.length_cons, List.length_nil] at hfuel
    simp only [List.cons_append, List.append_assoc, List.nil_append]
    cases fuel with
    | zero => omega
    | succ fuel =>
      rw [readValue_list ((starts_write layout (depth + 1) first).append _)
          (hlayout.gap (depth + 1)),
        readItems_write hlayout hitems hfirst (hlayout.gap depth) (by omega)]
      rfl

/-! ## Objects -/

theorem endsNumber_writeMembers (layout : Layout) (depth : Nat) (ms : List (String × Json))
    (hrest : EndsNumber rest) : EndsNumber (writeMembers layout depth ms ++ rest) := by
  cases ms with
  | nil =>
    rw [writeMembers, List.nil_append]
    exact hrest
  | cons m ms =>
    rw [writeMembers]
    exact endsNumber_cons (.inl rfl) _

theorem starts_encode (name : String) (cs : List Char) :
    Starts OpensPart (Quoted.encode name ++ cs) :=
  ⟨'"', _, rfl, rfl, by decide, by decide⟩

/-- The members of an object are read one after the other. -/
theorem readMembers_write (hlayout : layout.Blank) {depth : Nat} (missing : ReadFault)
    (name : String) {value : Json} (hvalue : Restores layout value)
    {ms : List (String × Json)} (hms : ∀ m ∈ ms, Restores layout m.2)
    (hgap : AllBlank gap) {fuel : Nat}
    (hfuel : (value.write layout depth).length + (writeMembers layout depth ms).length < fuel) :
    readMembers missing fuel (Quoted.encode name ++ ':' :: (layout.afterColon ++
        (value.write layout depth ++ (writeMembers layout depth ms ++ (gap ++ '}' :: rest))))) =
      .ok ((name, value.restored) :: ms.map fun m => (m.1, m.2.restored), rest) := by
  have hclose : EndsNumber (gap ++ '}' :: rest) := (endsNumber_cons (.inr (.inr rfl)) _).append hgap
  obtain ⟨fuel, rfl⟩ : ∃ k, fuel = k + 1 := ⟨fuel - 1, by omega⟩
  -- Whatever follows, the name, the colon and the value come first.
  obtain ⟨cs, hcs, hname⟩ := readString_encode name (':' :: (layout.afterColon ++
    (value.write layout depth ++ (writeMembers layout depth ms ++ (gap ++ '}' :: rest)))))
  rw [hcs, readMembers, hname]
  simp only [bind, Except.bind]
  rw [skipBlank_cons rfl]
  simp only
  rw [skipBlank_append hlayout.afterColon,
    skipBlank_of_starts ((starts_write layout depth value).append _),
    hvalue fuel depth _ (by omega) (endsNumber_writeMembers layout depth ms hclose)]
  simp only
  cases ms with
  | nil =>
    rw [writeMembers, List.nil_append, skipBlank_append hgap, skipBlank_cons rfl]
    rfl
  | cons next ms =>
    obtain ⟨hnext, hms⟩ := List.forall_mem_cons.mp hms
    rw [writeMembers] at hfuel ⊢
    simp only [List.length_append, List.length_cons] at hfuel
    simp only [List.cons_append, List.append_assoc]
    rw [skipBlank_cons rfl]
    simp only
    rw [skipBlank_append (hlayout.gap depth), skipBlank_of_starts (starts_encode _ _),
      readMembers_write hlayout .expectedName next.1 hnext hms hgap (by omega)]
    rfl
termination_by ms

theorem readValue_object (h : Starts OpensPart cs) (hgap : AllBlank gap)
    (fuel : Nat) :
    readValue (fuel + 1) ('{' :: (gap ++ cs)) =
      (readMembers .expectedNameOrBrace fuel cs).map fun read =>
        (.obj (Members.ofList read.1), read.2) := by
  rw [readValue, skipBlank_append hgap, skipBlank_of_starts h]
  obtain ⟨c, tail, rfl, -, -, hc⟩ := h
  split
  · rename_i heq
    cases heq
    exact absurd rfl hc
  · cases readMembers .expectedNameOrBrace fuel (c :: tail) <;> rfl

theorem restores_obj (hlayout : layout.Blank) {ms : List (String × Json)}
    (hms : ∀ m ∈ ms, Restores layout m.2) : Restores layout (.obj ms) := by
  intro fuel depth rest hfuel _
  rw [restored_obj]
  cases ms with
  | nil =>
    rw [write] at hfuel ⊢
    cases fuel with
    | zero => simp at hfuel
    | succ fuel => rfl
  | cons first ms =>
    obtain ⟨hfirst, hms⟩ := List.forall_mem_cons.mp hms
    rw [write] at hfuel ⊢
    simp only [List.length_append, List.length_cons, List.length_nil] at hfuel
    simp only [List.cons_append, List.append_assoc, List.nil_append]
    cases fuel with
    | zero => omega
    | succ fuel =>
      rw [readValue_object (starts_encode _ _) (hlayout.gap (depth + 1)),
        readMembers_write hlayout .expectedNameOrBrace first.1 hfirst hms (hlayout.gap depth)
          (by omega)]
      rfl

/-! ## Documents -/

/-- Every document is read back from its text. -/
theorem restores_all (hlayout : layout.Blank) (j : Json) : Restores layout j := by
  induction j using Json.induction with
  | scalar j hitems hmembers =>
    cases j with
    | null => exact restores_null layout
    | bool b => exact restores_bool layout b
    | num n => exact restores_num layout n
    | str s => exact restores_str layout s
    | arr items => simp [items?] at hitems
    | obj ms => simp [members?] at hmembers
  | arr items ih => exact restores_arr hlayout ih
  | obj ms ih => exact restores_obj hlayout ih

/-- A text of a document is read as that document, blanks at its end or not. -/
theorem read_write (hlayout : layout.Blank) (j : Json) (blanks : List Char)
    (hblanks : AllBlank blanks) :
    read (String.ofList (j.write layout 0 ++ blanks)) = .ok j.restored := by
  have hends : EndsNumber (blanks ++ []) := endsNumber_nil.append hblanks
  have hskip : skipBlank (blanks ++ []) = [] := skipBlank_append hblanks []
  rw [List.append_nil] at hends hskip
  unfold read
  simp only [String.toList_ofList, bind, Except.bind]
  rw [skipBlank_of_starts ((starts_write layout 0 j).append blanks),
    restores_all hlayout j _ 0 blanks (by rw [List.length_append]; omega) hends]
  simp only [hskip]

theorem read_pretty (j : Json) : read j.pretty = .ok j.restored := by
  have hread := read_write blank_indented j [] allBlank_nil
  rw [List.append_nil] at hread
  exact hread

theorem read_compact (j : Json) : read j.compact = .ok j.restored := by
  have hread := read_write blank_compact j [] allBlank_nil
  rw [List.append_nil] at hread
  exact hread

/-- A document on lines of its own is read back with the break after its last line. -/
theorem read_pretty_line (j : Json) : read (j.pretty ++ "\n") = .ok j.restored := by
  have hread := read_write blank_indented j ['\n'] (List.forall_mem_singleton.mpr rfl)
  rw [String.ofList_append] at hread
  exact hread

/-! ## Documents in order -/

/-- The members of every object have distinct names, and stand as an object lists them. -/
def KeysInOrder (j : Json) : Prop :=
  j.Every (fun _ => True) fun names => names.Nodup ∧ keyOrder names = names

/-- Documents in order lose nothing but what the texts of numbers cannot tell. -/
theorem restored_eq_reread {j : Json} (h : j.KeysInOrder) : j.restored = j.reread := by
  induction j using Json.induction with
  | scalar j hitems hmembers =>
    cases j with
    | arr items => simp [items?] at hitems
    | obj ms => simp [members?] at hmembers
    | num n => rw [restored, reread]
    | _ => simp [reread]
  | arr items ih =>
    rw [restored_arr, reread_arr]
    refine congrArg arr (List.map_congr_left fun item hitem => ?_)
    exact ih item hitem (every_arr.mp h item hitem)
  | obj ms ih =>
    obtain ⟨⟨hdistinct, horder⟩, hmembers⟩ := every_obj.mp h
    have hvalues : (ms.map fun m => (m.1, m.2.restored)) = rereadMembers ms := by
      rw [rereadMembers_eq_map]
      exact List.map_congr_left fun m hm => congrArg (m.1, ·) (ih m hm (hmembers m hm))
    rw [restored_obj, reread_obj, hvalues, Members.ofList_eq_self]
    · rw [names_rereadMembers]
      exact hdistinct
    · rw [names_rereadMembers]
      exact horder

end JsonModel.Json
