-- Links whose schemes are listed beside them. A list of schemes becomes a type of its own or a limit on
-- links, whichever list it is, and null may be taken too. What is taken can be told from the list alone.
import JsonModel.Proofs.Check.Choice
import JsonModel.Proofs.Check.Clean

namespace JsonModel

/-! ## Links and their schemes -/

/-- A text is read as a link of some scheme, which is in lower case. -/
def IsLink (s scheme : String) : Prop := Link.schemeOf? (trimBlank s.toList) = some scheme

/-- The schemes that are listed beside a link admit a scheme. Where none is listed, any is admitted,
and the scheme of plain web pages, listed alone, stands for that of secure ones too. -/
def AdmitsScheme (listed : List String) (scheme : String) : Prop :=
  listed = [] ∨
    listed = ["http"] ∧ (scheme = "http" ∨ scheme = "https") ∨
    listed = ["file"] ∧ scheme = "file" ∨
    listed ∉ [[], ["http"], ["file"]] ∧ scheme ∈ listed

/-- A node describes a link: its type counts, and is a text with the format of links. -/
structure DescribesLink (node : Members Json) : Prop where
  reads_type : readsType node = true
  type_eq : node.get? "type" = some (.str "string")
  format_eq : node.get? "format" = some (.str "uri")

/-! ## What becomes of a list of schemes -/

/-- The schemes that a check allows are those that a list admits. -/
def Enforces (schemes : Option (List String)) (listed : List String) : Prop :=
  ∀ scheme, (∀ allowed, schemes = some allowed → scheme ∈ allowed) ↔ AdmitsScheme listed scheme

theorem enforces_any : Enforces none [] := by
  intro scheme
  simp [AdmitsScheme]

theorem enforces_http : Enforces (some ["http", "https"]) ["http"] := by
  intro scheme
  simp [AdmitsScheme]

theorem enforces_file : Enforces (some ["file"]) ["file"] := by
  intro scheme
  simp [AdmitsScheme]

theorem enforces_listed {listed : List String} (h : listed ∉ [[], ["http"], ["file"]]) :
    Enforces (some listed) listed := by
  intro scheme
  simp only [List.mem_cons, List.not_mem_nil, or_false, not_or] at h
  simp [AdmitsScheme, h]

/-- Whatever a list of schemes is made into, a link is checked for the schemes that the list admits. -/
theorem check_narrow_uri (node : Members Json) :
    ∃ schemes, Enforces schemes (textsOf (node.get? "scheme")) ∧ ∀ places v, ∃ refusal,
      (StringFormat.uri.narrow node).1.check places (StringFormat.uri.narrow node).2 v =
        .ok (haveLink v schemes refusal) := by
  unfold StringFormat.narrow
  simp only
  split
  · rename_i hlisted
    rw [hlisted]
    exact ⟨none, enforces_any, fun _ _ => ⟨_, rfl⟩⟩
  · rename_i hlisted
    rw [hlisted]
    exact ⟨some ["http", "https"], enforces_http, fun _ _ => ⟨_, rfl⟩⟩
  · rename_i hlisted
    rw [hlisted]
    exact ⟨some ["file"], enforces_file, fun _ _ => ⟨_, rfl⟩⟩
  · rename_i hnone hhttp hfile
    have hlisted : textsOf (node.get? "scheme") ∉ [[], ["http"], ["file"]] := by
      simpa using ⟨hnone, hhttp, hfile⟩
    exact ⟨_, enforces_listed hlisted, fun _ _ => ⟨_, rfl⟩⟩

/-! ## The field of a link -/

section

variable {places : Places} {root node : Members Json} {hint : Option String} {name : String}
  {requiredNames : List String} {base : TypeDescriptor} {v out : Value}

/-- Required or not, a field gives for a value other than null what its type gives. -/
theorem gives_fieldOf (hv : v.ifNull = none) :
    (fieldOf requiredNames name node base).Gives places v out ↔
      (refine base node).1.Gives places (refine base node).2 v out := by
  have hadded : added requiredNames name v = none := by
    unfold added
    rw [hv, ite_self]
  rw [gives_fieldOf_iff, hadded, ← output?_eq_some]
  simp only [Option.or_none, exists_eq_right]

theorem exists_gives_iff {t : TypeDescriptor} {limits : Limits} :
    (∃ out, t.Gives places limits v out) ↔
      ∃ o, t.check places limits v = .ok o ∧ o.issues = [] := by
  rw [← accepting_iff, accepting_iff_output?]
  simp only [output?_eq_some]

theorem DescribesLink.settled (h : DescribesLink node) :
    Settled root hint node (.primitive .string) :=
  settled_scalar h.reads_type h.type_eq rfl

theorem DescribesLink.refine_eq (h : DescribesLink node) :
    refine (.primitive .string) node = StringFormat.uri.narrow node := by
  have hformat : format? node = some .uri := by
    unfold format?
    rw [h.format_eq]
    rfl
  unfold refine
  rw [hformat]
  rfl

/-- The property of a link always compiles, and its field takes a text exactly if that is a link of a
scheme that the listed ones admit, be the property required or not. -/
theorem a_link_is_taken_if_its_scheme_is_admitted (hnode : DescribesLink node) :
    ∃ f, compileField name node requiredNames root = .ok f ∧
      ∀ places s, (∃ out, f.Gives places (.str s) out) ↔
        ∃ scheme, IsLink s scheme ∧ AdmitsScheme (textsOf (node.get? "scheme")) scheme := by
  refine ⟨_, compileField_ok_iff.mpr ⟨_, hnode.settled, rfl⟩, fun places s => ?_⟩
  obtain ⟨schemes, henforces, hcheck⟩ := check_narrow_uri node
  obtain ⟨refusal, hcheck⟩ := hcheck places (.str s)
  simp only [gives_fieldOf (show (Value.str s).ifNull = none from rfl), hnode.refine_eq]
  rw [exists_gives_iff, hcheck]
  simp only [Except.ok.injEq, exists_eq_left', haveLink_clean_iff, Value.str.injEq]
  simp only [exists_and_left, exists_eq_left', henforces _]
  rfl

end

/-- A page, if there is one. What is no text in the list of schemes does not count. -/
def pageNode : Members Json :=
  [("type", .str "string"), ("scheme", .arr [.null, .str "http"]), ("format", .str "uri")]

theorem a_page_may_be_a_secure_one_but_no_file_of_a_server :
    ∃ f, compileField "page" pageNode [] [] = .ok f ∧
      (∃ out, f.Gives ⟨fun _ => false, fun _ => false⟩ (.str " HTTPS://ida/") out) ∧
      ¬ ∃ out, f.Gives ⟨fun _ => false, fun _ => false⟩ (.str "ftp://ida/") out := by
  have hnode : DescribesLink pageNode := ⟨rfl, rfl, rfl⟩
  have hlisted : textsOf (pageNode.get? "scheme") = ["http"] := rfl
  have hfield : ∃ f, compileField "page" pageNode [] [] = .ok f ∧
      ∀ places s, (∃ out, f.Gives places (.str s) out) ↔
        ∃ scheme, IsLink s scheme ∧ AdmitsScheme (textsOf (pageNode.get? "scheme")) scheme :=
    a_link_is_taken_if_its_scheme_is_admitted hnode
  obtain ⟨f, hf, htakes⟩ := hfield
  have hsecure : Link.schemeOf? (trimBlank " HTTPS://ida/".toList) = some "https" := by
    decide +kernel
  have hftp : Link.schemeOf? (trimBlank "ftp://ida/".toList) = some "ftp" := by decide +kernel
  refine ⟨f, hf, (htakes _ _).mpr ⟨"https", hsecure, ?_⟩, fun htaken => ?_⟩
  · simp [hlisted, AdmitsScheme]
  · obtain ⟨scheme, hscheme, hadmits⟩ := (htakes _ _).mp htaken
    obtain rfl := Option.some.inj (hftp.symm.trans hscheme)
    simp [hlisted, AdmitsScheme] at hadmits

end JsonModel
