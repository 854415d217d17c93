-- Links whose list of schemes is widened. A wider list takes every link that the narrower one takes,
-- with one exception: plain web pages, listed alone, stand for secure ones too, and in a wider list they
-- stand for themselves.
import JsonModel.Proofs.Check.Links

namespace JsonModel

/-! ## Wider lists -/

/-- Secure web pages are admitted by the one list, which does not name them, and not by the other. -/
def LosesSecurePages (listed wider : List String) : Prop :=
  listed = ["http"] ∧ wider ≠ ["http"] ∧ "https" ∉ wider

/-- What a list admits is named in it, apart from secure web pages where plain ones stand alone. -/
theorem AdmitsScheme.mem_or {listed : List String} {scheme : String} (hne : listed ≠ [])
    (h : AdmitsScheme listed scheme) : scheme ∈ listed ∨ listed = ["http"] ∧ scheme = "https" := by
  obtain rfl | ⟨rfl, rfl | rfl⟩ | ⟨rfl, rfl⟩ | ⟨-, hmem⟩ := h
  · exact absurd rfl hne
  · exact .inl List.mem_cons_self
  · exact .inr ⟨rfl, rfl⟩
  · exact .inl List.mem_cons_self
  · exact .inl hmem

/-- What is named in a list is admitted by it. -/
theorem admitsScheme_of_mem {listed : List String} {scheme : String} (h : scheme ∈ listed) :
    AdmitsScheme listed scheme := by
  by_cases hspecial : listed ∈ [[], ["http"], ["file"]]
  · simp only [List.mem_cons, List.not_mem_nil, or_false] at hspecial
    obtain rfl | rfl | rfl := hspecial
    · cases h
    · exact .inr (.inl ⟨rfl, .inl (List.mem_singleton.mp h)⟩)
    · exact .inr (.inr (.inl ⟨rfl, List.mem_singleton.mp h⟩))
  · exact .inr (.inr (.inr ⟨hspecial, h⟩))

/-- A wider list admits all that a list does, unless it loses secure web pages. -/
theorem AdmitsScheme.wider_iff {listed wider : List String} {scheme : String} (hne : listed ≠ [])
    (hwider : listed ⊆ wider) (h : AdmitsScheme listed scheme) :
    AdmitsScheme wider scheme ↔ ¬ (LosesSecurePages listed wider ∧ scheme = "https") := by
  constructor
  · rintro hadmits ⟨⟨rfl, hother, hmissing⟩, rfl⟩
    have hfilled : wider ≠ [] := List.ne_nil_of_mem (hwider List.mem_cons_self)
    obtain hmem | ⟨heq, -⟩ := hadmits.mem_or hfilled
    · exact hmissing hmem
    · exact hother heq
  · intro hkeeps
    obtain hmem | ⟨rfl, rfl⟩ := h.mem_or hne
    · exact admitsScheme_of_mem (hwider hmem)
    · by_cases heq : wider = ["http"]
      · exact .inr (.inl ⟨heq, .inr rfl⟩)
      · by_contra hnone
        exact hkeeps ⟨⟨rfl, heq, fun hmem => hnone (admitsScheme_of_mem hmem)⟩, rfl⟩

/-! ## The fields of links -/

section

variable {places : Places} {root node wider : Members Json} {name s : String}
  {requiredNames : List String}

theorem DescribesLink.compiles (h : DescribesLink node) :
    compileField name node requiredNames root =
      .ok (fieldOf requiredNames name node (.primitive .string)) :=
  compileField_ok_iff.mpr ⟨_, h.settled, rfl⟩

/-- Whatever the field of a link is made of, it takes what is a link of an admitted scheme. -/
theorem DescribesLink.taken_iff (h : DescribesLink node) :
    (∃ out, (fieldOf requiredNames name node (.primitive .string)).Gives places (.str s) out) ↔
      ∃ scheme, IsLink s scheme ∧ AdmitsScheme (textsOf (node.get? "scheme")) scheme := by
  obtain ⟨schemes, henforces, hcheck⟩ := check_narrow_uri node
  obtain ⟨refusal, hcheck⟩ := hcheck places (.str s)
  simp only [gives_fieldOf (show (Value.str s).ifNull = none from rfl), h.refine_eq]
  rw [exists_gives_iff, hcheck]
  simp [haveLink_clean_iff, IsLink, henforces _]

/-- A link is taken exactly where its scheme is admitted. -/
theorem IsLink.taken_iff {scheme : String} (hlink : IsLink s scheme) (hnode : DescribesLink node) :
    (∃ out, (fieldOf requiredNames name node (.primitive .string)).Gives places (.str s) out) ↔
      AdmitsScheme (textsOf (node.get? "scheme")) scheme := by
  rw [hnode.taken_iff]
  constructor
  · rintro ⟨scheme', hlink', hadmits⟩
    obtain rfl := Option.some.inj (hlink'.symm.trans hlink)
    exact hadmits
  · exact fun hadmits => ⟨scheme, hlink, hadmits⟩

/-- The fields of two links, of which the second lists more schemes than the first, both compile. What
the first one takes is taken by the second one too, unless it is a secure web page that the first one
takes for a plain one: that alone is lost, and lost wherever the wider list does not name it. -/
theorem a_wider_list_loses_secure_pages_alone (hnode : DescribesLink node)
    (hwider : DescribesLink wider) (hne : textsOf (node.get? "scheme") ≠ [])
    (hmore : textsOf (node.get? "scheme") ⊆ textsOf (wider.get? "scheme")) :
    ∃ f g, compileField name node requiredNames root = .ok f ∧
      compileField name wider requiredNames root = .ok g ∧
      ∀ places s, (∃ out, f.Gives places (.str s) out) →
        ((∃ out, g.Gives places (.str s) out) ↔
          ¬ (LosesSecurePages (textsOf (node.get? "scheme")) (textsOf (wider.get? "scheme")) ∧
            IsLink s "https")) := by
  refine ⟨_, _, hnode.compiles, hwider.compiles, fun places s htaken => ?_⟩
  obtain ⟨scheme, hlink, hadmits⟩ := hnode.taken_iff.mp htaken
  have hsecure : IsLink s "https" ↔ scheme = "https" :=
    ⟨fun h => Option.some.inj (hlink.symm.trans h), fun h => h ▸ hlink⟩
  rw [hlink.taken_iff hwider, hadmits.wider_iff hne hmore, hsecure]

end

/-- A link with the schemes that it may have. -/
def linkNode (schemes : List String) : Members Json :=
  [("type", .str "string"), ("format", .str "uri"), ("scheme", .arr (schemes.map .str))]

theorem describesLink_linkNode (schemes : List String) : DescribesLink (linkNode schemes) :=
  ⟨rfl, rfl, rfl⟩

theorem textsOf_linkNode (schemes : List String) :
    textsOf ((linkNode schemes).get? "scheme") = schemes := by
  have hget : (linkNode schemes).get? "scheme" = some (.arr (schemes.map .str)) := rfl
  simp [hget, textsOf, List.filterMap_map, Function.comp_def, Json.str?]

theorem plain_page : IsLink "http://ida/" "http" := by
  unfold IsLink
  decide +kernel

theorem secure_page : IsLink "https://ida/" "https" := by
  unfold IsLink
  decide +kernel

theorem a_plain_page_is_kept_beside_files_of_servers :
    ∃ f g, compileField "page" (linkNode ["http"]) ["page"] [] = .ok f ∧
      compileField "page" (linkNode ["http", "ftp"]) ["page"] [] = .ok g ∧
      (∃ out, f.Gives ⟨fun _ => false, fun _ => false⟩ (.str "http://ida/") out) ∧
      ∃ out, g.Gives ⟨fun _ => false, fun _ => false⟩ (.str "http://ida/") out := by
  have hne : textsOf ((linkNode ["http"]).get? "scheme") ≠ [] := by simp [textsOf_linkNode]
  have hmore : textsOf ((linkNode ["http"]).get? "scheme") ⊆
      textsOf ((linkNode ["http", "ftp"]).get? "scheme") := by simp [textsOf_linkNode]
  obtain ⟨f, g, hf, hg, hkeeps⟩ := @a_wider_list_loses_secure_pages_alone [] _ _ "page" ["page"]
    (describesLink_linkNode ["http"]) (describesLink_linkNode ["http", "ftp"]) hne hmore
  obtain rfl := Except.ok.inj ((describesLink_linkNode _).compiles.symm.trans hf)
  have htaken : ∃ out, (fieldOf ["page"] "page" (linkNode ["http"]) (.primitive .string)).Gives
      ⟨fun _ => false, fun _ => false⟩ (.str "http://ida/") out := by
    rw [plain_page.taken_iff (describesLink_linkNode _), textsOf_linkNode]
    exact admitsScheme_of_mem List.mem_cons_self
  refine ⟨_, g, hf, hg, htaken, (hkeeps _ _ htaken).mpr ?_⟩
  rintro ⟨-, hsecure⟩
  exact absurd (Option.some.inj (hsecure.symm.trans plain_page)) (by decide)

/-- A secure page is taken where plain pages are listed alone, and refused where files of servers are
listed beside them. -/
theorem a_secure_page_is_lost_beside_files_of_servers :
    ∃ f g, compileField "page" (linkNode ["http"]) ["page"] [] = .ok f ∧
      compileField "page" (linkNode ["http", "ftp"]) ["page"] [] = .ok g ∧
      (∃ out, f.Gives ⟨fun _ => false, fun _ => false⟩ (.str "https://ida/") out) ∧
      ¬ ∃ out, g.Gives ⟨fun _ => false, fun _ => false⟩ (.str "https://ida/") out := by
  refine ⟨_, _, (describesLink_linkNode _).compiles, (describesLink_linkNode _).compiles, ?_⟩
  simp only [secure_page.taken_iff (describesLink_linkNode _), textsOf_linkNode]
  simp [AdmitsScheme]

end JsonModel
