import BlockOutline.Proofs.Fixture.Requests

/-! # Categories and directories

In a category names are as they are shown, and a backslash counts as a slash. So fixtures are filed
together exactly if their directories are shown the same when names are cut at backslashes. The label of a category selects it, except where the
label stands in for the empty name and where slashes at its beginning are taken for slashes around it. -/

namespace BlockOutline

/-! ## What a category tells of directories -/

namespace Category

/-- The names of directories as they are shown, cut where they have a backslash. -/
def pieces (directories : List Bytes) : List String :=
  directories.flatMap fun directory => Text.split '\\' directory.lossy

theorem pieces_eq_nil_iff {directories : List Bytes} : pieces directories = [] ↔ directories = [] := by
  rw [pieces, List.flatMap_eq_nil_iff]
  constructor
  · intro h
    refine List.eq_nil_iff_forall_not_mem.mpr ?_
    intro directory hdirectory
    exact Text.split_ne_nil _ _ (h directory hdirectory)
  · intro h
    simp [h]

theorem pieces_eq_map {directories : List Bytes}
    (h : ∀ directory ∈ directories, '\\' ∉ directory.lossy.toList) :
    pieces directories = directories.map Bytes.lossy := by
  induction directories with
  | nil => rfl
  | cons directory directories ih =>
      have hrest := ih fun d hd => h d (List.mem_cons_of_mem directory hd)
      rw [pieces, List.flatMap_cons, Text.split_eq_singleton (h directory List.mem_cons_self),
        ← pieces, hrest]
      rfl

/-- A name that is a text, so that nothing else is shown for it, without a backslash. -/
structure PlainName (name : Bytes) : Prop where
  text : Text.encode name.lossy = name
  noBackslash : '\\' ∉ name.lossy.toList

instance (name : Bytes) : Decidable (PlainName name) :=
  decidable_of_iff (Text.encode name.lossy = name ∧ '\\' ∉ name.lossy.toList)
    ⟨fun h => ⟨h.1, h.2⟩, fun h => ⟨h.text, h.noBackslash⟩⟩

/-- The pieces of plain names are the names. -/
theorem encode_pieces {directories : List Bytes}
    (h : ∀ directory ∈ directories, PlainName directory) :
    (pieces directories).map Text.encode = directories := by
  rw [pieces_eq_map fun d hd => (h d hd).noBackslash]
  exact Bytes.map_encode_map_lossy fun d hd => (h d hd).text

end Category

namespace Finding

open Category

variable {f g : Finding}

theorem category_eq_empty_iff (proper : ∀ name ∈ f.directories, ProperName name) :
    f.category = "" ↔ f.directories = [] := by
  have hshown := categoryNames_of_proper proper
  rw [category, Text.replace_eq_empty_iff, joined_eq_empty_iff hshown, List.map_eq_nil_iff]

theorem split_category (proper : ∀ name ∈ f.directories, ProperName name)
    (hne : f.directories ≠ []) : Text.split '/' f.category = pieces f.directories := by
  have hshown := categoryNames_of_proper proper
  rw [category, Text.split_replace, split_joined_names hshown (by simpa using hne),
    List.flatMap_map, pieces]

/-- The category of a file is as good as the pieces of its directories. -/
theorem category_eq_iff (hf : ∀ name ∈ f.directories, ProperName name)
    (hg : ∀ name ∈ g.directories, ProperName name) :
    f.category = g.category ↔ pieces f.directories = pieces g.directories := by
  constructor
  · intro h
    by_cases hnil : f.directories = []
    · have hempty := (category_eq_empty_iff hf).mpr hnil
      rw [h, category_eq_empty_iff hg] at hempty
      rw [hnil, hempty]
    · have hnil' : g.directories ≠ [] := by
        intro hnil'
        rw [← category_eq_empty_iff hg, ← h, category_eq_empty_iff hf] at hnil'
        exact hnil hnil'
      rw [← split_category hf hnil, ← split_category hg hnil', h]
  · intro h
    by_cases hnil : f.directories = []
    · have hempty := pieces_eq_nil_iff.mpr hnil
      rw [h, pieces_eq_nil_iff] at hempty
      rw [(category_eq_empty_iff hf).mpr hnil, (category_eq_empty_iff hg).mpr hempty]
    · have hnil' : g.directories ≠ [] := by
        intro hnil'
        rw [← pieces_eq_nil_iff, ← h, pieces_eq_nil_iff] at hnil'
        exact hnil hnil'
      have hslash : "/".toList = ['/'] := by simp
      rw [← Text.joined_split hslash f.category, ← Text.joined_split hslash g.category,
        split_category hf hnil, split_category hg hnil', h]

theorem selects_category_iff {names : List String} (hne : names ≠ [])
    (hnames : ∀ name ∈ names, CategoryName name)
    (proper : ∀ name ∈ f.directories, ProperName name) :
    selects (Text.joined "/" names) f.category = true ↔ names <+: pieces f.directories := by
  rw [selects_iff_begins hne hnames]
  by_cases hnil : f.directories = []
  · rw [(category_eq_empty_iff proper).mpr hnil, pieces_eq_nil_iff.mpr hnil, Text.split_empty,
      List.prefix_nil]
    exact iff_of_false (not_prefix_empty_name hnames hne) hne
  · rw [split_category proper hnil]

end Finding

/-! ## Fixtures in one category -/

namespace Suite

open Category Fixture

/-- Two fixtures that are found in one category. -/
def FiledTogether (all : NameMap (List Fixture)) (x y : Fixture) : Prop :=
  ∃ k xs, all.find? k = some xs ∧ x ∈ xs ∧ y ∈ xs

section Found

variable {root : Bytes} {entries : List (Bytes × Entry)}
  (proper : (Entry.directory entries).Proper)

include proper

theorem mem_members_discover_iff {x : Fixture} :
    x ∈ (discover root (.directory entries)).members ↔ ∃ f, Finds entries f ∧ f.fixture root = x := by
  have h : x ∈ (select (discover root (.directory entries)) []).members ↔
      ∃ f, Finds entries f ∧ Requested [] f.category ∧ f.fixture root = x :=
    mem_members_select_iff proper
  simpa [Category.select, Requested] using h

theorem Finds.exists_find? {f : Finding} (hf : Finds entries f) :
    ∃ xs, (discover root (.directory entries)).find? f.category = some xs ∧
      f.fixture root ∈ xs :=
  (mem_discover_iff proper).mpr ⟨f, hf, rfl, rfl⟩

theorem filedTogether_iff_category {f g : Finding} (hf : Finds entries f) (hg : Finds entries g) :
    FiledTogether (discover root (.directory entries)) (f.fixture root) (g.fixture root) ↔
      f.category = g.category := by
  constructor
  · intro h
    obtain ⟨k, xs, hfind, hx, hy⟩ := h
    have hentry := (NameMap.find?_eq_some_iff _).mp hfind
    have hcategory {f : Finding} (hf : Finds entries f) (hx : f.fixture root ∈ xs) :
        f.category = k := by
      rw [← category_of_mem_discover proper hentry hx]
      exact (category_path fun name hn => hf.proper proper name hn).symm
    rw [hcategory hf hx, hcategory hg hy]
  · intro h
    obtain ⟨xs, hfind, hx⟩ := Finds.exists_find? proper hf
    obtain ⟨ys, hfind', hy⟩ := Finds.exists_find? proper hg
    rw [← h] at hfind'
    cases hfind.symm.trans hfind'
    exact ⟨_, xs, hfind, hx, hy⟩

theorem mem_selected_iff {f : Finding} (hf : Finds entries f) (request : String) :
    f.fixture root ∈ (categorized (discover root (.directory entries))).selected [request] ↔
      selects (plain request) f.category = true := by
  rw [selected_categorized, mem_members_select_iff proper]
  simp only [Requested, List.cons_ne_nil, List.mem_singleton, false_or, exists_eq_left]
  constructor
  · intro h
    obtain ⟨g, hg, hselects, hfixture⟩ := h
    have hpath : g.path root = f.path root := congrArg Fixture.path hfixture
    rw [← eq_of_components_path proper hg hf (congrArg Path.components hpath)]
    exact hselects
  · intro h
    exact ⟨f, hf, h, rfl⟩

end Found

/-- Two fixtures are filed together exactly if the directories on their ways are shown the same when names
are cut at backslashes; with plain names, if they are the same. In the same sense a request by the names
of directories runs the fixtures below these and no others. -/
theorem filed_together_iff {place : FileTree.Place} (hplace : place.Proper) {root : Bytes}
    {entries : List (Bytes × Entry)}
    (h : FileTree.lookup place root = .ok (.directory entries)) {x y : Fixture}
    (hx : x ∈ (discover root (.directory entries)).members)
    (hy : y ∈ (discover root (.directory entries)).members) :
    ∃ ds es, Path.below? root x.path = some (ds.map .name) ∧
      Path.below? root y.path = some (es.map .name) ∧
      (FiledTogether (discover root (.directory entries)) x y ↔ pieces ds = pieces es) ∧
      ((∀ d ∈ ds ++ es, PlainName d) →
        (FiledTogether (discover root (.directory entries)) x y ↔ ds = es)) ∧
      ∀ names : List String, names ≠ [] → (∀ name ∈ names, ProperName name) →
        (x ∈ (find (FileTree.lookup place) root).selected [Text.joined "/" names] ↔
          names <+: pieces ds) ∧
        ((∀ d ∈ ds, PlainName d) →
          (x ∈ (find (FileTree.lookup place) root).selected [Text.joined "/" names] ↔
            names.map Text.encode <+: ds)) := by
  have proper := FileTree.proper_of_lookup hplace h
  obtain ⟨f, hf, rfl⟩ := (mem_members_discover_iff proper).mp hx
  obtain ⟨g, hg, rfl⟩ := (mem_members_discover_iff proper).mp hy
  have hds := fun name hn => hf.proper proper name (List.mem_append_left _ hn)
  have hes := fun name hn => hg.proper proper name (List.mem_append_left _ hn)
  have hfiled : FiledTogether (discover root (.directory entries)) (f.fixture root)
      (g.fixture root) ↔ pieces f.directories = pieces g.directories := by
    rw [filedTogether_iff_category proper hf hg, Finding.category_eq_iff hds hes]
  refine ⟨f.directories, g.directories, below?_path (hf.proper proper),
    below?_path (hg.proper proper), hfiled, ?_, ?_⟩
  · intro plain
    have hds := encode_pieces fun d hd => plain d (List.mem_append_left _ hd)
    have hes := encode_pieces fun e he => plain e (List.mem_append_right _ he)
    rw [hfiled]
    constructor
    · intro hpieces
      rw [← hds, ← hes, hpieces]
    · intro hsame
      rw [hsame]
  · intro names hne hnames
    have hcategory := fun name hn => (hnames name hn).categoryName
    have hplain : plain (Text.joined "/" names) = Text.joined "/" names := by
      simpa [slashes] using plain_slashes hne hcategory 0 0
    have hselected : f.fixture root ∈
        (find (FileTree.lookup place) root).selected [Text.joined "/" names] ↔
          names <+: pieces f.directories := by
      rw [find_of_directory h, mem_selected_iff proper hf, hplain,
        Finding.selects_category_iff hne hcategory hds]
    refine ⟨hselected, ?_⟩
    intro plain
    rw [hselected, ← List.prefix_map_iff_of_injective Bytes.encode_injective, encode_pieces plain]

/-- A directory inside of another one, each with a fixture. -/
theorem filed_together_iff_nested :
    let place : FileTree.Place := ⟨[("fx", .directory [("a", .directory [
      ("x.test.toml", .file (some "")), ("b", .directory [("y.test.toml", .file none)])])])], []⟩
    let entries : List (Bytes × Entry) := [("a", .directory [("x.test.toml", .file (.ok "")),
      ("b", .directory [("y.test.toml", .file (.error .notText))])])]
    let x : Fixture := ⟨"fx/a/x.test.toml", .ok ""⟩
    let y : Fixture := ⟨"fx/a/b/y.test.toml", .error .notText⟩
    place.Proper ∧ FileTree.lookup place "fx" = .ok (.directory entries) ∧
      x ∈ (discover "fx" (.directory entries)).members ∧
      y ∈ (discover "fx" (.directory entries)).members ∧
      ¬FiledTogether (discover "fx" (.directory entries)) x y ∧
      x ∉ (find (FileTree.lookup place) "fx").selected ["a/b"] ∧
      y ∈ (find (FileTree.lookup place) "fx").selected ["a/b"] := by
  intro place entries x y
  have hproper : place.Proper := by decide
  have hentries : FileTree.lookup place "fx" = .ok (.directory entries) := by cbv
  have proper := FileTree.proper_of_lookup hproper hentries
  let f : Finding := ⟨["a"], "x.test.toml", .ok ""⟩
  let g : Finding := ⟨["a", "b"], "y.test.toml", .error .notText⟩
  have hends : Text.endsWith "x.test.toml" fixtureEnding = true ∧
      Text.endsWith "y.test.toml" fixtureEnding = true := by
    decide
  have hfindings : findings entries = [f, g] := by
    simp [entries, f, g, findings, hends, Finding.below, Entry.read]
  have hf : Finds entries f := mem_findings_iff.mp (hfindings ▸ List.mem_cons_self)
  have hg : Finds entries g :=
    mem_findings_iff.mp (hfindings ▸ List.mem_cons_of_mem _ List.mem_cons_self)
  have hx : x ∈ (discover "fx" (.directory entries)).members :=
    (mem_members_discover_iff proper).mpr ⟨f, hf, congrArg (Fixture.mk · _) (by decide +kernel)⟩
  have hy : y ∈ (discover "fx" (.directory entries)).members :=
    (mem_members_discover_iff proper).mpr ⟨g, hg, congrArg (Fixture.mk · _) (by decide +kernel)⟩
  have hnames : ["a", "b"] ≠ [] ∧ ∀ name ∈ ["a", "b"], ProperName (Text.encode name) := by
    decide +kernel
  have hbelow : Path.below? "fx" x.path = some [.name "a"] := by decide +kernel
  have hbelow' : Path.below? "fx" y.path = some [.name "a", .name "b"] := by decide +kernel
  have hinj : Function.Injective fun names : List Bytes => some (names.map Component.name) :=
    (Option.some_injective _).comp (List.map_injective_iff.mpr fun _ _ => Component.name.inj)
  obtain ⟨ds, es, hds, hes, -, hplain, hruns⟩ := filed_together_iff hproper hentries hx hy
  obtain ⟨es', ds', hes', hds', -, -, hruns'⟩ := filed_together_iff hproper hentries hy hx
  obtain rfl : ds = ["a"] := hinj (hds.symm.trans hbelow)
  obtain rfl : es = ["a", "b"] := hinj (hes.symm.trans hbelow')
  obtain rfl : es' = ["a", "b"] := hinj (hes'.symm.trans hbelow')
  refine ⟨hproper, hentries, hx, hy, mt (hplain (by decide +kernel)).mp (by decide), ?_, ?_⟩
  · exact mt (((hruns _ hnames.1 hnames.2).2 (by decide +kernel)).mp) (by decide +kernel)
  · exact ((hruns' _ hnames.1 hnames.2).2 (by decide +kernel)).mpr (by decide +kernel)

/-- Fixtures of different directories are filed together where a name has a backslash, and a request
for one directory runs a fixture that lies outside of it. -/
theorem filed_together_across_backslash :
    let place : FileTree.Place := ⟨[("fx", .directory [
      ("a\\b", .directory [("x.test.toml", .file (some ""))]),
      ("a", .directory [("b", .directory [("y.test.toml", .file (some ""))])])])], []⟩
    let entries : List (Bytes × Entry) := [("a\\b", .directory [("x.test.toml", .file (.ok ""))]),
      ("a", .directory [("b", .directory [("y.test.toml", .file (.ok ""))])])]
    let x : Fixture := ⟨"fx/a\\b/x.test.toml", .ok ""⟩
    let y : Fixture := ⟨"fx/a/b/y.test.toml", .ok ""⟩
    FileTree.lookup place "fx" = .ok (.directory entries) ∧
      FiledTogether (discover "fx" (.directory entries)) x y ∧
      Path.below? "fx" x.path = some [.name "a\\b"] ∧
      Path.below? "fx" y.path = some [.name "a", .name "b"] ∧
      x ∈ (find (FileTree.lookup place) "fx").selected ["a"] := by
  intro place entries x y
  have hentries : FileTree.lookup place "fx" = .ok (.directory entries) := by cbv
  have proper : (Entry.directory entries).Proper := FileTree.proper_of_lookup (by decide) hentries
  let f : Finding := ⟨["a\\b"], "x.test.toml", .ok ""⟩
  let g : Finding := ⟨["a", "b"], "y.test.toml", .ok ""⟩
  have hends : Text.endsWith "x.test.toml" fixtureEnding = true ∧
      Text.endsWith "y.test.toml" fixtureEnding = true := by
    decide
  have hfindings : findings entries = [f, g] := by
    simp [entries, f, g, findings, hends, Finding.below, Entry.read]
  have hf : Finds entries f := mem_findings_iff.mp (hfindings ▸ List.mem_cons_self)
  have hg : Finds entries g :=
    mem_findings_iff.mp (hfindings ▸ List.mem_cons_of_mem _ List.mem_cons_self)
  have hx : f.fixture "fx" = x := congrArg (Fixture.mk · _) (by decide +kernel)
  have hy : g.fixture "fx" = y := congrArg (Fixture.mk · _) (by decide +kernel)
  refine ⟨hentries, ?_, by decide +kernel, by decide +kernel, ?_⟩
  · rw [← hx, ← hy, filedTogether_iff_category proper hf hg]
    decide +kernel
  · rw [find_of_directory hentries, ← hx, mem_selected_iff proper hf]
    decide +kernel

end Suite

/-! ## Labels as requests -/

namespace Category

theorem slashes_succ (n : ℕ) : slashes (n + 1) = "/" ++ slashes n := by
  rw [← String.toList_inj]
  simp [slashes, List.replicate_succ]

theorem eq_slash_of_mem_slashes {n : ℕ} {c : Char} (h : c ∈ (slashes n).toList) : c = '/' := by
  rw [slashes, String.toList_ofList] at h
  exact List.eq_of_mem_replicate h

/-- Only slashes are no name. -/
theorem plain_eq_empty_iff {k : String} : plain k = "" ↔ ∀ c ∈ k.toList, c = '/' := by
  obtain ⟨⟨m, n, hk⟩, first, -⟩ := strips_plain k
  constructor
  · intro hname c hc
    rw [hk, hname, String.append_empty, slashes_append] at hc
    exact eq_slash_of_mem_slashes hc
  · intro hall
    cases hchars : (plain k).toList with
    | nil => exact String.toList_eq_nil_iff.mp hchars
    | cons c cs =>
        have hc : c ∈ k.toList := by
          rw [hk]
          simp [hchars]
        exact absurd (by rw [hchars, hall c hc]; rfl) first

/-- What begins with a name that is left of it begins with no slash. -/
theorem head?_ne_slash_of_begins {k rest : String} (hname : plain k ≠ "") (h : k = plain k ++ rest) :
    k.toList.head? ≠ some '/' := by
  intro hhead
  cases hchars : (plain k).toList with
  | nil => exact hname (String.toList_eq_nil_iff.mp hchars)
  | cons c cs =>
      rw [h, String.toList_append, hchars] at hhead
      exact (strips_plain k).first (hchars ▸ hhead)

theorem begins_of_append_slashes {k name : String} {n : ℕ} (h : k = name ++ slashes n) :
    k = name ∨ ∃ rest, k = name ++ "/" ++ rest := by
  cases n with
  | zero => exact .inl (by rw [h]; simp [slashes])
  | succ n => exact .inr ⟨slashes n, by rw [h, slashes_succ, String.append_assoc]⟩

/-- A label selects its category unless the category is empty, or it begins with a slash and goes on
with something else: then the name in the request is not how the category begins. -/
theorem selects_label_iff (k : String) :
    selects (plain (label k)) k = true ↔
      k ≠ "" ∧ (k.toList.head? ≠ some '/' ∨ ∀ c ∈ k.toList, c = '/') := by
  by_cases hempty : k = ""
  · subst hempty
    exact iff_of_false (by decide +kernel) (by simp)
  rw [label, if_neg hempty, selects_iff, and_iff_right hempty, ← plain_eq_empty_iff]
  constructor
  · intro h
    by_cases hname : plain k = ""
    · exact .inr hname
    · left
      rcases h with h | ⟨rest, h⟩
      · have hbegins : k = plain k ++ "" := h.trans String.append_empty.symm
        exact head?_ne_slash_of_begins hname hbegins
      · exact head?_ne_slash_of_begins hname (h.trans (String.append_assoc ..))
  · intro h
    obtain ⟨m, n, hk⟩ := (strips_plain k).around
    cases m with
    | zero =>
        have hfront : k = plain k ++ slashes n := hk.trans (by simp [slashes])
        exact begins_of_append_slashes hfront
    | succ m =>
        rw [slashes_succ] at hk
        rcases h with h | hname
        · exact absurd (by rw [hk]; simp) h
        · refine .inr ⟨slashes m ++ slashes n, ?_⟩
          rw [hname] at hk ⊢
          rw [hk]
          simp [String.append_assoc]

/-- What is shown as the name of a category selects the category when it is requested, and nobody is
warned. -/
def Accepted (all : NameMap (List Fixture)) (k : String) : Prop :=
  k ∈ (select all [label k]).names ∧ (Suite.categorized all).warnings [label k] = []

theorem accepted_iff {all : NameMap (List Fixture)} {k : String} (hk : k ∈ all.names) :
    Accepted all k ↔ k ≠ "" ∧ (k.toList.head? ≠ some '/' ∨ ∀ c ∈ k.toList, c = '/') := by
  rw [← selects_label_iff]
  constructor
  · intro h
    obtain ⟨v, hv⟩ := NameMap.mem_names_iff.mp h.1
    have hanswers := (mem_select_iff_answers (by simp) _).mp hv
    simpa [answers_iff] using hanswers.2
  · intro h
    obtain ⟨v, hv⟩ := NameMap.mem_names_iff.mp hk
    constructor
    · refine NameMap.mem_names_iff.mpr ⟨v, (mem_select_iff_answers (by simp) _).mpr ⟨hv, ?_⟩⟩
      simpa [answers_iff] using h
    · have hany : all.names.any (selects (plain (label k))) = true :=
        List.any_eq_true.mpr ⟨k, hk, h⟩
      simp [Suite.warnings, unknown, hany]

end Category

namespace Suite

open Category Fixture

theorem mem_names_discover_iff {root : Bytes} {entries : List (Bytes × Entry)}
    (proper : (Entry.directory entries).Proper) {k : String} :
    k ∈ (discover root (.directory entries)).names ↔ ∃ f, Finds entries f ∧ f.category = k := by
  rw [NameMap.mem_names_iff]
  constructor
  · intro h
    obtain ⟨xs, hxs⟩ := h
    exact exists_finds_of_find? proper ((NameMap.find?_eq_some_iff _).mpr hxs)
  · intro h
    obtain ⟨f, hf, rfl⟩ := h
    obtain ⟨xs, hfind, -⟩ := Finds.exists_find? proper hf
    exact ⟨xs, (NameMap.find?_eq_some_iff _).mp hfind⟩

/-- The label of a category that is found is accepted as a request for it unless the category is that of
the root, or a backslash at the beginning of its first directory shows as a slash. -/
theorem label_accepted_iff {place : FileTree.Place} (hplace : place.Proper) {root : Bytes}
    {entries : List (Bytes × Entry)}
    (h : FileTree.lookup place root = .ok (.directory entries)) {k : String}
    (hk : k ∈ (discover root (.directory entries)).names) :
    (Accepted (discover root (.directory entries)) k ↔
        k ≠ "" ∧ (k.toList.head? ≠ some '/' ∨ ∀ c ∈ k.toList, c = '/')) ∧
      (WithoutBackslash entries →
        (Accepted (discover root (.directory entries)) k ↔ k ≠ "")) := by
  have proper := FileTree.proper_of_lookup hplace h
  refine ⟨accepted_iff hk, ?_⟩
  intro plain
  rw [accepted_iff hk, and_iff_left_iff_imp]
  intro _
  left
  intro hhead
  obtain ⟨f, hf, rfl⟩ := (mem_names_discover_iff proper).mp hk
  obtain ⟨rest, hrest⟩ := List.head?_eq_some_iff.mp hhead
  have hjoined : Text.joined "/" (f.directories.map Bytes.lossy) =
      "" ++ "/" ++ String.ofList rest := by
    rw [← Finding.category_eq (plain f hf), ← String.toList_inj, hrest]
    simp
  exact (ne_empty_of_joined_eq (hf.categoryNames proper) hjoined).1 rfl

/-- A directory that is called like the label of the root. -/
theorem label_accepted_iff_root :
    let place : FileTree.Place := ⟨[("fx", .directory [("x.test.toml", .file none),
      ("(root)", .directory [("y.test.toml", .file (some ""))])])], []⟩
    let entries : List (Bytes × Entry) := [("x.test.toml", .file (.error .notText)),
      ("(root)", .directory [("y.test.toml", .file (.ok ""))])]
    let all := discover "fx" (.directory entries)
    place.Proper ∧ FileTree.lookup place "fx" = .ok (.directory entries) ∧
      WithoutBackslash entries ∧ "" ∈ all.names ∧ ¬Accepted all "" ∧
      "(root)" ∈ all.names ∧ Accepted all "(root)" := by
  intro place entries all
  have hproper : place.Proper := by decide
  have hentries : FileTree.lookup place "fx" = .ok (.directory entries) := by cbv
  have proper := FileTree.proper_of_lookup hproper hentries
  let f : Finding := ⟨[], "x.test.toml", .error .notText⟩
  let g : Finding := ⟨["(root)"], "y.test.toml", .ok ""⟩
  have hends : Text.endsWith "x.test.toml" fixtureEnding = true ∧
      Text.endsWith "y.test.toml" fixtureEnding = true := by
    decide
  have hfindings : findings entries = [f, g] := by
    simp [entries, f, g, findings, hends, Finding.below, Entry.read]
  have plain : WithoutBackslash entries := by
    have hall : ∀ f ∈ findings entries, ∀ directory ∈ f.directories,
        '\\' ∉ directory.lossy.toList := by
      rw [hfindings]
      decide +kernel
    intro f hf
    exact hall f (mem_findings_iff.mpr hf)
  have hroot : "" ∈ all.names :=
    (mem_names_discover_iff proper).mpr ⟨f, mem_findings_iff.mp (by simp [hfindings]), by decide⟩
  have hnamed : "(root)" ∈ all.names :=
    (mem_names_discover_iff proper).mpr
      ⟨g, mem_findings_iff.mp (by simp [hfindings]), by decide +kernel⟩
  refine ⟨hproper, hentries, plain, hroot, ?_, hnamed, ?_⟩
  · exact mt ((label_accepted_iff hproper hentries hroot).2 plain).mp (by decide)
  · exact ((label_accepted_iff hproper hentries hnamed).2 plain).mpr (by decide)

/-- The label of the root is listed as available, and a request for it is answered by a warning. -/
theorem label_of_root_unanswered :
    let all := discover "fx" (.directory [("x.test.toml", .file (.ok ""))])
    all.names = [""] ∧ label "" = "(root)" ∧ ¬Accepted all "" ∧
      (categorized all).selected ["(root)"] = [] ∧
      (categorized all).warnings ["(root)"] =
        ["warning: category '(root)' not found (available: (root))"] := by
  intro all
  let x : Fixture := ⟨"fx/x.test.toml", .ok ""⟩
  have hend : Text.endsWith "x.test.toml" fixtureEnding = true := by decide
  have hjoin : Path.join "fx" "x.test.toml" = Text.encode "fx/x.test.toml" := by decide
  have hcollect : collect "fx" [("x.test.toml", .file (.ok ""))] = [x] := by
    simp [collect, candidate?, hend, hjoin, Entry.read, x]
  have hcategory : category "fx" x.path = "" := by decide +kernel
  have hsort : Fixture.sort [x] = [x] := List.mergeSort_singleton x
  have hall : all = ⟨[("", [x])], by decide⟩ := by
    simp [all, discover, hcollect, hcategory, hsort, NameMap.append, NameMap.find?, NameMap.empty,
      NameMap.insert, NameMap.insertEntry, NameMap.mapValues]
  rw [hall]
  have hroot : "" ∈ (⟨[("", [x])], by decide⟩ : NameMap (List Fixture)).names := by decide
  refine ⟨rfl, rfl, ?_, by rfl, by decide +kernel⟩
  rw [accepted_iff hroot]
  decide

end Suite

end BlockOutline
