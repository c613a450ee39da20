import Mathlib.Data.String.Basic
import BlockOutline.Proofs.CommandLine.Checking
import BlockOutline.Proofs.Files.Subdirectories
import BlockOutline.Proofs.Fixture.Report

/-! # Selecting by directory

A request for the category of a directory selects what is found from that directory. The text of a
category begins with that of another one exactly if its directory lies in the other one's. -/

namespace BlockOutline

/-! ## Categories of directories -/

/-- A text that can stand between the slashes of a category. -/
structure CategoryName (name : String) : Prop where
  notEmpty : name ≠ ""
  noSlash : '/' ∉ name.toList

theorem ProperName.categoryName_lossy {name : Bytes} (proper : ProperName name) :
    CategoryName name.lossy :=
  ⟨proper.lossy_ne_empty, proper.slash_notMem_lossy⟩

theorem categoryNames_of_proper {names : List Bytes} (proper : ∀ name ∈ names, ProperName name) :
    ∀ name ∈ names.map Bytes.lossy, CategoryName name :=
  List.forall_mem_map.mpr fun name hname => (proper name hname).categoryName_lossy

theorem ProperName.categoryName {name : String} (proper : ProperName name) : CategoryName name := by
  simpa using proper.categoryName_lossy

section Names

variable {names : List String} (proper : ∀ name ∈ names, CategoryName name)

include proper

theorem split_joined_names (hne : names ≠ []) :
    Text.split '/' (Text.joined "/" names) = names :=
  Text.split_joined (by simp) hne fun name hn => (proper name hn).noSlash

theorem not_prefix_empty_name (hne : names ≠ []) : ¬names <+: [""] := by
  intro h
  rcases List.prefix_cons_iff.mp h with h | ⟨rest, h, -⟩
  · exact hne h
  · exact (proper "" (by simp [h])).notEmpty rfl

theorem joined_eq_empty_iff : Text.joined "/" names = "" ↔ names = [] := by
  constructor
  · intro h
    by_contra hne
    have hsplit := split_joined_names proper hne
    rw [h, Text.split_empty] at hsplit
    exact (proper "" (hsplit ▸ List.mem_singleton_self "")).notEmpty rfl
  · intro h
    rw [h]
    rfl

/-- No slash stands at an end of joined names. -/
theorem ne_empty_of_joined_eq {before after : String}
    (h : Text.joined "/" names = before ++ "/" ++ after) : before ≠ "" ∧ after ≠ "" := by
  have hne : names ≠ [] := by
    intro hnil
    rw [hnil] at h
    exact Text.append_slash_ne_empty before after h.symm
  have hsplit := split_joined_names proper hne
  rw [h, Text.split_join_slash] at hsplit
  constructor
  · intro hbefore
    rw [hbefore, Text.split_empty] at hsplit
    exact (proper "" (by simp [← hsplit])).notEmpty rfl
  · intro hafter
    rw [hafter, Text.split_empty] at hsplit
    exact (proper "" (by simp [← hsplit])).notEmpty rfl

end Names

namespace Category

theorem selects_iff {name category : String} :
    selects name category = true ↔ category = name ∨ ∃ rest, category = name ++ "/" ++ rest := by
  rw [selects, Bool.or_eq_true, decide_eq_true_iff, Text.beginsWith_iff]

/-- A name selects exactly the categories that it leads to or through. -/
theorem selects_iff_begins {names : List String} (hne : names ≠ [])
    (proper : ∀ name ∈ names, CategoryName name) {category : String} :
    selects (Text.joined "/" names) category = true ↔ names <+: Text.split '/' category := by
  have hsplit := split_joined_names proper hne
  rw [selects_iff]
  constructor
  · intro h
    rcases h with rfl | ⟨rest, rfl⟩
    · exact ⟨[], by rw [List.append_nil, hsplit]⟩
    · rw [Text.split_join_slash, hsplit]
      exact List.prefix_append _ _
  · intro h
    obtain ⟨rest, hrest⟩ := h
    have hcategory : Text.joined "/" (Text.split '/' category) = category :=
      Text.joined_split (by simp) category
    rw [← hrest] at hcategory
    by_cases hnil : rest = []
    · exact .inl (by rw [← hcategory, hnil, List.append_nil])
    · exact .inr ⟨_, by rw [← hcategory, Text.joined_append "/" hne hnil]⟩

theorem selects_joined_iff {names directories : List String} (hne : names ≠ [])
    (proper : ∀ name ∈ names, CategoryName name)
    (proper' : ∀ directory ∈ directories, CategoryName directory) :
    selects (Text.joined "/" names) (Text.joined "/" directories) = true ↔
      names <+: directories := by
  rw [selects_iff_begins hne proper]
  by_cases hnil : directories = []
  · subst hnil
    rw [Text.joined, Text.split_empty, List.prefix_nil]
    exact iff_of_false (not_prefix_empty_name proper hne) hne
  · rw [split_joined_names proper' hnil]

example : ["a", "a-b", "a/b", "ab"].filter (selects "a") = ["a", "a/b"] := by decide

def slashes (n : ℕ) : String :=
  String.ofList (List.replicate n '/')

theorem plain_slashes {names : List String} (hne : names ≠ [])
    (proper : ∀ name ∈ names, CategoryName name) (m n : ℕ) :
    plain (slashes m ++ Text.joined "/" names ++ slashes n) = Text.joined "/" names := by
  refine Text.trim_between (mt (joined_eq_empty_iff proper).mp hne) ?_ ?_ m n
  · intro h
    obtain ⟨after, hafter⟩ := List.head?_eq_some_iff.mp h
    have hjoined : Text.joined "/" names = "" ++ "/" ++ String.ofList after := by
      rw [← String.toList_inj, hafter]
      simp
    exact (ne_empty_of_joined_eq proper hjoined).1 rfl
  · intro h
    obtain ⟨before, hbefore⟩ := List.getLast?_eq_some_iff.mp h
    have hjoined : Text.joined "/" names = String.ofList before ++ "/" ++ "" := by
      rw [← String.toList_inj, hbefore]
      simp
    exact (ne_empty_of_joined_eq proper hjoined).2 rfl

/-- What a category seen from a directory is called from where the directory is seen. -/
def within (directory category : String) : String :=
  if category = "" then directory else directory ++ "/" ++ category

theorem within_joined {names directories : List String} (hne : names ≠ [])
    (proper : ∀ directory ∈ directories, CategoryName directory) :
    within (Text.joined "/" names) (Text.joined "/" directories) =
      Text.joined "/" (names ++ directories) := by
  rw [within]
  by_cases h : directories = []
  · rw [if_pos ((joined_eq_empty_iff proper).mpr h), h, List.append_nil]
  · rw [if_neg (mt (joined_eq_empty_iff proper).mp h), Text.joined_append "/" hne h]

theorem append_lt (beginning : String) {a b : String} (h : a < b) :
    beginning ++ a < beginning ++ b := by
  rw [String.lt_iff_toList_lt] at h ⊢
  rw [String.toList_append, String.toList_append]
  exact List.append_left_lt h

theorem within_lt (directory : String) {a b : String} (h : a < b) :
    within directory a < within directory b := by
  have hb : b ≠ "" := by
    intro hb
    rw [hb, String.lt_iff_toList_lt] at h
    exact List.not_lt_nil _ h
  rw [within, within, if_neg hb]
  split
  · have hslash : "" < "/" ++ b := by
      rw [String.lt_iff_toList_lt, String.toList_append]
      exact List.nil_lt_cons _ _
    have hlt := append_lt directory hslash
    rwa [String.append_empty, ← String.append_assoc] at hlt
  · exact append_lt _ h

theorem within_injective (directory : String) : (within directory).Injective := by
  intro a b h
  by_contra hne
  by_cases hlt : a < b
  · exact String.lt_irrefl _ (h ▸ within_lt directory hlt)
  · have hgt := NameMap.lt_of_not_lt_of_ne hlt hne
    exact String.lt_irrefl _ (h ▸ within_lt directory hgt)

theorem selects_within (name category : String) : selects name (within name category) = true := by
  rw [selects_iff, within]
  split
  · exact .inl rfl
  · exact .inr ⟨category, rfl⟩

end Category

/-! ## Files inside of a directory -/

namespace Finding

/-- A file that is found in a directory, as it is found from where the names lead to that. -/
def within (names : List Bytes) (f : Finding) : Finding :=
  { f with directories := names ++ f.directories }

theorem category_eq {f : Finding} (h : ∀ directory ∈ f.directories, '\\' ∉ directory.lossy.toList) :
    f.category = Text.joined "/" (f.directories.map Bytes.lossy) := by
  refine Text.replace_eq_self ?_
  intro hmem
  rcases Text.mem_toList_joined hmem with hslash | ⟨shown, hshown, hmem⟩
  · simp at hslash
  · obtain ⟨directory, hdirectory, rfl⟩ := List.mem_map.mp hshown
    exact h directory hdirectory hmem

theorem fixture_within (root : Bytes) {names : List Bytes} (hne : names ≠ [])
    (proper : ∀ name ∈ names, ProperName name) (f : Finding) :
    (f.within names).fixture root = f.fixture (Path.join root (Path.joined names)) := by
  rw [fixture, path, within, List.foldl_append, Path.foldl_join_eq root hne proper]
  rfl

theorem components_within (names : List Bytes) (f : Finding) :
    (f.within names).components = names.map .name ++ f.components := by
  simp [components, Finding.names, within]

theorem within_injective (names : List Bytes) : (within names).Injective := by
  intro f g h
  cases f
  cases g
  simpa [within] using h

end Finding

namespace Fixture

theorem sortFindings_map_within (names : List Bytes) (fs : List Finding) :
    sortFindings (fs.map (Finding.within names)) =
      (sortFindings fs).map (Finding.within names) := by
  rw [sortFindings, sortFindings, List.map_mergeSort]
  intro f _ g _
  rw [Finding.components_within, Finding.components_within, Path.atMost_append]

/-- On the ways to files that are found, the names of directories are shown without a backslash. -/
def WithoutBackslash (entries : List (Bytes × Entry)) : Prop :=
  ∀ f, Finds entries f → ∀ directory ∈ f.directories, '\\' ∉ directory.lossy.toList

/-- On the ways to files that are found, the names of directories are texts: nothing else is shown for
them. -/
def InText (entries : List (Bytes × Entry)) : Prop :=
  ∀ f, Finds entries f → ∀ directory ∈ f.directories, Text.encode directory.lossy = directory

theorem exists_finds_of_find? {root : Bytes} {entries : List (Bytes × Entry)}
    (proper : (Entry.directory entries).Proper) {k : String} {xs : List Fixture}
    (h : (discover root (.directory entries)).find? k = some xs) :
    ∃ f, Finds entries f ∧ f.category = k := by
  obtain ⟨hne, -⟩ := (find?_discover_eq_some_iff proper).mp h
  obtain ⟨f, hf⟩ := List.exists_mem_of_ne_nil _ hne
  obtain ⟨hmem, hcategory⟩ := List.mem_filter.mp hf
  exact ⟨f, mem_findings_iff.mp hmem, by simpa using hcategory⟩

section Contains

variable {entries inner : List (Bytes × Entry)} {names : List Bytes}
  (proper : (Entry.directory entries).Proper) (contains : Contains entries names inner)

include contains

theorem Finds.within {f : Finding} (h : Finds inner f) : Finds entries (f.within names) := by
  induction contains with
  | here => exact h
  | inside hmem _ ih => exact .inside hmem (ih h)

include proper

/-- What is found by way of a directory is found in it. -/
theorem exists_finds_of_prefix {f : Finding} (h : Finds entries f)
    (hbegins : names <+: f.directories) : ∃ g, Finds inner g ∧ g.within names = f := by
  induction contains generalizing f with
  | here => exact ⟨f, h, rfl⟩
  | @inside entries name mid names inner hmem _ ih =>
      cases h with
      | here => simp at hbegins
      | @inside _ directory mid' f hmem' hf =>
          obtain ⟨rfl, hrest⟩ := List.cons_prefix_cons.mp hbegins
          cases proper with
          | directory hnames below =>
              have hsame := List.inj_on_of_nodup_map hnames.nodup hmem hmem' rfl
              cases hsame
              obtain ⟨g, hg, rfl⟩ := ih (below _ hmem) hf hrest
              exact ⟨g, hg, rfl⟩

end Contains

theorem Finds.categoryNames {entries : List (Bytes × Entry)}
    (proper : (Entry.directory entries).Proper) {f : Finding} (h : Finds entries f) :
    ∀ name ∈ f.directories.map Bytes.lossy, CategoryName name :=
  categoryNames_of_proper fun directory hd => h.proper proper directory (List.mem_append_left _ hd)

section Within

variable {entries inner : List (Bytes × Entry)} {names : List String}
  (proper : (Entry.directory entries).Proper)
  (contains : Contains entries (names.map Text.encode) inner) (plain : WithoutBackslash entries)
  (hne : names ≠ [])

include proper contains plain hne

theorem category_within {f : Finding} (h : Finds inner f) :
    (f.within (names.map Text.encode)).category =
      Category.within (Text.joined "/" names) f.category := by
  have hwithin := plain _ (h.within contains)
  have hf : f.category = Text.joined "/" (f.directories.map Bytes.lossy) := by
    refine Finding.category_eq ?_
    intro directory hd
    exact hwithin directory (List.mem_append_right _ hd)
  rw [Finding.category_eq hwithin, hf,
    Category.within_joined hne (h.categoryNames (contains.proper proper))]
  simp [Finding.within, Function.comp_def]

variable (inText : InText entries) (hnames : ∀ name ∈ names, ProperName name)

include inText hnames

/-- Whatever is found in a selected category is found in the directory of the request. -/
theorem exists_finds_of_selects {f : Finding} (h : Finds entries f)
    (hselects : Category.selects (Text.joined "/" names) f.category = true) :
    ∃ g, Finds inner g ∧ g.within (names.map Text.encode) = f := by
  refine exists_finds_of_prefix proper contains h ?_
  have hshown : names <+: f.directories.map Bytes.lossy := by
    rw [Finding.category_eq (plain f h)] at hselects
    exact (Category.selects_joined_iff hne (fun name hn => (hnames name hn).categoryName)
      (h.categoryNames proper)).mp hselects
  have htext := Bytes.map_encode_map_lossy (inText f h)
  exact htext ▸ hshown.map Text.encode

theorem perm_findings_within (k : String) :
    ((findings entries).filter (·.category = Category.within (Text.joined "/" names) k)).Perm
      (((findings inner).filter (·.category = k)).map (Finding.within (names.map Text.encode))) := by
  have hnodup := (nodup_findings proper entries rfl).of_map _
  have hnodup' := (nodup_findings (contains.proper proper) inner rfl).of_map _
  refine (List.perm_ext_iff_of_nodup (hnodup.filter _)
    ((hnodup'.filter _).map (Finding.within_injective _))).mpr ?_
  intro f
  simp only [List.mem_filter, List.mem_map, mem_findings_iff, decide_eq_true_iff]
  constructor
  · intro h
    obtain ⟨hf, hcategory⟩ := h
    obtain ⟨g, hg, rfl⟩ := exists_finds_of_selects proper contains plain hne inText hnames hf
      (hcategory ▸ Category.selects_within _ k)
    rw [category_within proper contains plain hne hg] at hcategory
    exact ⟨g, ⟨hg, Category.within_injective _ hcategory⟩, rfl⟩
  · intro h
    obtain ⟨g, ⟨hg, rfl⟩, rfl⟩ := h
    exact ⟨hg.within contains, category_within proper contains plain hne hg⟩

/-- In a category seen from a directory there is the same, wherever the directory is seen from. -/
theorem find?_discover_within (root : Bytes) (k : String) :
    (discover root (.directory entries)).find? (Category.within (Text.joined "/" names) k) =
      (discover (Path.join root (Text.joined "/" names)) (.directory inner)).find? k := by
  have hperm := perm_findings_within proper contains plain hne inText hnames k
  have hbytes : ∀ name ∈ names.map Text.encode, ProperName name := List.forall_mem_map.mpr hnames
  rw [find?_discover proper, find?_discover (contains.proper proper)]
  dsimp only
  by_cases hnil : (findings inner).filter (·.category = k) = []
  · rw [hnil, List.map_nil] at hperm
    rw [if_pos hperm.eq_nil, if_pos hnil]
  · have hsort := sortFindings_eq_of_perm ?_ hperm
    · rw [if_neg hnil, if_neg, hsort, sortFindings_map_within, List.map_map, Path.encode_joined]
      · refine congrArg some (List.map_congr_left ?_)
        intro f _
        exact Finding.fixture_within root (by simpa using hne) hbytes f
      · intro hnil'
        rw [hnil'] at hperm
        exact hnil (List.map_eq_nil_iff.mp hperm.nil_eq.symm)
    · intro f hf g hg hfg
      have hg := hperm.mem_iff.mpr hg
      exact eq_of_findings proper (List.mem_filter.mp hf).1 (List.mem_filter.mp hg).1 hfg

theorem select_discover_within (root : Bytes) (m n : ℕ) :
    (Category.select (discover root (.directory entries))
        [Category.slashes m ++ Text.joined "/" names ++ Category.slashes n]).entries =
      (discover (Path.join root (Text.joined "/" names)) (.directory inner)).entries.map
        fun e => (Category.within (Text.joined "/" names) e.1, e.2) := by
  have hascending : ((discover (Path.join root (Text.joined "/" names))
      (.directory inner)).entries.map fun e =>
        (Category.within (Text.joined "/" names) e.1, e.2)).Pairwise (·.1 < ·.1) := by
    refine List.pairwise_map.mpr ((NameMap.ascending _).imp ?_)
    intro d e hlt
    exact Category.within_lt _ hlt
  refine NameMap.entries_eq_of_mem_iff (NameMap.ascending _) hascending ?_
  intro e
  obtain ⟨k, xs⟩ := e
  rw [Suite.mem_select_iff, ← NameMap.find?_eq_some_iff, List.mem_map]
  have hplain : Category.plain (Category.slashes m ++ Text.joined "/" names ++ Category.slashes n) =
      Text.joined "/" names :=
    Category.plain_slashes hne (fun name hn => (hnames name hn).categoryName) m n
  have hrequested : Suite.Requested
      [Category.slashes m ++ Text.joined "/" names ++ Category.slashes n] k ↔
        Category.selects (Text.joined "/" names) k = true := by
    simp [Suite.Requested, hplain]
  rw [hrequested]
  constructor
  · intro h
    obtain ⟨hfind, hselects⟩ := h
    obtain ⟨f, hf, rfl⟩ := exists_finds_of_find? proper hfind
    obtain ⟨g, hg, rfl⟩ :=
      exists_finds_of_selects proper contains plain hne inText hnames hf hselects
    rw [category_within proper contains plain hne hg] at hfind ⊢
    rw [find?_discover_within proper contains plain hne inText hnames] at hfind
    exact ⟨_, (NameMap.find?_eq_some_iff _).mp hfind, rfl⟩
  · intro h
    obtain ⟨⟨k', xs'⟩, hmem, heq⟩ := h
    cases heq
    rw [find?_discover_within proper contains plain hne inText hnames]
    exact ⟨(NameMap.find?_eq_some_iff _).mpr hmem, Category.selects_within _ k'⟩

end Within

end Fixture

namespace Suite

open Fixture CommandLine

theorem find_of_directory {lookup : Lookup} {path : Bytes} {entries : List (Bytes × Entry)}
    (h : lookup path = .ok (.directory entries)) :
    find lookup path = categorized (discover path (.directory entries)) := by
  rw [find, h]

theorem mem_selected_find_iff {place : FileTree.Place} (hplace : place.Proper) {path : Bytes}
    {entries : List (Bytes × Entry)}
    (h : FileTree.lookup place path = .ok (.directory entries)) {requests : List String}
    {x : Fixture} :
    x ∈ (find (FileTree.lookup place) path).selected requests ↔
      ∃ f, Finds entries f ∧ Requested requests f.category ∧ f.fixture path = x := by
  rw [find_of_directory h, selected_categorized,
    mem_members_select_iff (FileTree.proper_of_lookup hplace h)]

/-- A request for a directory below a root, with any number of slashes around its names, selects
what is found in the directory itself, every category under the name that it has from the root; so
the same fixtures are run in the same order, with the same success. The request can be made on a command
line if it is a word there, and the program then ends with the same exit code. -/
theorem select_within {place : FileTree.Place} (hplace : place.Proper) {root : Bytes}
    {entries : List (Bytes × Entry)}
    (h : FileTree.lookup place root = .ok (.directory entries)) (inText : InText entries)
    (plain : WithoutBackslash entries) {names : List String} (hne : names ≠ [])
    (hnames : ∀ name ∈ names, ProperName name) {inner : List (Bytes × Entry)}
    (hinner : FileTree.lookup place (Path.join root (Text.joined "/" names)) =
      .ok (.directory inner)) (m n : ℕ) :
    let directory := Text.joined "/" names
    let request := Category.slashes m ++ directory ++ Category.slashes n
    (Category.select (discover root (.directory entries)) [request]).entries =
        (discover (Path.join root directory) (.directory inner)).entries.map
          (fun e => (Category.within directory e.1, e.2)) ∧
      (find (FileTree.lookup place) root).selected [request] =
        (find (FileTree.lookup place) (Path.join root directory)).selected [] ∧
      (run (FileTree.lookup place) root [request]).1 =
        (run (FileTree.lookup place) (Path.join root directory) []).1 ∧
      ∀ path inside, Text.encode path = root → Text.encode inside = Path.join root directory →
        IsWord path → IsWord inside →
        read ["test", inside] = .ok ⟨true, 0, .check inside []⟩ ∧
          (IsWord request →
            read ["test", path, "-c", request] = .ok ⟨true, 0, .check path [request]⟩ ∧
              ∀ environment,
                (Program.run (FileTree.lookup place) environment ["test", path, "-c", request]).code =
                  (Program.run (FileTree.lookup place) environment ["test", inside]).code) ∧
          (¬IsWord request → ∃ refusal, read ["test", path, "-c", request] = .error refusal) := by
  intro directory request
  have hbytes : Path.join root directory = Path.join root (Path.joined (names.map Text.encode)) := by
    rw [← Path.encode_joined]
  have hproper : ∀ name ∈ names.map Text.encode, ProperName name := List.forall_mem_map.mpr hnames
  have contains : Contains entries (names.map Text.encode) inner :=
    FileTree.contains_of_lookup h (by simpa using hne) hproper (hbytes ▸ hinner)
  have hselect := select_discover_within (FileTree.proper_of_lookup hplace h) contains plain hne
    inText hnames root m n
  have hselected : (find (FileTree.lookup place) root).selected [request] =
      (find (FileTree.lookup place) (Path.join root directory)).selected [] := by
    rw [find_of_directory h, find_of_directory hinner, selected_categorized, selected_categorized,
      NameMap.members, hselect, List.flatMap_map]
    rfl
  have hgroups {path : Bytes} {requests : List String} {g : FixtureGroup}
      (hg : g ∈ (find (FileTree.lookup place) path).groups requests) : g.fixtures ≠ [] :=
    ne_nil_of_mem_groups (fun _ => FileTree.proper_of_lookup hplace) hg
  have hcode : (run (FileTree.lookup place) root [request]).1 =
      (run (FileTree.lookup place) (Path.join root directory) []).1 := by
    rw [code_run_eq fun g => hgroups, code_run_eq fun g => hgroups, hselected]
  refine ⟨hselect, hselected, hcode, ?_⟩
  intro path inside hroot hdirectory hpath hinside
  have hnone : ∀ request ∈ ([] : List String), IsWord request := by simp
  have hread := read_check hinside hnone
  refine ⟨hread, ?_, read_check_eq_error hpath⟩
  intro hrequest
  have hread' := read_check hpath (List.forall_mem_singleton.mpr hrequest)
  refine ⟨hread', ?_⟩
  intro environment
  rw [← hdirectory, ← hroot] at hcode
  exact (Program.code_of_check hread' rfl).trans (hcode.trans (Program.code_of_check hread rfl).symm)

/-- Directories whose names begin alike, and a request with slashes around it. -/
theorem select_within_alike :
    let place : FileTree.Place := ⟨[("fx", .directory [
      ("a", .directory [("b", .directory [("x.test.toml", .file none)]),
        ("y.test.toml", .file (some ""))]),
      ("a-b", .directory [("z.test.toml", .file none)]), ("ab", .directory [])])], []⟩
    let inner : List (Bytes × Entry) := [
      ("b", .directory [("x.test.toml", .file (.error .notText))]), ("y.test.toml", .file (.ok ""))]
    let entries : List (Bytes × Entry) := [("a", .directory inner),
      ("a-b", .directory [("z.test.toml", .file (.error .notText))]), ("ab", .directory [])]
    place.Proper ∧ FileTree.lookup place "fx" = .ok (.directory entries) ∧
      FileTree.lookup place "fx/a" = .ok (.directory inner) ∧ InText entries ∧
      WithoutBackslash entries ∧
      (Category.select (discover "fx" (.directory entries)) ["/a//"]).entries =
        (discover "fx/a" (.directory inner)).entries.map
          (fun e => (Category.within "a" e.1, e.2)) ∧
      ∀ environment,
        (Program.run (FileTree.lookup place) environment ["test", "fx", "-c", "/a//"]).code =
          (Program.run (FileTree.lookup place) environment ["test", "fx/a"]).code := by
  intro place inner entries
  have hproper : place.Proper := by decide +kernel
  have hentries : FileTree.lookup place "fx" = .ok (.directory entries) := by cbv
  have hinner : FileTree.lookup place "fx/a" = .ok (.directory inner) := by cbv
  have hends : Text.endsWith "x.test.toml" fixtureEnding = true ∧
      Text.endsWith "y.test.toml" fixtureEnding = true ∧
      Text.endsWith "z.test.toml" fixtureEnding = true := by
    decide
  have hfindings : findings entries = [⟨["a", "b"], "x.test.toml", .error .notText⟩,
      ⟨["a"], "y.test.toml", .ok ""⟩, ⟨["a-b"], "z.test.toml", .error .notText⟩] := by
    simp [entries, inner, findings, hends, Finding.below, Entry.read]
  have hall : ∀ f ∈ findings entries, ∀ directory ∈ f.directories,
      Text.encode directory.lossy = directory ∧ '\\' ∉ directory.lossy.toList := by
    rw [hfindings]
    decide +kernel
  have inText : InText entries := fun f hf d hd => (hall f (mem_findings_iff.mpr hf) d hd).1
  have plain : WithoutBackslash entries :=
    fun f hf d hd => (hall f (mem_findings_iff.mpr hf) d hd).2
  obtain ⟨hselect, -, -, hlines⟩ := select_within hproper hentries inText plain
    (show ["a"] ≠ [] by decide) (by decide +kernel) hinner 1 2
  obtain ⟨-, hrequest, -⟩ := hlines "fx" "fx/a" rfl (by decide +kernel) (by decide) (by decide)
  exact ⟨hproper, hentries, hinner, inText, plain, hselect, (hrequest (by decide +kernel)).2⟩

/-- A directory named by the mark for what is no character, and one beside it that is shown by that mark: a
request for the first runs what is found in the second. A third directory has a name that is taken for a
switch. -/
theorem select_within_shown_alike :
    let mark : Bytes := [0xEF, 0xBF, 0xBD]
    let place : FileTree.Place := ⟨[("fx", .directory [
      (mark, .directory [("x.test.toml", .file none)]),
      ([0xFF], .directory [("y.test.toml", .file none)]),
      ("-v", .directory [("z.test.toml", .file none)])])], []⟩
    let y : Fixture := ⟨Path.join (Path.join "fx" [0xFF]) "y.test.toml", .error .notText⟩
    y ∈ (find (FileTree.lookup place) "fx").selected ["\uFFFD"] ∧
      y ∉ (find (FileTree.lookup place) (Path.join "fx" mark)).selected [] ∧
      ⟨"fx/-v/z.test.toml", .error .notText⟩ ∈ (find (FileTree.lookup place) "fx/-v").selected [] ∧
      ∃ refusal, read ["test", "fx", "-c", "-v"] = .error refusal := by
  intro mark place y
  have hplace : place.Proper := by decide +kernel
  let g : Finding := ⟨[[0xFF]], "y.test.toml", .error .notText⟩
  let entries : List (Bytes × Entry) := [
    (mark, .directory [("x.test.toml", .file (.error .notText))]),
    ([0xFF], .directory [("y.test.toml", .file (.error .notText))]),
    ("-v", .directory [("z.test.toml", .file (.error .notText))])]
  have hroot : FileTree.lookup place "fx" = .ok (.directory entries) := by cbv
  have hmark : FileTree.lookup place (Path.join "fx" mark) =
      .ok (.directory [("x.test.toml", .file (.error .notText))]) := by
    cbv
  have hswitch : FileTree.lookup place "fx/-v" =
      .ok (.directory [("z.test.toml", .file (.error .notText))]) := by
    cbv
  refine ⟨?_, ?_, ?_, read_check_eq_error (by decide) (by decide)⟩
  · rw [mem_selected_find_iff hplace hroot]
    have hfound : Finds entries g :=
      .inside (List.mem_cons_of_mem _ List.mem_cons_self) (.here List.mem_cons_self rfl ⟨"y", rfl⟩)
    refine ⟨g, hfound, ?_, rfl⟩
    exact .inr ⟨_, List.mem_singleton_self _, by decide +kernel⟩
  · rw [mem_selected_find_iff hplace hmark]
    intro h
    obtain ⟨f, hf, -, hfixture⟩ := h
    cases hf with
    | here hmem =>
        cases List.mem_singleton.mp hmem
        exact absurd (congrArg Fixture.path hfixture) (by decide +kernel)
    | inside hmem => cases List.mem_singleton.mp hmem
  · rw [mem_selected_find_iff hplace hswitch]
    refine ⟨_, .here List.mem_cons_self rfl ⟨"z", rfl⟩, .inl rfl, ?_⟩
    exact congrArg (Fixture.mk · _) (by decide +kernel)

end Suite

end BlockOutline
