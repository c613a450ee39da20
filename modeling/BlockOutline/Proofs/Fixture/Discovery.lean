import Mathlib.Data.List.Permutation
import BlockOutline.Fixture.Discovery
import BlockOutline.Proofs.Files.Subdirectories
import BlockOutline.Proofs.NameMap

/-! # Finding fixtures

Every fixture file below a root is found once, in the category of its directory. Neither the order in
which directories are listed nor the spelling of the root matters. -/

namespace BlockOutline

/-- A fixture file below a directory: the directories that lead to it, its name, and what is read
from it. -/
structure Finding where
  directories : List Bytes
  name : Bytes
  text : Except ReadError String

namespace Finding

/-- All names on the way, that of the file last. -/
def names (f : Finding) : List Bytes :=
  f.directories ++ [f.name]

def below (directory : Bytes) (f : Finding) : Finding :=
  { f with directories := directory :: f.directories }

def path (root : Bytes) (f : Finding) : Bytes :=
  Path.join (f.directories.foldl Path.join root) f.name

def fixture (root : Bytes) (f : Finding) : Fixture :=
  ⟨f.path root, f.text⟩

/-- The names of the directories as they are shown, with slashes between them and for every backslash in
them. -/
def category (f : Finding) : String :=
  Text.replace '\\' '/' (Text.joined "/" (f.directories.map Bytes.lossy))

def components (f : Finding) : List Component :=
  f.names.map .name

theorem components_injective {f g : Finding} (h : f.components = g.components) :
    f.names = g.names :=
  List.map_injective_iff.mpr (fun _ _ hname => by cases hname; rfl) h

end Finding

namespace Fixture

/-! ## Files below a directory -/

theorem isNamed_iff {name : Bytes} :
    isNamed name = true ↔ ∃ stem, name = Text.encode (stem ++ fixtureEnding) := by
  rw [isNamed, Option.any_eq_true]
  constructor
  · intro h
    obtain ⟨text, htext, hend⟩ := h
    obtain ⟨stem, hstem⟩ := List.isSuffixOf_iff_suffix.mp hend
    have hsplit : text = String.ofList stem ++ fixtureEnding := by
      rw [← String.toList_inj, ← hstem]
      simp
    exact ⟨String.ofList stem, by rw [← hsplit, Bytes.text?_eq_some_iff.mp htext]⟩
  · intro h
    obtain ⟨stem, rfl⟩ := h
    refine ⟨_, Bytes.text?_encode _, ?_⟩
    simp [Text.endsWith]

@[simp] theorem isNamed_encode (name : String) :
    isNamed name = Text.endsWith name fixtureEnding := by
  simp [isNamed]

/-- What there is to find below a directory: what is no directory and has a text for a name that ends as
that of a fixture, whatever the names of the directories that lead to it. -/
inductive Finds : List (Bytes × Entry) → Finding → Prop where
  | here {entries name entry} (h : (name, entry) ∈ entries) (file : entry.isDirectory = false)
      (named : ∃ stem : String, name = Text.encode (stem ++ fixtureEnding)) :
      Finds entries ⟨[], name, entry.read⟩
  | inside {entries directory inner f} (h : (directory, .directory inner) ∈ entries)
      (hf : Finds inner f) : Finds entries (f.below directory)

/-- The files of `Finds`, in the order in which they are met. -/
def findings : List (Bytes × Entry) → List Finding
  | [] => []
  | (name, .directory entries) :: rest =>
    (findings entries).map (Finding.below name) ++ findings rest
  | (_, .closed _) :: rest => findings rest
  | (name, entry) :: rest =>
    (if isNamed name then [⟨[], name, entry.read⟩] else []) ++ findings rest

theorem collect_eq_map (directory : Bytes) (entries : List (Bytes × Entry)) :
    collect directory entries = (findings entries).map (Finding.fixture directory) := by
  fun_induction findings entries generalizing directory with
  | case1 => simp [collect]
  | case2 name entries rest ih₁ ih₂ =>
      rw [collect, ih₁, ih₂, List.map_append, List.map_map]
      rfl
  | case3 name error rest ih => rw [collect, ih]
  | case4 name entry rest hopen hclosed ih =>
      rw [collect, ih, List.map_append, candidate?]
      · split <;> rfl
      · exact hopen
      · exact hclosed

/-- What is found of one entry of a directory. -/
def findingsAt (name : Bytes) (entry : Entry) : List Finding :=
  findings [(name, entry)]

theorem findingsAt_directory (name : Bytes) (entries : List (Bytes × Entry)) :
    findingsAt name (.directory entries) = (findings entries).map (Finding.below name) := by
  simp [findingsAt, findings]

theorem findingsAt_closed (name : Bytes) (error : ReadError) :
    findingsAt name (.closed error) = [] := by
  simp [findingsAt, findings]

theorem findingsAt_file {name : Bytes} {entry : Entry} (h : entry.isDirectory = false) :
    findingsAt name entry = if isNamed name then [⟨[], name, entry.read⟩] else [] := by
  cases entry with
  | file text => simp [findingsAt, findings]
  | device text => simp [findingsAt, findings]
  | directory entries => cases h
  | closed error => cases h

theorem findings_eq_flatMap (entries : List (Bytes × Entry)) :
    findings entries = entries.flatMap fun entry => findingsAt entry.1 entry.2 := by
  induction entries with
  | nil => simp [findings]
  | cons entry rest ih =>
      obtain ⟨name, entry⟩ := entry
      rw [List.flatMap_cons, ← ih]
      cases entry with
      | file text => simp [findings, findingsAt]
      | device text => simp [findings, findingsAt]
      | directory entries => simp [findings, findingsAt]
      | closed error => simp [findings, findingsAt]

theorem Finds.cons {entries : List (Bytes × Entry)} {f : Finding} (h : Finds entries f)
    (entry : Bytes × Entry) : Finds (entry :: entries) f := by
  cases h with
  | here hmem file named => exact .here (List.mem_cons_of_mem _ hmem) file named
  | inside hmem hf => exact .inside (List.mem_cons_of_mem _ hmem) hf

theorem mem_findings_iff {entries : List (Bytes × Entry)} {f : Finding} :
    f ∈ findings entries ↔ Finds entries f := by
  constructor
  · intro h
    fun_induction findings entries generalizing f with
    | case1 => cases h
    | case2 name entries rest ih₁ ih₂ =>
        rcases List.mem_append.mp h with h | h
        · obtain ⟨g, hg, rfl⟩ := List.mem_map.mp h
          exact .inside List.mem_cons_self (ih₁ hg)
        · exact (ih₂ h).cons _
    | case3 name error rest ih => exact (ih h).cons _
    | case4 name entry rest hopen hclosed ih =>
        rcases List.mem_append.mp h with h | h
        · split at h
          · next hnamed =>
            rw [List.mem_singleton.mp h]
            refine .here List.mem_cons_self ?_ (isNamed_iff.mp hnamed)
            cases entry with
            | directory inner => exact absurd rfl (hopen inner)
            | closed error => exact absurd rfl (hclosed error)
            | _ => rfl
          · cases h
        · exact (ih h).cons _
  · intro h
    induction h with
    | @here entries name entry h file named =>
        rw [findings_eq_flatMap]
        refine List.mem_flatMap.mpr ⟨_, h, ?_⟩
        rw [findingsAt_file file, if_pos (isNamed_iff.mpr named)]
        exact List.mem_singleton_self _
    | inside h _ ih =>
        rw [findings_eq_flatMap]
        refine List.mem_flatMap.mpr ⟨_, h, ?_⟩
        rw [findingsAt_directory]
        exact List.mem_map_of_mem ih

/-! ## Each file once -/

theorem Finds.proper {entries : List (Bytes × Entry)} {f : Finding} (h : Finds entries f)
    (proper : (Entry.directory entries).Proper) : ∀ name ∈ f.names, ProperName name := by
  induction h with
  | here h =>
      cases proper with
      | directory names below =>
          intro name hn
          rw [List.mem_singleton.mp hn]
          exact names.proper _ (List.mem_map_of_mem h)
  | inside h _ ih =>
      cases proper with
      | directory names below =>
          intro name hn
          rcases List.mem_cons.mp hn with rfl | hn
          · exact names.proper _ (List.mem_map_of_mem h)
          · exact ih (below _ h) name hn

theorem head_names_of_mem_findingsAt {name : Bytes} {entry : Entry} {f : Finding}
    (h : f ∈ findingsAt name entry) : f.names.head? = some name := by
  cases mem_findings_iff.mp h with
  | here hmem =>
      cases List.mem_singleton.mp hmem
      rfl
  | inside hmem =>
      cases List.mem_singleton.mp hmem
      rfl

/-- No two files that are found have the same names on their ways. -/
theorem nodup_findings {e : Entry} (proper : e.Proper) :
    ∀ entries, e = .directory entries → ((findings entries).map Finding.names).Nodup := by
  induction proper with
  | file text => simp
  | device text => simp
  | closed error => simp
  | @directory entries names _ ih =>
      rintro _ ⟨⟩
      rw [findings_eq_flatMap, List.map_flatMap, List.nodup_flatMap]
      constructor
      · rintro ⟨name, entry⟩ hmem
        cases entry with
        | directory inner =>
            have hinner := ih _ hmem inner rfl
            rw [findingsAt_directory, List.map_map]
            have hbelow : Finding.names ∘ Finding.below name = (name :: ·) ∘ Finding.names := rfl
            rw [hbelow, ← List.map_map]
            exact hinner.map fun _ _ h => (List.cons.inj h).2
        | closed error => simp [findingsAt_closed]
        | _ =>
            rw [findingsAt_file rfl]
            split <;> simp
      · -- Files of different entries differ in the first name.
        refine (List.pairwise_map.mp names.nodup).imp ?_
        intro a b hne ns hns hns'
        obtain ⟨f, hf, rfl⟩ := List.mem_map.mp hns
        obtain ⟨g, hg, hnames⟩ := List.mem_map.mp hns'
        have hhead := head_names_of_mem_findingsAt hf
        rw [← hnames, head_names_of_mem_findingsAt hg] at hhead
        exact hne (Option.some.inj hhead).symm

theorem eq_of_findings {entries : List (Bytes × Entry)}
    (proper : (Entry.directory entries).Proper) {f g : Finding} (hf : f ∈ findings entries)
    (hg : g ∈ findings entries) (h : f.names = g.names) : f = g :=
  List.inj_on_of_nodup_map (nodup_findings proper entries rfl) hf hg h

/-! ## The order of listing -/

theorem Finds.reorder {entries entries' : List (Bytes × Entry)} {f : Finding}
    (h : Finds entries f) (same : Entry.SameButOrder (.directory entries) (.directory entries')) :
    Finds entries' f := by
  induction h generalizing entries' with
  | @here entries name entry h file named =>
      obtain ⟨⟨name', entry'⟩, h', hname, hsame⟩ := same.exists_mem h
      obtain rfl : name = name' := hname
      cases hsame with
      | file text => exact .here h' file named
      | device text => exact .here h' file named
      | closed error => cases file
      | directory => cases file
  | inside h _ ih =>
      obtain ⟨⟨name', entry'⟩, h', hname, hsame⟩ := same.exists_mem h
      obtain rfl := hname
      have hinner := hsame
      cases hsame with
      | directory => exact .inside h' (ih hinner)

theorem perm_findings {entries entries' : List (Bytes × Entry)}
    (proper : (Entry.directory entries).Proper)
    (same : Entry.SameButOrder (.directory entries) (.directory entries')) :
    (findings entries).Perm (findings entries') := by
  have hnodup := nodup_findings proper entries rfl
  have hnodup' := nodup_findings (same.proper proper) entries' rfl
  refine (List.perm_ext_iff_of_nodup (hnodup.of_map _) (hnodup'.of_map _)).mpr ?_
  intro f
  rw [mem_findings_iff, mem_findings_iff]
  exact ⟨fun h => h.reorder same, fun h => h.reorder same.symm⟩

/-! ## Categories -/

theorem components_path {root : Bytes} {f : Finding}
    (proper : ∀ name ∈ f.names, ProperName name) :
    Path.components (f.path root) = Path.components root ++ f.components := by
  have hdirectories := fun name hn => proper name (List.mem_append_left _ hn)
  have hname := proper f.name (by simp [Finding.names])
  rw [Finding.path, Path.components_join _ hname, Path.components_foldl_join root hdirectories]
  simp [Finding.components, Finding.names]

theorem bytes_names (directories : List Bytes) :
    (directories.map Component.name).map Component.bytes = directories := by
  simp [Function.comp_def, Component.bytes]

theorem below?_path {root : Bytes} {f : Finding} (proper : ∀ name ∈ f.names, ProperName name) :
    Path.below? root (f.path root) = some (f.directories.map .name) := by
  rw [Path.below?, components_path proper, Finding.components, Finding.names, List.map_append,
    ← List.append_assoc, List.map_singleton, List.dropLast_concat, Path.dropBeginning?_append]

/-- However the root is spelled, it is taken off the path of what is found below it. -/
theorem category_path {root : Bytes} {f : Finding}
    (proper : ∀ name ∈ f.names, ProperName name) : category root (f.path root) = f.category := by
  rw [category, below?_path proper]
  dsimp only
  rw [bytes_names, Path.lossy_joined, Finding.category]

/-- The order of files below one directory. -/
def sortFindings (fs : List Finding) : List Finding :=
  fs.mergeSort fun f g => Path.atMost f.components g.components

theorem perm_sortFindings (fs : List Finding) : (sortFindings fs).Perm fs :=
  List.mergeSort_perm fs _

theorem mem_sortFindings {fs : List Finding} {f : Finding} : f ∈ sortFindings fs ↔ f ∈ fs :=
  (perm_sortFindings fs).mem_iff

theorem sorted_sortFindings (fs : List Finding) :
    (sortFindings fs).Pairwise fun f g => Path.atMost f.components g.components = true := by
  refine List.pairwise_mergeSort ?_ ?_ fs
  · intro f g h
    exact Path.atMost_trans
  · intro f g
    exact Path.atMost_total f.components g.components

/-- Files with different names have one order only. -/
theorem sortFindings_eq_of_perm {fs gs : List Finding}
    (hinj : ∀ f ∈ fs, ∀ g ∈ gs, f.names = g.names → f = g) (h : fs.Perm gs) :
    sortFindings fs = sortFindings gs := by
  have hperm := (perm_sortFindings fs).trans (h.trans (perm_sortFindings gs).symm)
  refine hperm.eq_of_pairwise ?_ (sorted_sortFindings fs) (sorted_sortFindings gs)
  intro f g hf hg hfg hgf
  refine hinj f (mem_sortFindings.mp hf) g (mem_sortFindings.mp hg) ?_
  exact Finding.components_injective (Path.atMost_antisymm hfg hgf)

theorem sort_map {root : Bytes} {fs : List Finding}
    (proper : ∀ f ∈ fs, ∀ name ∈ f.names, ProperName name) :
    sort (fs.map (Finding.fixture root)) = (sortFindings fs).map (Finding.fixture root) := by
  rw [sort, sortFindings, List.map_mergeSort]
  intro f hf g hg
  rw [Path.le, Finding.fixture, Finding.fixture, components_path (proper f hf),
    components_path (proper g hg), Path.atMost_append]

theorem discover_eq_empty {root : Bytes} {entries : List (Bytes × Entry)} (h : findings entries = []) :
    discover root (.directory entries) = .empty := by
  rw [discover, collect_eq_map, h]
  rfl

/-- In each category there are the files of that category, sorted. -/
theorem find?_discover {root : Bytes} {entries : List (Bytes × Entry)}
    (proper : (Entry.directory entries).Proper) (k : String) :
    (discover root (.directory entries)).find? k =
      let fs := (findings entries).filter (·.category = k)
      if fs = [] then none else some ((sortFindings fs).map (Finding.fixture root)) := by
  have hproper : ∀ f ∈ findings entries, ∀ name ∈ f.names, ProperName name :=
    fun f hf => (mem_findings_iff.mp hf).proper proper
  have hfilter : (collect root entries).filter (category root ·.path = k) =
      ((findings entries).filter (·.category = k)).map (Finding.fixture root) := by
    rw [collect_eq_map, List.filter_map]
    congr 1
    refine List.filter_congr ?_
    intro f hf
    simp [Finding.fixture, category_path (hproper f hf)]
  rw [discover, NameMap.find?_mapValues,
    NameMap.find?_foldl_append (fun f : Fixture => category root f.path), hfilter]
  dsimp only
  split
  · next hnil => simp [List.map_eq_nil_iff.mp hnil]
  · next hne =>
    rw [if_neg fun hnil => hne (by rw [hnil, List.map_nil])]
    have hsort : sort (((findings entries).filter (·.category = k)).map (Finding.fixture root)) =
        (sortFindings ((findings entries).filter (·.category = k))).map (Finding.fixture root) :=
      sort_map fun f hf => hproper f (List.mem_filter.mp hf).1
    simp [hsort]

/-- The fixtures below a root by category: what is found there and nothing else, each path once in one
list, every list sorted and none of them empty. -/
structure Categorizes (root : Bytes) (entries : List (Bytes × Entry))
    (m : NameMap (List Fixture)) : Prop where
  mem_iff : ∀ k x, (∃ xs, m.find? k = some xs ∧ x ∈ xs) ↔
    ∃ f, Finds entries f ∧ f.category = k ∧ f.fixture root = x
  once : (m.members.map fun x => Path.components x.path).Nodup
  nonempty : ∀ k xs, m.find? k = some xs → xs ≠ []
  sorted : ∀ k xs, m.find? k = some xs → xs.Pairwise fun x y => Path.le x.path y.path = true

section Found

variable {root : Bytes} {entries : List (Bytes × Entry)}
  (proper : (Entry.directory entries).Proper)

include proper

theorem find?_discover_eq_some_iff {k : String} {xs : List Fixture} :
    (discover root (.directory entries)).find? k = some xs ↔
      (findings entries).filter (·.category = k) ≠ [] ∧
        (sortFindings ((findings entries).filter (·.category = k))).map (Finding.fixture root) =
          xs := by
  rw [find?_discover proper]
  dsimp only
  split <;> simp_all

theorem mem_discover_iff {k : String} {x : Fixture} :
    (∃ xs, (discover root (.directory entries)).find? k = some xs ∧ x ∈ xs) ↔
      ∃ f, Finds entries f ∧ f.category = k ∧ f.fixture root = x := by
  simp only [find?_discover_eq_some_iff proper]
  constructor
  · rintro ⟨_, ⟨-, rfl⟩, hx⟩
    obtain ⟨f, hf, rfl⟩ := List.mem_map.mp hx
    obtain ⟨hf, hk⟩ := List.mem_filter.mp (mem_sortFindings.mp hf)
    exact ⟨f, mem_findings_iff.mp hf, by simpa using hk, rfl⟩
  · rintro ⟨f, hf, hk, rfl⟩
    have hmem : f ∈ (findings entries).filter (·.category = k) :=
      List.mem_filter.mpr ⟨mem_findings_iff.mpr hf, by simpa using hk⟩
    exact ⟨_, ⟨List.ne_nil_of_mem hmem, rfl⟩, List.mem_map_of_mem (mem_sortFindings.mpr hmem)⟩

theorem eq_of_components_path {f g : Finding} (hf : Finds entries f) (hg : Finds entries g)
    (h : Path.components (f.path root) = Path.components (g.path root)) : f = g := by
  rw [components_path (hf.proper proper), components_path (hg.proper proper)] at h
  have hnames := Finding.components_injective (List.append_cancel_left h)
  exact eq_of_findings proper (mem_findings_iff.mpr hf) (mem_findings_iff.mpr hg) hnames

/-- A path that is found tells its category, so no list shares one with another. -/
theorem nodup_discover :
    ((discover root (.directory entries)).members.map fun x => Path.components x.path).Nodup := by
  rw [NameMap.members, List.map_flatMap, List.nodup_flatMap]
  have hfound {e : String × List Fixture} (he : e ∈ (discover root (.directory entries)).entries) :=
    (find?_discover_eq_some_iff proper).mp ((NameMap.find?_eq_some_iff _).mpr he)
  constructor
  · intro e he
    obtain ⟨-, hxs⟩ := hfound he
    have hnodup : (findings entries).Nodup := (nodup_findings proper entries rfl).of_map _
    rw [← hxs, List.map_map]
    refine List.Nodup.map_on ?_ ((perm_sortFindings _).nodup_iff.mpr (hnodup.filter _))
    intro f hf g hg h
    have hmem {f} (hf : f ∈ sortFindings ((findings entries).filter (·.category = e.1))) :=
      mem_findings_iff.mp (List.mem_filter.mp (mem_sortFindings.mp hf)).1
    exact eq_of_components_path proper (hmem hf) (hmem hg) h
  · refine (discover root (.directory entries)).ascending.imp_of_mem ?_
    intro a b ha hb hlt p hpa hpb
    obtain ⟨x, hx, rfl⟩ := List.mem_map.mp hpa
    obtain ⟨y, hy, hxy⟩ := List.mem_map.mp hpb
    have hfind {e} (he : e ∈ (discover root (.directory entries)).entries) :=
      (NameMap.find?_eq_some_iff (discover root (.directory entries))).mpr he
    obtain ⟨f, hf, hcategory, rfl⟩ := (mem_discover_iff proper).mp ⟨_, hfind ha, hx⟩
    obtain ⟨g, hg, hcategory', rfl⟩ := (mem_discover_iff proper).mp ⟨_, hfind hb, hy⟩
    obtain rfl := eq_of_components_path proper hg hf hxy
    rw [← hcategory, ← hcategory'] at hlt
    exact String.lt_irrefl _ hlt

theorem categorizes_discover : Categorizes root entries (discover root (.directory entries)) := by
  refine ⟨fun k x => mem_discover_iff proper, nodup_discover proper, ?_, ?_⟩
  · intro k xs h
    obtain ⟨hne, rfl⟩ := (find?_discover_eq_some_iff proper).mp h
    intro hnil
    have hempty := (perm_sortFindings ((findings entries).filter (·.category = k))).symm
    rw [List.map_eq_nil_iff.mp hnil] at hempty
    exact hne hempty.eq_nil
  · intro k xs h
    obtain ⟨-, rfl⟩ := (find?_discover_eq_some_iff proper).mp h
    refine List.pairwise_map.mpr ((sorted_sortFindings _).imp_of_mem ?_)
    intro f g hf hg hle
    have hproper {f} (hf : f ∈ sortFindings ((findings entries).filter (·.category = k))) :=
      (mem_findings_iff.mp (List.mem_filter.mp (mem_sortFindings.mp hf)).1).proper proper
    rw [Path.le, Finding.fixture, Finding.fixture, components_path (hproper hf),
      components_path (hproper hg), Path.atMost_append]
    exact hle

/-- Listed in another order, a directory has the same fixtures. -/
theorem discover_reorder {entries' : List (Bytes × Entry)}
    (same : Entry.SameButOrder (.directory entries) (.directory entries')) :
    discover root (.directory entries') = discover root (.directory entries) := by
  refine NameMap.ext_find? fun k => ?_
  have hperm := (perm_findings proper same).filter (·.category = k)
  have hsort : sortFindings ((findings entries).filter (·.category = k)) =
      sortFindings ((findings entries').filter (·.category = k)) := by
    refine sortFindings_eq_of_perm ?_ hperm
    intro f hf g hg
    have hg' := hperm.mem_iff.mpr hg
    exact eq_of_findings proper (List.mem_filter.mp hf).1 (List.mem_filter.mp hg').1
  have hempty : (findings entries).filter (·.category = k) = [] ↔
      (findings entries').filter (·.category = k) = [] :=
    ⟨fun h => (h ▸ hperm).symm.eq_nil, fun h => (h ▸ hperm).eq_nil⟩
  rw [find?_discover proper, find?_discover (same.proper proper)]
  simp only [hempty, hsort]

/-- The names that lead to a fixture from a root, and what is read from it. -/
def relative (root : Bytes) (x : Fixture) : Option (List Component) × Except ReadError String :=
  (Text.dropBeginning? (Path.components root) (Path.components x.path), x.text)

/-- Seen from the root, the fixtures are the same however the root is spelled. -/
theorem relative_discover (root' : Bytes) :
    (discover root' (.directory entries)).mapValues (·.map (relative root')) =
      (discover root (.directory entries)).mapValues (·.map (relative root)) := by
  refine NameMap.ext_find? fun k => ?_
  have hrelative (root : Bytes) (f : Finding) (hf : Finds entries f) :
      relative root (f.fixture root) = (some f.components, f.text) := by
    rw [relative, Finding.fixture, components_path (hf.proper proper),
      Path.dropBeginning?_append]
  have hlist (root : Bytes) :
      (((sortFindings ((findings entries).filter (·.category = k))).map (Finding.fixture root)).map
        (relative root)) =
      (sortFindings ((findings entries).filter (·.category = k))).map
        fun f => (some f.components, f.text) := by
    rw [List.map_map]
    refine List.map_congr_left ?_
    intro f hf
    exact hrelative root f
      (mem_findings_iff.mp (List.mem_filter.mp (mem_sortFindings.mp hf)).1)
  rw [NameMap.find?_mapValues, NameMap.find?_mapValues, find?_discover proper,
    find?_discover proper]
  dsimp only
  split
  · rfl
  · rw [Option.map_some, Option.map_some, hlist, hlist]

end Found

/-- Below a directory each fixture file is found once, in the category of its directory and in the
order of paths, and nothing else; this depends neither on the order in which directories are listed
nor on the spelling of the root. -/
theorem discover_categorizes {place : FileTree.Place} (hplace : place.Proper) {root : Bytes}
    {entries : List (Bytes × Entry)}
    (h : FileTree.lookup place root = .ok (.directory entries)) :
    Categorizes root entries (discover root (.directory entries)) ∧
      (∀ entries', Entry.SameButOrder (.directory entries) (.directory entries') →
        discover root (.directory entries') = discover root (.directory entries)) ∧
      ∀ root' entries', FileTree.SameDirectory place root root' →
        FileTree.lookup place root' = .ok (.directory entries') →
        (Entry.directory entries).Readable → (Entry.directory entries').Readable →
        (discover root' (.directory entries')).mapValues (·.map (relative root')) =
          (discover root (.directory entries)).mapValues (·.map (relative root)) := by
  have proper := FileTree.proper_of_lookup hplace h
  refine ⟨categorizes_discover proper, fun _ => discover_reorder proper, ?_⟩
  intro root' entries' hsame h' hreadable hreadable'
  cases FileTree.entries_eq_of_sameDirectory hsame h h' hreadable hreadable'
  exact relative_discover proper root'

/-- A directory named like a fixture, with a backslash in its name, below a root in two spellings. -/
theorem discover_categorizes_backslash :
    let place : FileTree.Place := ⟨[("fx", .directory [("a\\b.test.toml", .directory
      [("x.test.toml", .file (some ""))]), ("y.test.toml", .file none)])], []⟩
    let seen : Entry := .directory [("a\\b.test.toml", .directory [("x.test.toml", .file (.ok ""))]),
      ("y.test.toml", .file (.error .notText))]
    FileTree.lookup place "fx/" = .ok seen ∧ FileTree.lookup place "./fx/../fx//" = .ok seen ∧
      (∃ xs, (discover "fx/" seen).find? "a/b.test.toml" = some xs ∧
        ⟨"fx/a\\b.test.toml/x.test.toml", .ok ""⟩ ∈ xs) ∧
      (discover "./fx/../fx//" seen).mapValues (·.map (relative "./fx/../fx//")) =
        (discover "fx/" seen).mapValues (·.map (relative "fx/")) := by
  intro place seen
  have hproper : place.Proper := by decide +kernel
  have hreadable : seen.Readable := by
    refine .directory ?_
    simp only [List.mem_cons, List.not_mem_nil, or_false, forall_eq_or_imp, forall_eq]
    refine ⟨.directory ?_, .file (by simp) (by simp)⟩
    simp only [List.mem_singleton, forall_eq]
    exact .file (by simp) (by simp)
  have hseen : FileTree.lookup place "fx/" = .ok seen := by cbv
  let q : FileTree.Place := place.enter [("a\\b.test.toml", .directory
    [("x.test.toml", .file (some ""))]), ("y.test.toml", .file none)]
  have hres : FileTree.resolve FileTree.linkLimit place (Path.steps "fx/") =
      .ok (.directory q, FileTree.linkLimit) := by
    cbv
  have hres' : FileTree.resolve FileTree.linkLimit place (Path.steps "./fx/../fx//") =
      .ok (.directory q, FileTree.linkLimit) := by
    cbv
  have hseen' : FileTree.lookup place "./fx/../fx//" = .ok seen := by cbv
  have hsame : FileTree.SameDirectory place "fx/" "./fx/../fx//" := ⟨q, _, _, hres, hres'⟩
  obtain ⟨found, -, spelled⟩ := discover_categorizes hproper hseen
  refine ⟨hseen, hseen', (found.mem_iff _ _).mpr ?_,
    spelled _ _ hsame hseen' hreadable hreadable⟩
  have hx : Finds [("x.test.toml", .file (.ok ""))] ⟨[], "x.test.toml", .ok ""⟩ :=
    .here List.mem_cons_self rfl ⟨"x", by decide⟩
  refine ⟨_, .inside List.mem_cons_self hx, by decide +kernel, ?_⟩
  exact congrArg (Fixture.mk · _) (by decide +kernel)

/-- A file whose name is no text is passed over. Below a root whose spelling leaves no room for the name of
a directory, the directory is listed like a file. -/
theorem discover_beyond_text_and_length :
    let stray : Bytes := 0xFF :: ".test.toml"
    let place : FileTree.Place := ⟨[("fx", .directory [(stray, .file (some ""))]),
      ("gx", .directory [("d.test.toml", .directory [])])], []⟩
    let long : Bytes := Path.dotted "gx" 2043
    FileTree.lookup place "fx" = .ok (.directory [(stray, .file (.ok ""))]) ∧
      discover "fx" (.directory [(stray, .file (.ok ""))]) = .empty ∧
      FileTree.lookup place "gx" = .ok (.directory [("d.test.toml", .directory [])]) ∧
      discover "gx" (.directory [("d.test.toml", .directory [])]) = .empty ∧
      FileTree.SameDirectory place "gx" long ∧
      FileTree.lookup place long = .ok (.directory [("d.test.toml", .file (.error .nameTooLong))]) ∧
      ∃ xs, (discover long (.directory [("d.test.toml", .file (.error .nameTooLong))])).find? "" =
          some xs ∧
        ⟨Path.join long "d.test.toml", .error .nameTooLong⟩ ∈ xs := by
  intro stray place long
  let q : FileTree.Place := place.enter [("d.test.toml", .directory [])]
  have hproper : place.Proper := by decide +kernel
  have hstray : isNamed stray = false := by decide +kernel
  have hgx : Text.encode "gx" ≠ [] := by decide
  have hres : FileTree.resolve FileTree.linkLimit place (Path.steps "gx") =
      .ok (.directory q, FileTree.linkLimit) := by
    cbv
  have hreslong : FileTree.resolve FileTree.linkLimit place (Path.steps long) =
      .ok (.directory q, FileTree.linkLimit) :=
    FileTree.resolve_dotted hgx hres 2043
  have hlength : long.length = 4088 := (Path.length_dotted "gx" 2043).trans (by decide)
  have hne : long ≠ [] := Path.dotted_ne_nil hgx 2043
  -- Nothing else is used of the long path.
  clear_value long
  refine ⟨by cbv, discover_eq_empty (by simp [findings, hstray]), by cbv,
    discover_eq_empty (by simp [findings]), ⟨q, _, _, hres, hreslong⟩, ?_⟩
  have hfull : ∀ entry ∈ q.here, FileTree.pathLimit < long.length + entry.1.length := by
    rw [hlength]
    decide
  have hseen : FileTree.lookup place long =
      .ok (.directory [("d.test.toml", .file (.error .nameTooLong))]) :=
    FileTree.lookup_eq_of_full hne (hlength.trans_le (by decide)) hreslong hfull
  let f : Finding := ⟨[], "d.test.toml", .error .nameTooLong⟩
  have hf : Finds [("d.test.toml", .file (.error .nameTooLong))] f :=
    .here List.mem_cons_self rfl ⟨"d", rfl⟩
  exact ⟨hseen, (mem_discover_iff (FileTree.proper_of_lookup hproper hseen)).mpr
    ⟨f, hf, rfl, rfl⟩⟩

end Fixture

end BlockOutline
