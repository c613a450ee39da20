import BlockOutline.Proofs.Files.Entries

/-! # Subdirectories

What is seen at a path that goes on behind a directory is what is seen inside of that directory. -/

namespace BlockOutline

namespace Path

/-! ## Names behind a path -/

theorem join_ne_nil (path : Bytes) {name : Bytes} (proper : ProperName name) :
    join path name ≠ [] ∧ (join path name).getLast? ≠ some slash := by
  obtain ⟨before, hjoin⟩ : ∃ before, join path name = before ++ name := by
    unfold join
    split
    · exact ⟨path, rfl⟩
    · exact ⟨path ++ [slash], by simp⟩
  rw [hjoin]
  constructor
  · intro h
    exact proper.notEmpty (List.append_eq_nil_iff.mp h).2
  · intro hlast
    rw [List.getLast?_append_of_ne_nil _ proper.notEmpty] at hlast
    exact proper.noSlash (List.mem_of_getLast? hlast)

theorem join_eq (path : Bytes) {name : Bytes} (proper : ProperName name) (rest : Bytes) :
    join (join path name) rest = join path name ++ slash :: rest := by
  obtain ⟨hne, hslash⟩ := join_ne_nil path proper
  rw [join, if_neg (not_or.mpr ⟨hne, hslash⟩)]

theorem join_append (path before rest : Bytes) :
    join path (before ++ slash :: rest) = join path before ++ slash :: rest := by
  unfold join
  split <;> simp only [List.append_assoc, List.cons_append]

/-- Names can be put behind a path one by one or all together. -/
theorem foldl_join_eq (path : Bytes) {names : List Bytes} (hne : names ≠ [])
    (proper : ∀ name ∈ names, ProperName name) :
    names.foldl join path = join path (joined names) := by
  induction names generalizing path with
  | nil => exact absurd rfl hne
  | cons name rest ih =>
      by_cases hrest : rest = []
      · subst hrest
        simp
      · have hjoin := ih (join path name) hrest fun n hn => proper n (List.mem_cons_of_mem name hn)
        rw [List.foldl_cons, hjoin, join_eq path (proper name List.mem_cons_self), ← join_append,
          joined_cons name hrest]

theorem length_join (path name : Bytes) :
    (join path name).length = (join path []).length + name.length := by
  unfold join
  split
  · simp
  · simp only [List.length_append, List.length_cons, List.length_nil]
    omega

theorem length_le_join (path : Bytes) : path.length ≤ (join path []).length := by
  unfold join
  split <;> simp

/-- A path that goes on with single dots. -/
def dotted (path : Bytes) (n : ℕ) : Bytes :=
  path ++ (List.replicate n [slash, dot]).flatten

theorem dotted_succ (path : Bytes) (n : ℕ) : dotted path (n + 1) = dotted path n ++ [slash, dot] := by
  simp [dotted, List.replicate_succ']

theorem length_dotted (path : Bytes) (n : ℕ) : (dotted path n).length = path.length + 2 * n := by
  induction n with
  | zero => simp [dotted]
  | succ n ih =>
      rw [dotted_succ, List.length_append, ih]
      rfl

theorem dotted_ne_nil {path : Bytes} (h : path ≠ []) (n : ℕ) : dotted path n ≠ [] := by
  simp [dotted, h]

theorem steps_append_dot {path : Bytes} (h : path ≠ []) :
    steps (path ++ [slash, dot]) = steps path ++ [.current] := by
  have hdot : pieces [dot] = [[dot]] := rfl
  rw [steps_eq, pieces_append_slash, hdot, steps_eq,
    (ofPieces_append (pieces_ne_nil path) (pieces_ne_singleton_nil h) [dot]).1]
  rfl

end Path

namespace FileTree

/-! ## Steps behind a directory -/

/-- Steps that lead to a directory have led to one before their last part. -/
theorem resolve_append_eq_ok {links left : ℕ} {p q : Place} {path path' : List Component}
    (h : resolve links p (path ++ path') = .ok (.directory q, left)) :
    ∃ mid between, resolve links p path = .ok (.directory mid, between) ∧
      resolve between mid path' = .ok (.directory q, left) := by
  fun_induction resolve links p path with
  | case1 links p => exact ⟨p, links, rfl, h⟩
  | case2 links p path ih => exact ih (by simpa [resolve] using h)
  | case3 links p path ih => exact ih (by simpa [resolve] using h)
  | case4 links p path ih => exact ih (by simpa [resolve] using h)
  | case7 links p n path hlength entries hfound ih =>
      exact ih (by simpa [resolve, hlength, hfound] using h)
  | case13 p n path hlength target hfound links ih =>
      exact ih (by simpa [resolve, hlength, hfound, List.append_assoc] using h)
  | case5 links p n path hlength => simp [resolve, hlength] at h
  | case6 links p n path hlength hfound => simp [resolve, hlength, hfound] at h
  | case8 links p n path hlength text hfound _ =>
      simp only [List.cons_append, resolve, hlength, hfound, ite_false] at h
      split at h <;> cases h
  | case9 links p n path hlength text hfound _ =>
      simp only [List.cons_append, resolve, hlength, hfound, ite_false] at h
      split at h <;> cases h
  | case10 links p n path hlength hfound _ =>
      simp only [List.cons_append, resolve, hlength, hfound, ite_false] at h
      split at h <;> cases h
  | case11 links p n path hlength hfound _ =>
      simp only [List.cons_append, resolve, hlength, hfound, ite_false] at h
      split at h <;> cases h
  | case12 p n path hlength target hfound => simp [resolve, hlength, hfound] at h

/-- Steps behind a directory start from there. -/
theorem resolve_append {links between : ℕ} {p mid : Place} {path : List Component}
    (h : resolve links p path = .ok (.directory mid, between)) (path' : List Component) :
    resolve links p (path ++ path') = resolve between mid path' := by
  fun_induction resolve links p path with
  | case1 links p =>
      cases h
      rfl
  | case2 links p path ih => simpa [resolve] using ih h
  | case3 links p path ih => simpa [resolve] using ih h
  | case4 links p path ih => simpa [resolve] using ih h
  | case7 links p n path hlength entries hfound ih => simpa [resolve, hlength, hfound] using ih h
  | case13 p n path hlength target hfound links ih =>
      simpa [resolve, hlength, hfound, List.append_assoc] using ih h
  | _ => simp_all

/-- Dots at the end of a path stay in its directory, however many there are. -/
theorem resolve_dotted {p q : Place} {path : Bytes} (hne : path ≠ []) {links left : ℕ}
    (h : resolve links p (Path.steps path) = .ok (.directory q, left)) (n : ℕ) :
    resolve links p (Path.steps (Path.dotted path n)) = .ok (.directory q, left) := by
  induction n with
  | zero => simpa [Path.dotted] using h
  | succ n ih =>
      rw [Path.dotted_succ, Path.steps_append_dot (Path.dotted_ne_nil hne n), resolve_append ih,
        resolve, resolve]

theorem mem_of_find? {p : Place} {name : Bytes} {tree : FileTree}
    (h : p.find? name = some tree) : (name, tree) ∈ p.here := by
  obtain ⟨⟨n, t⟩, hentry, rfl⟩ := Option.map_eq_some_iff.mp h
  obtain rfl : n = name := by simpa using List.find?_some hentry
  exact List.mem_of_find?_eq_some hentry

/-- The directory that a name leads to is the one that is seen behind the name. -/
theorem shown_of_resolve {links left : ℕ} {p q : Place} {name : Bytes}
    (h : resolve links p [.name name] = .ok (.directory q, left)) (stop : ℕ) :
    ∃ tree, (name, tree) ∈ p.here ∧
      shown links stop p tree = .directory (follow left (stop + 1) q q.here) := by
  rw [resolve] at h
  split at h
  · cases h
  · split at h
    · cases h
    · next entries hfound =>
      rw [resolve] at h
      cases h
      exact ⟨_, mem_of_find? hfound, rfl⟩
    · simp at h
    · simp at h
    · next target hfound =>
      split at h
      · cases h
      · rw [List.append_nil] at h
        refine ⟨_, mem_of_find? hfound, ?_⟩
        rw [shown, h]

theorem not_directory_of_resolve {links left : ℕ} {p : Place} {path : List Component} {e : Entry}
    (h : resolve links p path = .ok (.entry e, left)) (entries : List (Bytes × Entry)) :
    e ≠ .directory entries := by
  fun_induction resolve links p path with
  | case2 links p path ih => exact ih h
  | case3 links p path ih => exact ih h
  | case4 links p path ih => exact ih h
  | case7 links p n path _ entries _ ih => exact ih h
  | case8 =>
      cases h
      simp [content]
  | case10 =>
      cases h
      simp
  | case13 p n path _ target _ links ih => exact ih h
  | _ => simp_all

theorem lookup_eq_directory_iff {p : Place} {path : Bytes} {entries : List (Bytes × Entry)} :
    lookup p path = .ok (.directory entries) ↔
      path ≠ [] ∧ path.length ≤ pathLimit ∧ ∃ q left,
        resolve linkLimit p (Path.steps path) = .ok (.directory q, left) ∧
          follow left (Path.join path []).length q q.here = entries := by
  constructor
  · intro h
    unfold lookup at h
    split at h
    · cases h
    · next hne =>
      split at h
      · cases h
      · next hlength =>
        refine ⟨hne, Nat.le_of_not_lt hlength, ?_⟩
        split at h
        · cases h
        · next e left hres =>
          cases h
          exact absurd rfl (not_directory_of_resolve hres entries)
        · next q left hres =>
          cases h
          exact ⟨q, left, hres, rfl⟩
  · intro h
    obtain ⟨hne, hlength, q, left, hres, hfollow⟩ := h
    rw [lookup, if_neg hne, if_neg (Nat.not_lt.mpr hlength), hres, ← hfollow]

/-- Where a path leaves no room for a name, only errors are seen behind it. -/
theorem lookup_eq_of_full {p q : Place} {path : Bytes} (hne : path ≠ [])
    (hlength : path.length ≤ pathLimit) {left : ℕ}
    (hres : resolve linkLimit p (Path.steps path) = .ok (.directory q, left))
    (hfull : ∀ entry ∈ q.here, pathLimit < path.length + entry.1.length) :
    lookup p path =
      .ok (.directory (q.here.map fun entry => (entry.1, .file (.error .nameTooLong)))) := by
  refine lookup_eq_directory_iff.mpr ⟨hne, hlength, q, left, hres, ?_⟩
  rw [follow_eq_map]
  refine List.map_congr_left ?_
  intro entry hentry
  have hlong : pathLimit < (Path.join path []).length + entry.1.length :=
    (hfull entry hentry).trans_le (Nat.add_le_add_right (Path.length_le_join path) _)
  rw [shownWithin, if_pos hlong]

/-- A directory that is found at a name behind a path is seen in the directory at the path. -/
theorem exists_lookup_of_join {p : Place} {path name : Bytes} (hpath : path ≠ [])
    (proper : ProperName name) {inner : List (Bytes × Entry)}
    (h : lookup p (Path.join path name) = .ok (.directory inner)) :
    ∃ entries, lookup p path = .ok (.directory entries) ∧ (name, .directory inner) ∈ entries := by
  obtain ⟨-, hlength, q, left, hres, hinner⟩ := lookup_eq_directory_iff.mp h
  obtain ⟨start, hjoin, hsteps⟩ := Path.exists_steps_join path proper
  rw [hjoin] at hres
  obtain ⟨mid, between, hstart, hlast⟩ := resolve_append_eq_ok hres
  -- A slash at the end of the path is a step that stays in the directory.
  have hmid : resolve linkLimit p (Path.steps path) = .ok (.directory mid, between) := by
    rcases hsteps with hsteps | ⟨-, hsteps⟩
    · rw [hsteps, hstart]
    · rw [hsteps, resolve_append hstart, resolve, resolve]
  have hsize := Path.length_join path name
  have hpathsize := Path.length_le_join path
  refine ⟨_, lookup_eq_directory_iff.mpr ⟨hpath, by omega, mid, between, hmid, rfl⟩, ?_⟩
  obtain ⟨tree, htree, hshown⟩ := shown_of_resolve hlast (Path.join path name).length
  rw [follow_eq_map]
  refine List.mem_map.mpr ⟨(name, tree), htree, ?_⟩
  have hslash : (Path.join (Path.join path name) []).length =
      (Path.join path name).length + 1 := by
    simp [Path.join_eq path proper]
  rw [shownWithin, ← hsize, if_neg (Nat.not_lt.mpr hlength), hshown, ← hinner, hslash]

end FileTree

/-! ## Directories inside of directories -/

/-- The entries of the directory that names lead to from the entries of another one. -/
inductive Contains : List (Bytes × Entry) → List Bytes → List (Bytes × Entry) → Prop where
  | here (entries) : Contains entries [] entries
  | inside {entries name inner names found} (h : (name, .directory inner) ∈ entries)
      (rest : Contains inner names found) : Contains entries (name :: names) found

theorem Contains.proper {entries inner : List (Bytes × Entry)} {names : List Bytes}
    (h : Contains entries names inner) (proper : (Entry.directory entries).Proper) :
    (Entry.directory inner).Proper := by
  induction h with
  | here => exact proper
  | inside h _ ih =>
      cases proper with
      | directory _ below => exact ih (below _ h)

namespace FileTree

theorem exists_lookup_of_foldl_join {p : Place} {path : Bytes} (hpath : path ≠ [])
    {names : List Bytes} (proper : ∀ name ∈ names, ProperName name)
    {inner : List (Bytes × Entry)}
    (h : lookup p (names.foldl Path.join path) = .ok (.directory inner)) :
    ∃ entries, lookup p path = .ok (.directory entries) ∧ Contains entries names inner := by
  induction names generalizing path with
  | nil => exact ⟨inner, h, .here inner⟩
  | cons name names ih =>
      have hname := proper name List.mem_cons_self
      obtain ⟨mid, hmid, hrest⟩ := ih (Path.join_ne_nil path hname).1
        (fun n hn => proper n (List.mem_cons_of_mem name hn)) h
      obtain ⟨entries, hentries, hmem⟩ := exists_lookup_of_join hpath hname hmid
      exact ⟨entries, hentries, .inside hmem hrest⟩

/-- Where names lead to a directory behind another one, it is seen inside of that. -/
theorem contains_of_lookup {p : Place} {path : Bytes} {entries : List (Bytes × Entry)}
    (h : lookup p path = .ok (.directory entries)) {names : List Bytes} (hne : names ≠ [])
    (proper : ∀ name ∈ names, ProperName name) {inner : List (Bytes × Entry)}
    (h' : lookup p (Path.join path (Path.joined names)) = .ok (.directory inner)) :
    Contains entries names inner := by
  rw [← Path.foldl_join_eq path hne proper] at h'
  obtain ⟨entries', hentries, hcontains⟩ :=
    exists_lookup_of_foldl_join (lookup_eq_directory_iff.mp h).1 proper h'
  cases h.symm.trans hentries
  exact hcontains

end FileTree

end BlockOutline
