import BlockOutline.Files.Tree
import BlockOutline.Proofs.Files.Paths

/-! # Entries

What a directory shows of a stored tree: proper names, each once, whatever links lead through. Where
no limit is met, it does not matter how the directory was reached. -/

namespace BlockOutline

/-! ## Proper trees -/

/-- Names of the entries of one directory. -/
structure ProperNames (names : List Bytes) : Prop where
  proper : ∀ name ∈ names, ProperName name
  nodup : names.Nodup

instance (names : List Bytes) : Decidable (ProperNames names) :=
  decidable_of_iff ((∀ name ∈ names, ProperName name) ∧ names.Nodup)
    ⟨fun h => ⟨h.1, h.2⟩, fun h => ⟨h.proper, h.nodup⟩⟩

namespace Entry

/-- In every directory of a tree the entries have proper names, each its own. -/
inductive Proper : Entry → Prop where
  | file (text) : Proper (.file text)
  | device (text) : Proper (.device text)
  | closed (error) : Proper (.closed error)
  | directory {entries} (names : ProperNames (entries.map (·.1)))
      (below : ∀ entry ∈ entries, entry.2.Proper) : Proper (.directory entries)

/-- The same tree, but for the order in which its directories list their entries. -/
inductive SameButOrder : Entry → Entry → Prop where
  | file (text) : SameButOrder (.file text) (.file text)
  | device (text) : SameButOrder (.device text) (.device text)
  | closed (error) : SameButOrder (.closed error) (.closed error)
  | directory {entries entries'} (names : (entries.map (·.1)).Perm (entries'.map (·.1)))
      (below : ∀ entry ∈ entries, ∀ entry' ∈ entries', entry.1 = entry'.1 →
        SameButOrder entry.2 entry'.2) : SameButOrder (.directory entries) (.directory entries')

/-- A tree that may be listed throughout and that no limit of the system cuts off: it has no cycle of
links, which would be followed until there are too many links or the names are too long. -/
inductive Readable : Entry → Prop where
  | file {text} (names : text ≠ .error .nameTooLong) (links : text ≠ .error .tooManyLinks) :
      Readable (.file text)
  | device (text) : Readable (.device text)
  | directory {entries} (below : ∀ entry ∈ entries, entry.2.Readable) :
      Readable (.directory entries)

theorem Readable.of_mem {entries : List (Bytes × Entry)} (h : (Entry.directory entries).Readable) :
    ∀ entry ∈ entries, entry.2.Readable := by
  cases h with
  | directory below => exact below

theorem Readable.not_limited {text : Except ReadError String} (h : (Entry.file text).Readable) :
    text ≠ .error .nameTooLong ∧ text ≠ .error .tooManyLinks := by
  cases h with
  | file names links => exact ⟨names, links⟩

theorem SameButOrder.symm {e e' : Entry} (same : SameButOrder e e') : SameButOrder e' e := by
  induction same with
  | file text => exact .file text
  | device text => exact .device text
  | closed error => exact .closed error
  | directory names _ ih =>
      refine .directory names.symm ?_
      intro entry' he' entry he hname
      exact ih entry he entry' he' hname.symm

theorem SameButOrder.exists_mem {entries entries' : List (Bytes × Entry)}
    (same : SameButOrder (.directory entries) (.directory entries')) {entry : Bytes × Entry}
    (he : entry ∈ entries) :
    ∃ entry' ∈ entries', entry.1 = entry'.1 ∧ SameButOrder entry.2 entry'.2 := by
  cases same with
  | directory names below =>
      obtain ⟨entry', he', hname⟩ := List.mem_map.mp (names.mem_iff.mp (List.mem_map_of_mem he))
      exact ⟨entry', he', hname.symm, below entry he entry' he' hname.symm⟩

theorem SameButOrder.proper {e e' : Entry} (same : SameButOrder e e') (h : e.Proper) :
    e'.Proper := by
  induction same with
  | file text => exact .file text
  | device text => exact .device text
  | closed error => exact .closed error
  | @directory entries entries' names below ih =>
      cases h with
      | directory hnames hbelow =>
          refine .directory ⟨?_, names.nodup_iff.mp hnames.nodup⟩ ?_
          · intro name hn
            exact hnames.proper name (names.mem_iff.mpr hn)
          · intro entry' he'
            obtain ⟨entry, he, hname⟩ :=
              List.mem_map.mp (names.mem_iff.mpr (List.mem_map_of_mem he'))
            exact ih entry he entry' he' hname (hbelow entry he)

end Entry

namespace FileTree

inductive Proper : FileTree → Prop where
  | file (text) : Proper (.file text)
  | link (target) : Proper (.link target)
  | device : Proper .device
  | directory {entries} (names : ProperNames (entries.map (·.1)))
      (below : ∀ entry ∈ entries, entry.2.Proper) : Proper (.directory entries)

/-- A directory is proper, and so are all that are above it. -/
structure Place.Proper (p : Place) : Prop where
  here : (FileTree.directory p.here).Proper
  above : ∀ entries ∈ p.above, (FileTree.directory entries).Proper

mutual

/-- Decides `Proper`. -/
def hasProperNames : FileTree → Bool
  | .directory entries => decide (ProperNames (entries.map (·.1))) && allHaveProperNames entries
  | _ => true
termination_by structural tree => tree

def allHaveProperNames : List (Bytes × FileTree) → Bool
  | [] => true
  | (_, tree) :: rest => tree.hasProperNames && allHaveProperNames rest
termination_by structural entries => entries

end

theorem allHaveProperNames_iff {entries : List (Bytes × FileTree)} :
    allHaveProperNames entries = true ↔ ∀ entry ∈ entries, entry.2.hasProperNames = true := by
  induction entries with
  | nil => simp [allHaveProperNames]
  | cons entry entries ih => simp [allHaveProperNames, ih]

theorem Proper.hasProperNames {tree : FileTree} (h : tree.Proper) : tree.hasProperNames = true := by
  induction h with
  | directory names _ ih =>
      simpa [FileTree.hasProperNames, names, allHaveProperNames_iff] using ih
  | _ => rfl

theorem proper_of_hasProperNames (tree : FileTree) (h : tree.hasProperNames = true) :
    tree.Proper := by
  cases tree with
  | file text => exact .file text
  | link target => exact .link target
  | device => exact .device
  | directory entries =>
      rw [hasProperNames, Bool.and_eq_true, decide_eq_true_iff, allHaveProperNames_iff] at h
      refine .directory h.1 ?_
      intro entry he
      have hlt : sizeOf entry.2 < sizeOf (directory entries) := by
        have hentry := List.sizeOf_lt_of_mem he
        obtain ⟨name, inner⟩ := entry
        simp only [Prod.mk.sizeOf_spec, directory.sizeOf_spec] at hentry ⊢
        omega
      exact proper_of_hasProperNames entry.2 (h.2 entry he)
termination_by sizeOf tree

instance : DecidablePred Proper := fun tree =>
  decidable_of_iff (tree.hasProperNames = true)
    ⟨proper_of_hasProperNames tree, Proper.hasProperNames⟩

instance (p : Place) : Decidable p.Proper :=
  decidable_of_iff ((directory p.here).Proper ∧ ∀ entries ∈ p.above, (directory entries).Proper)
    ⟨fun h => ⟨h.1, h.2⟩, fun h => ⟨h.here, h.above⟩⟩

namespace Place

theorem Proper.up {p : Place} (h : p.Proper) : p.up.Proper := by
  obtain ⟨entries, above⟩ := p
  cases above with
  | nil => exact h
  | cons parent above =>
      exact ⟨h.above parent List.mem_cons_self,
        fun e he => h.above e (List.mem_cons_of_mem parent he)⟩

theorem Proper.top {p : Place} (h : p.Proper) : p.top.Proper := by
  refine ⟨?_, by simp [Place.top]⟩
  rw [Place.top]
  cases hlast : p.above.getLast? with
  | none => exact h.here
  | some entries => exact h.above entries (List.mem_of_getLast? hlast)

theorem Proper.enter {p : Place} (h : p.Proper) {entries : List (Bytes × FileTree)}
    (he : (FileTree.directory entries).Proper) : (p.enter entries).Proper := by
  refine ⟨he, ?_⟩
  intro above ha
  rcases List.mem_cons.mp ha with rfl | ha
  · exact h.here
  · exact h.above above ha

theorem Proper.find? {p : Place} (h : p.Proper) {name : Bytes} {tree : FileTree}
    (hfound : p.find? name = some tree) : tree.Proper := by
  obtain ⟨entry, hentry, rfl⟩ := Option.map_eq_some_iff.mp hfound
  cases h.here with
  | directory _ below => exact below entry (List.mem_of_find?_eq_some hentry)

end Place

/-- Paths lead from proper places to proper places. -/
theorem proper_of_resolve {links left : Nat} {p q : Place} {path : List Component} (hp : p.Proper)
    (h : resolve links p path = .ok (.directory q, left)) : q.Proper := by
  fun_induction resolve links p path with
  | case1 =>
      cases h
      exact hp
  | case2 links p path ih => exact ih hp h
  | case3 links p path ih => exact ih hp.top h
  | case4 links p path ih => exact ih hp.up h
  | case7 links p n path _ entries hfound ih => exact ih (hp.enter (hp.find? hfound)) h
  | case13 p n path _ target _ links ih => exact ih hp h
  | _ => simp_all

/-- What is seen of a tree behind a name; `stop` bytes lead to the end of the name. -/
def shown (links stop : Nat) (p : Place) : FileTree → Entry
  | .file text => content text
  | .device => .device ""
  | .directory entries => .directory (follow links (stop + 1) (p.enter entries) entries)
  | .link target =>
    match links with
    | 0 => .file (.error .tooManyLinks)
    | links + 1 =>
      match resolve links p (Path.steps target) with
      | .error e => .file (.error e)
      | .ok (.entry e, _) => e
      | .ok (.directory q, left) => .directory (follow left (stop + 1) q q.here)

/-- What is seen behind a name, if the way to it is not too long. -/
def shownWithin (links stop : Nat) (p : Place) (tree : FileTree) : Entry :=
  if pathLimit < stop then .file (.error .nameTooLong) else shown links stop p tree

theorem follow_eq_map (links length : Nat) (p : Place) (entries : List (Bytes × FileTree)) :
    follow links length p entries = entries.map fun entry =>
      (entry.1, shownWithin links (length + entry.1.length) p entry.2) := by
  induction entries with
  | nil => simp [follow]
  | cons entry entries ih =>
      obtain ⟨name, tree⟩ := entry
      rw [List.map_cons, ← ih]
      cases tree with
      | file text => simp only [follow, shownWithin, shown]
      | device => simp only [follow, shownWithin, shown]
      | directory inner => simp only [follow, shownWithin, shown]
      | link target =>
          cases links with
          | zero => simp only [follow, shownWithin, shown]
          | succ links =>
              simp only [follow, shownWithin, shown]
              congr 3
              split <;> next h => simp only [h]

theorem sizeOf_lt_of_mem {name : Bytes} {inner entries : List (Bytes × FileTree)}
    (h : (name, FileTree.directory inner) ∈ entries) : sizeOf inner < sizeOf entries := by
  have hlt := List.sizeOf_lt_of_mem h
  simp only [Prod.mk.sizeOf_spec, directory.sizeOf_spec] at hlt
  omega

theorem proper_content (text : Option String) : (content text).Proper := by
  exact .file _

theorem proper_of_resolve_entry {links left : Nat} {p : Place} {path : List Component} {e : Entry}
    (h : resolve links p path = .ok (.entry e, left)) : e.Proper := by
  fun_induction resolve links p path with
  | case2 links p path ih => exact ih h
  | case3 links p path ih => exact ih h
  | case4 links p path ih => exact ih h
  | case7 links p n path _ entries _ ih => exact ih h
  | case8 =>
      cases h
      exact proper_content _
  | case10 =>
      cases h
      exact .device _
  | case13 p n path _ target _ links ih => exact ih h
  | _ => simp_all

/-- Whatever links lead through, a directory shows a proper tree. -/
theorem proper_follow (links length : Nat) {p : Place} (hp : p.Proper)
    {entries : List (Bytes × FileTree)} (he : (FileTree.directory entries).Proper) :
    (Entry.directory (follow links length p entries)).Proper := by
  rw [follow_eq_map]
  cases he with
  | directory names below =>
      refine .directory (by simpa [Function.comp_def] using names) ?_
      intro entry hentry
      obtain ⟨⟨name, tree⟩, hmem, rfl⟩ := List.mem_map.mp hentry
      have htree := below _ hmem
      unfold shownWithin
      split
      · exact .file _
      · cases tree with
        | file text => exact proper_content text
        | device => exact .device _
        | directory inner =>
            have := sizeOf_lt_of_mem hmem
            exact proper_follow links _ (hp.enter htree) htree
        | link target =>
            cases links with
            | zero => exact .file _
            | succ links =>
                rw [shown]
                split
                · exact .file _
                · next h => exact proper_of_resolve_entry h
                · next q left h =>
                  have := Nat.lt_succ_of_le (le_of_resolve h)
                  have hq := proper_of_resolve hp h
                  exact proper_follow left _ hq hq.here
termination_by (links, sizeOf entries)

/-- Wherever a path leads, a proper tree is seen. -/
theorem proper_of_lookup {p : Place} (hp : p.Proper) {path : Bytes} {e : Entry}
    (h : lookup p path = .ok e) : e.Proper := by
  unfold lookup at h
  split at h
  · cases h
  · split at h
    · cases h
    · split at h
      · cases h
      · next hres =>
        cases h
        exact proper_of_resolve_entry hres
      · next q left hres =>
        cases h
        have hq := proper_of_resolve hp hres
        exact proper_follow left _ hq hq.here

/-! ## Spellings -/

/-- How many links may be followed matters only where they are too many. -/
theorem resolve_links (links links' : Nat) (p : Place) (path : List Component) :
    resolve links p path = .error .tooManyLinks ∨ resolve links' p path = .error .tooManyLinks ∨
      (resolve links p path).map Prod.fst = (resolve links' p path).map Prod.fst := by
  fun_induction resolve links p path generalizing links' with
  | case1 => simp [resolve, Except.map]
  | case2 links p path ih => simpa [resolve] using ih links'
  | case3 links p path ih => simpa [resolve] using ih links'
  | case4 links p path ih => simpa [resolve] using ih links'
  | case5 links p n path hlength => simp [resolve, hlength, Except.map]
  | case7 links p n path hlength entries hfound ih => simpa [resolve, hlength, hfound] using ih links'
  | case12 p n path hlength target hfound => simp [resolve, hlength, hfound]
  | case13 p n path hlength target hfound links ih =>
      cases links' with
      | zero => simp [resolve, hlength, hfound]
      | succ links' => simpa [resolve, hlength, hfound] using ih links'
  | case6 links p n path hlength hfound => simp [resolve, hlength, hfound, Except.map]
  | case8 links p n path hlength text hfound hend => simp [resolve, hlength, hfound, hend, Except.map]
  | case9 links p n path hlength text hfound hend => simp [resolve, hlength, hfound, hend, Except.map]
  | case10 links p n path hlength hfound hend => simp [resolve, hlength, hfound, hend, Except.map]
  | case11 links p n path hlength hfound hend => simp [resolve, hlength, hfound, hend, Except.map]

/-- A link shows the same without meeting a limit if the directories that links lead to do. -/
theorem shown_link_eq {links links' stop stop' : Nat} {p : Place} {target : Bytes}
    (below : ∀ q left left', left < links →
      (Entry.directory (follow left (stop + 1) q q.here)).Readable →
      (Entry.directory (follow left' (stop' + 1) q q.here)).Readable →
      follow left (stop + 1) q q.here = follow left' (stop' + 1) q q.here)
    (h : (shown links stop p (.link target)).Readable)
    (h' : (shown links' stop' p (.link target)).Readable) :
    shown links stop p (.link target) = shown links' stop' p (.link target) := by
  cases links with
  | zero => exact absurd rfl h.not_limited.2
  | succ links =>
  cases links' with
  | zero => exact absurd rfl h'.not_limited.2
  | succ links' =>
      simp only [shown] at h h' ⊢
      rcases resolve_links links links' p (Path.steps target) with hfew | hfew | hsame
      · rw [hfew] at h
        exact absurd rfl h.not_limited.2
      · rw [hfew] at h'
        exact absurd rfl h'.not_limited.2
      · cases hres : resolve links p (Path.steps target) with
        | error e =>
            cases hres' : resolve links' p (Path.steps target) with
            | error e' =>
                rw [hres, hres'] at hsame
                cases hsame
                rfl
            | ok found' =>
                rw [hres, hres'] at hsame
                cases hsame
        | ok found =>
            cases hres' : resolve links' p (Path.steps target) with
            | error e' =>
                rw [hres, hres'] at hsame
                cases hsame
            | ok found' =>
                obtain ⟨t, left⟩ := found
                obtain ⟨t', left'⟩ := found'
                rw [hres, hres'] at hsame
                cases hsame
                cases t with
                | entry e => rfl
                | directory q =>
                    rw [hres] at h
                    rw [hres'] at h'
                    have hleft := Nat.lt_succ_of_le (le_of_resolve hres)
                    exact congrArg Entry.directory (below q left left' hleft h h')

/-- What is seen of a directory without meeting a limit is the same from wherever it is reached. -/
theorem follow_eq_of_readable {links links' length length' : Nat} {p : Place}
    {entries : List (Bytes × FileTree)}
    (h : (Entry.directory (follow links length p entries)).Readable)
    (h' : (Entry.directory (follow links' length' p entries)).Readable) :
    follow links length p entries = follow links' length' p entries := by
  rw [follow_eq_map] at h h'
  rw [follow_eq_map, follow_eq_map]
  refine List.map_congr_left ?_
  rintro ⟨name, tree⟩ hmem
  have hentry := h.of_mem _ (List.mem_map_of_mem hmem)
  have hentry' := h'.of_mem _ (List.mem_map_of_mem hmem)
  congr 1
  dsimp only [shownWithin] at hentry hentry' ⊢
  split at hentry
  · exact absurd rfl hentry.not_limited.1
  · split at hentry'
    · exact absurd rfl hentry'.not_limited.1
    · next hlength hlength' =>
      rw [if_neg hlength, if_neg hlength']
      cases tree with
      | file text => rfl
      | device => rfl
      | directory inner =>
          have := sizeOf_lt_of_mem hmem
          exact congrArg Entry.directory (follow_eq_of_readable hentry hentry')
      | link target =>
          exact shown_link_eq (fun q left left' hleft => follow_eq_of_readable) hentry hentry'
termination_by (links, sizeOf entries)

/-- Two paths that lead to the same directory, whichever steps they take on the way. -/
def SameDirectory (p : Place) (path path' : Bytes) : Prop :=
  ∃ q left left', resolve linkLimit p (Path.steps path) = .ok (.directory q, left) ∧
    resolve linkLimit p (Path.steps path') = .ok (.directory q, left')

theorem lookup_eq_ok_iff {p q : Place} {path : Bytes} {left : Nat}
    (hres : resolve linkLimit p (Path.steps path) = .ok (.directory q, left)) {e : Entry}
    (h : lookup p path = .ok e) :
    e = .directory (follow left (Path.join path []).length q q.here) := by
  unfold lookup at h
  split at h
  · cases h
  · split at h
    · cases h
    · rw [hres] at h
      cases h
      rfl

/-- However a directory is spelled, the same tree is seen in it. -/
theorem entries_eq_of_sameDirectory {p : Place} {path path' : Bytes}
    (same : SameDirectory p path path') {entries entries' : List (Bytes × Entry)}
    (h : lookup p path = .ok (.directory entries))
    (h' : lookup p path' = .ok (.directory entries'))
    (hr : (Entry.directory entries).Readable) (hr' : (Entry.directory entries').Readable) :
    entries = entries' := by
  obtain ⟨q, left, left', hres, hres'⟩ := same
  cases lookup_eq_ok_iff hres h
  cases lookup_eq_ok_iff hres' h'
  exact follow_eq_of_readable hr hr'

end FileTree

end BlockOutline
