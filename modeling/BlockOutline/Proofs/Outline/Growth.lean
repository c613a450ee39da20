import Mathlib.Data.List.Nodup
import BlockOutline.Proofs.Outline.ErrorSpans

/-! # Documents line by line

A line more leaves the keys of every table in their order and adds at the end. Only a table that gets
a header of its own, when longer headers have passed through it before, moves behind the others. -/

namespace BlockOutline.Toml

open Fallible

/-! ## Growing values -/

/-- The entries of a table with what they become: each keeps its place with a value that has grown,
or gives way to one further behind, and new ones come last. -/
inductive EntriesGrow (moves : Key → Key → Prop) (R : Node → Node → Prop) :
    List (Key × Node) → List (Key × Node) → Prop where
  | nil (added) : EntriesGrow moves R [] added
  | keep {key value value' entries entries'} (h : R value value')
      (rest : EntriesGrow moves R entries entries') :
      EntriesGrow moves R ((key, value) :: entries) ((key, value') :: entries')
  | move {key value entries entries'} {entry : Key × Node} (h : moves key entry.1)
      (moved : entry ∈ entries') (grows : R value entry.2)
      (rest : EntriesGrow moves R entries entries') :
      EntriesGrow moves R ((key, value) :: entries) entries'

/-- A value with what it becomes when more lines are read. -/
inductive Node.Grows (moves : Key → Key → Prop) : Node → Node → Prop where
  | scalar (span value) : Grows moves (.scalar span value) (.scalar span value)
  | array (span span') {items items'} (added) (h : List.Forall₂ (Grows moves) items items') :
      Grows moves (.array span items) (.array span' (items' ++ added))
  | table (span span') {entries entries'} (h : EntriesGrow moves (Grows moves) entries entries') :
      Grows moves (.table span entries) (.table span' entries')

section Growing

variable {moves : Key → Key → Prop}

theorem EntriesGrow.of_forall {R : Node → Node → Prop} {entries : List (Key × Node)}
    (h : ∀ entry ∈ entries, R entry.2 entry.2) (added : List (Key × Node)) :
    EntriesGrow moves R entries (entries ++ added) := by
  induction entries with
  | nil => exact .nil added
  | cons entry entries ih =>
      refine .keep (h entry List.mem_cons_self) (ih ?_)
      intro e he
      exact h e (List.mem_cons_of_mem entry he)

theorem Node.Grows.refl (node : Node) : node.Grows moves node := by
  induction node with
  | step node ih =>
      cases node with
      | scalar span value => exact .scalar span value
      | array span items =>
          have hitems : List.Forall₂ (Node.Grows moves) items items :=
            List.forall₂_same.mpr ih
          simpa using Node.Grows.array span span [] hitems
      | table span entries =>
          have hentries : EntriesGrow moves (Node.Grows moves) entries (entries ++ []) :=
            .of_forall (fun entry he => ih entry.2 (List.mem_map_of_mem he)) []
          rw [List.append_nil] at hentries
          exact .table span span hentries

theorem EntriesGrow.exists_of_mem {R : Node → Node → Prop} {entries entries' : List (Key × Node)}
    (h : EntriesGrow moves R entries entries') {entry : Key × Node} (he : entry ∈ entries) :
    ∃ entry' ∈ entries', (entry'.1 = entry.1 ∨ moves entry.1 entry'.1) ∧ R entry.2 entry'.2 := by
  induction h with
  | nil => cases he
  | keep hvalue _ ih =>
      rcases List.mem_cons.mp he with rfl | he
      · exact ⟨_, List.mem_cons_self, .inl rfl, hvalue⟩
      · obtain ⟨entry', he', hkey, hgrows⟩ := ih he
        exact ⟨entry', List.mem_cons_of_mem _ he', hkey, hgrows⟩
  | move hmoves hmoved hvalue _ ih =>
      rcases List.mem_cons.mp he with rfl | he
      · exact ⟨_, hmoved, .inr hmoves, hvalue⟩
      · exact ih he

theorem EntriesGrow.trans {R : Node → Node → Prop}
    (hmoves : ∀ a b c, moves a b → moves b c → moves a c) {a b c : List (Key × Node)}
    (hR : ∀ entry ∈ a, ∀ v v', R entry.2 v → R v v' → R entry.2 v')
    (h : EntriesGrow moves R a b) (h' : EntriesGrow moves R b c) : EntriesGrow moves R a c := by
  induction h generalizing c with
  | nil added => exact .nil c
  | @keep key value value' entries entries' hvalue _ ih =>
      have hrest (entry) (he : entry ∈ entries) := hR entry (List.mem_cons_of_mem _ he)
      have hfirst := hR (key, value) List.mem_cons_self
      cases h' with
      | keep hvalue' hentries' => exact .keep (hfirst _ _ hvalue hvalue') (ih hrest hentries')
      | move hm hmoved hvalue' hentries' =>
          exact .move hm hmoved (hfirst _ _ hvalue hvalue') (ih hrest hentries')
  | @move key value entries entries' entry hm hmoved hvalue _ ih =>
      have hrest (entry) (he : entry ∈ entries) := hR entry (List.mem_cons_of_mem _ he)
      have hfirst := hR (key, value) List.mem_cons_self
      obtain ⟨last, hlast, hkey, hgrows⟩ := h'.exists_of_mem hmoved
      have hmove : moves key last.1 := by
        rcases hkey with hsame | hagain
        · rw [hsame]
          exact hm
        · exact hmoves _ _ _ hm hagain
      exact .move hmove hlast (hfirst _ _ hvalue hgrows) (ih hrest h')

theorem forall₂_trans {R : Node → Node → Prop} {a b c : List Node}
    (hR : ∀ item ∈ a, ∀ v v', R item v → R v v' → R item v') (h : List.Forall₂ R a b)
    (h' : List.Forall₂ R b c) : List.Forall₂ R a c := by
  induction h generalizing c with
  | nil => exact h'
  | cons hitem _ ih =>
      cases h' with
      | cons hitem' hitems' =>
          refine .cons (hR _ List.mem_cons_self _ _ hitem hitem') (ih ?_ hitems')
          intro item hmem
          exact hR item (List.mem_cons_of_mem _ hmem)

theorem Node.Grows.trans (hmoves : ∀ a b c, moves a b → moves b c → moves a c) {a b c : Node}
    (h : a.Grows moves b) (h' : b.Grows moves c) : a.Grows moves c := by
  induction a generalizing b c with
  | step a ih =>
      cases h with
      | scalar => exact h'
      | @array span span' items items' added hitems =>
          cases h' with
          | @array _ span'' _ items'' added' hitems' =>
              have hkept := (List.forall₂_take_append _ _ _ hitems'.flip).flip
              rw [← List.take_append_drop items'.length items'', List.append_assoc]
              refine .array span span'' _ (forall₂_trans ?_ hitems hkept)
              intro item hitem v v' hv hv'
              exact ih item hitem hv hv'
      | table span span' hentries =>
          cases h' with
          | table _ span'' hentries' =>
              refine .table span span'' (hentries.trans hmoves ?_ hentries')
              intro entry he v v' hv hv'
              exact ih entry.2 (List.mem_map_of_mem he) hv hv'

/-- The last of several tables of one name grows, and the others stay. -/
theorem Node.Grows.last (span span' : Span) (finished : List Node) {node node' : Node}
    (h : node.Grows moves node') :
    (Node.array span (finished ++ [node])).Grows moves (.array span' (finished ++ [node'])) := by
  have hfinished : List.Forall₂ (Node.Grows moves) finished finished :=
    List.forall₂_same.mpr fun item _ => .refl item
  have hitems := List.rel_append hfinished (.cons h .nil)
  simpa using Node.Grows.array span span' [] hitems

theorem EntriesGrow.refl (entries : List (Key × Node)) :
    EntriesGrow moves (Node.Grows moves) entries entries := by
  have h : EntriesGrow moves (Node.Grows moves) entries (entries ++ []) :=
    .of_forall (fun entry _ => .refl entry.2) []
  rwa [List.append_nil] at h

/-! ## Growing tables -/

/-- What a table under construction would be closed to grows. -/
def Table.Grows (moves : Key → Key → Prop) (t t' : Table) : Prop :=
  EntriesGrow moves (Node.Grows moves) (closeEntries t.entries) (closeEntries t'.entries)

namespace Table

theorem Grows.close {t t' : Table} (h : t.Grows moves t') : t.close.Grows moves t'.close :=
  .table t.span t'.span h

theorem Grows.of_entries_eq {t t' : Table} (h : t.entries = t'.entries) : t.Grows moves t' := by
  rw [Grows, h]
  exact .refl _

theorem Grows.trans (hmoves : ∀ a b c, moves a b → moves b c → moves a c) {a b c : Table}
    (h : a.Grows moves b) (h' : b.Grows moves c) : a.Grows moves c :=
  EntriesGrow.trans hmoves (fun _ _ _ _ => Node.Grows.trans hmoves) h h'

/-- An entry that is put at the end takes the place of those of its name. -/
theorem put_grows {t : Table} {key : Key} {draft : Draft}
    (h : ∀ entry ∈ t.entries, entry.1.name = key.name →
      moves entry.1 key ∧ entry.2.close.Grows moves draft.close) :
    t.Grows moves (t.put key draft) := by
  obtain ⟨origin, span, entries⟩ := t
  simp only [Grows, put, closeEntries_eq_map, List.map_append] at h ⊢
  induction entries with
  | nil => exact .nil _
  | cons entry entries ih =>
      have ih := ih fun e he => h e (List.mem_cons_of_mem entry he)
      by_cases hname : entry.1.name = key.name
      · obtain ⟨hmove, hgrows⟩ := h entry List.mem_cons_self hname
        rw [List.filter_cons_of_neg (by simpa using hname)]
        exact .move hmove (List.mem_append_right _ List.mem_cons_self) hgrows ih
      · rw [List.filter_cons_of_pos (by simpa using hname)]
        exact .keep (.refl _) ih

theorem put_grows_put (t : Table) (key : Key) {draft draft' : Draft}
    (h : draft.close.Grows moves draft'.close) : (t.put key draft).Grows moves (t.put key draft') := by
  simp only [Grows, put, closeEntries_eq_map, List.map_append]
  generalize t.entries.filter (·.1.name ≠ key.name) = kept
  induction kept with
  | nil => exact .keep h (.nil [])
  | cons entry kept ih => exact .keep (.refl _) ih

theorem change_grows {key : Key} {f : Option Draft → Except SyntaxError Draft}
    {entries changed : List (Key × Draft)}
    (hf : ∀ entry ∈ entries, entry.1.name = key.name → ∀ after, f (some entry.2) = .ok after →
      entry.2.close.Grows moves after.close) (h : change key f entries = .ok changed) :
    EntriesGrow moves (Node.Grows moves) (closeEntries entries) (closeEntries changed) := by
  induction entries generalizing changed with
  | nil => exact .nil _
  | cons entry rest ih =>
      obtain ⟨k, draft⟩ := entry
      rw [change] at h
      by_cases hk : k.name = key.name
      · simp only [hk, ite_true, bind_eq_ok_iff, pure_eq_ok_iff] at h
        obtain ⟨draft', hdraft', rfl⟩ := h
        exact .keep (hf (k, draft) List.mem_cons_self hk draft' hdraft') (.refl _)
      · simp only [hk, ite_false, bind_eq_ok_iff, pure_eq_ok_iff] at h
        obtain ⟨rest', hrest', rfl⟩ := h
        exact .keep (.refl _) (ih (fun e he => hf e (List.mem_cons_of_mem _ he)) hrest')

/-- A change that another one does not fall short of is possible where the other is. -/
theorem change_early {key : Key} {f g : Option Draft → Except SyntaxError Draft}
    (hf : ∀ before after, f before = .ok after →
      ∃ early, g before = .ok early ∧ early.close.Grows moves after.close)
    {entries changed : List (Key × Draft)} (h : change key f entries = .ok changed) :
    ∃ early, change key g entries = .ok early ∧
      EntriesGrow moves (Node.Grows moves) (closeEntries early) (closeEntries changed) := by
  induction entries generalizing changed with
  | nil =>
      simp only [change, bind_eq_ok_iff, pure_eq_ok_iff] at h ⊢
      obtain ⟨draft, hdraft, rfl⟩ := h
      obtain ⟨early, hearly, hgrows⟩ := hf none draft hdraft
      exact ⟨_, ⟨early, hearly, rfl⟩, .keep hgrows (.nil [])⟩
  | cons entry rest ih =>
      obtain ⟨k, draft⟩ := entry
      rw [change] at h ⊢
      by_cases hk : k.name = key.name
      · simp only [hk, ite_true, bind_eq_ok_iff, pure_eq_ok_iff] at h ⊢
        obtain ⟨draft', hdraft', rfl⟩ := h
        obtain ⟨early, hearly, hgrows⟩ := hf (some draft) draft' hdraft'
        exact ⟨_, ⟨early, hearly, rfl⟩, .keep hgrows (.refl _)⟩
      · simp only [hk, ite_false, bind_eq_ok_iff, pure_eq_ok_iff] at h ⊢
        obtain ⟨rest', hrest', rfl⟩ := h
        obtain ⟨early, hearly, hgrows⟩ := ih hrest'
        exact ⟨_, ⟨early, hearly, rfl⟩, .keep (.refl _) hgrows⟩

end Table

/-- The entries of a draft that are not finished. -/
def Draft.entries? : Draft → Option (List (Key × Draft))
  | .value _ => none
  | .table _ _ entries | .tables _ _ entries => some entries

namespace Table

/-- If a table grows by a change, it does so at the end of every path. -/
theorem descend_grows (Kept : List (Key × Draft) → Prop)
    (hbelow : ∀ entries, Kept entries → ∀ entry ∈ entries, ∀ es ∈ entry.2.entries?, Kept es)
    {offset : ℕ} {origin : Origin} {path : List Key} {f : Table → Except SyntaxError Table}
    (hf : ∀ t t', Kept t.entries → f t = .ok t' → t.Grows moves t') {t t' : Table}
    (ht : Kept t.entries) (h : descend offset origin path f t = .ok t') : t.Grows moves t' := by
  induction path generalizing t t' with
  | nil => exact hf t t' ht h
  | cons key path ih =>
      simp only [descend, bind_eq_ok_iff, pure_eq_ok_iff] at h
      obtain ⟨entries, hentries, rfl⟩ := h
      refine change_grows ?_ hentries
      intro entry he _ after hafter
      have hkept := hbelow t.entries ht entry he
      obtain ⟨k, draft⟩ := entry
      cases draft with
      | value => cases hafter
      | table o span es =>
          simp only at hafter
          split at hafter
          · cases hafter
          · obtain ⟨entered, hentered, rfl⟩ := map_eq_ok_iff.mp hafter
            exact (ih (hkept es rfl) hentered).close
      | tables finished span es =>
          obtain ⟨entered, hentered, rfl⟩ := map_eq_ok_iff.mp hafter
          exact .last _ _ finished (ih (hkept es rfl) hentered).close

theorem descend_early {offset : ℕ} {origin : Origin} {path : List Key}
    {f g : Table → Except SyntaxError Table}
    (hf : ∀ t t', f t = .ok t' → ∃ early, g t = .ok early ∧ early.Grows moves t') {t t' : Table}
    (h : descend offset origin path f t = .ok t') :
    ∃ early, descend offset origin path g t = .ok early ∧ early.Grows moves t' := by
  induction path generalizing t t' with
  | nil => exact hf t t' h
  | cons key path ih =>
      simp only [descend, bind_eq_ok_iff, pure_eq_ok_iff] at h ⊢
      obtain ⟨entries, hentries, rfl⟩ := h
      suffices hchange : _ by
        obtain ⟨early, hearly, hgrows⟩ := change_early hchange hentries
        exact ⟨_, ⟨early, hearly, rfl⟩, hgrows⟩
      intro before after hafter
      cases before with
      | none =>
          obtain ⟨entered, hentered, rfl⟩ := map_eq_ok_iff.mp hafter
          obtain ⟨early, hearly, hgrows⟩ := ih hentered
          exact ⟨early.draft, map_eq_ok_iff.mpr ⟨early, hearly, rfl⟩, hgrows.close⟩
      | some draft =>
          cases draft with
          | value => cases hafter
          | table o span es =>
              simp only at hafter ⊢
              split at hafter
              · cases hafter
              · next hnot =>
                obtain ⟨entered, hentered, rfl⟩ := map_eq_ok_iff.mp hafter
                obtain ⟨early, hearly, hgrows⟩ := ih hentered
                rw [if_neg hnot]
                exact ⟨early.draft, map_eq_ok_iff.mpr ⟨early, hearly, rfl⟩, hgrows.close⟩
          | tables finished span es =>
              obtain ⟨entered, hentered, rfl⟩ := map_eq_ok_iff.mp hafter
              obtain ⟨early, hearly, hgrows⟩ := ih hentered
              exact ⟨_, map_eq_ok_iff.mpr ⟨early, hearly, rfl⟩, .last _ _ finished hgrows.close⟩

theorem find?_eq_none {t : Table} {name : String} (h : t.find? name = none) :
    ∀ entry ∈ t.entries, entry.1.name ≠ name := by
  simpa [find?] using h

theorem assign_grows {offset : ℕ} {name : Option (List String)} {path : KeyPath} {node : Node}
    {t t' : Table} (h : t.assign offset name path node = .ok t') : t.Grows moves t' := by
  refine descend_grows (fun _ => True) (fun _ _ _ _ _ _ => trivial) ?_ trivial h
  intro t t' _ h
  split at h
  · cases h
  · split at h
    · cases h
    · next hnew =>
      cases h
      refine put_grows ?_
      intro entry he hname
      exact absurd hname (find?_eq_none (by simpa using hnew) entry he)

theorem fill_grows (hmoves : ∀ a b c, moves a b → moves b c → moves a c) {path : List String}
    {as : List Assignment} {t t' : Table} (h : fill path as t = .ok t') : t.Grows moves t' := by
  refine foldlM_preserves (fun s => t.Grows moves s) ?_ (.of_entries_eq rfl) h
  intro s s' a _ hs hstep
  obtain ⟨assigned, hassigned, rfl⟩ := map_eq_ok_iff.mp hstep
  have hgrows : s.Grows moves assigned := assign_grows hassigned
  exact hs.trans hmoves hgrows

theorem fill_early {path : List String} {as : List Assignment} {a : Assignment} {t t' : Table}
    (h : fill path (as ++ [a]) t = .ok t') :
    ∃ early, fill path as t = .ok early ∧ early.Grows moves t' := by
  obtain ⟨early, hearly, hlast⟩ := foldlM_concat_eq_ok_iff.mp h
  obtain ⟨assigned, hassigned, rfl⟩ := map_eq_ok_iff.mp hlast
  have hgrows : early.Grows moves assigned := assign_grows hassigned
  exact ⟨early, hearly, hgrows⟩

end Table

end Growing

/-! ## Tables that headers pass through -/

/-- A header passes through the table of a key. -/
def Passed (ls : List Line) (key : Key) : Prop :=
  ∃ header, Line.header header ∈ ls ∧ key ∈ header.path.parents

/-- A key gives way to that of its table's own header. -/
def GivesWay (ls : List Line) (key key' : Key) : Prop :=
  key.name = key'.name ∧ Passed ls key ∧
    ∃ header, Line.header header ∈ ls ∧ header.isMultiple = false ∧ header.path.last = key'

theorem GivesWay.trans (ls : List Line) (a b c : Key) (h : GivesWay ls a b) (h' : GivesWay ls b c) :
    GivesWay ls a c :=
  ⟨h.1.trans h'.1, h.2.1, h'.2.2⟩

/-- A table that is still implied, at the key of a draft or further down, has a key through which some
header passes. -/
inductive Draft.Passed (ls : List Line) : Key → Draft → Prop where
  | value (key node) : Passed ls key (.value node)
  | table {key origin} (span) {entries} (himplied : origin = .implied → Toml.Passed ls key)
      (hentries : ∀ entry ∈ entries, Passed ls entry.1 entry.2) :
      Passed ls key (.table origin span entries)
  | tables (key finished span) {entries} (hentries : ∀ entry ∈ entries, Passed ls entry.1 entry.2) :
      Passed ls key (.tables finished span entries)

def EntriesPassed (ls : List Line) (entries : List (Key × Draft)) : Prop :=
  ∀ entry ∈ entries, entry.2.Passed ls entry.1

section Sections

variable {ls : List Line}

namespace Table

theorem find?_eq_some {t : Table} {name : String} {draft : Draft} (h : t.find? name = some draft) :
    ∃ key, (key, draft) ∈ t.entries ∧ key.name = name := by
  obtain ⟨entry, he, rfl⟩ := Option.map_eq_some_iff.mp h
  exact ⟨entry.1, List.mem_of_find?_eq_some he, by simpa using List.find?_some he⟩

theorem eq_of_find?_eq_some {t : Table} (ht : DistinctEntries t.entries) {name : String}
    {draft : Draft} (h : t.find? name = some draft) {entry : Key × Draft} (he : entry ∈ t.entries)
    (hname : entry.1.name = name) : entry.2 = draft := by
  obtain ⟨key, hmem, hkey⟩ := find?_eq_some h
  rw [List.inj_on_of_nodup_map ht.nodup he hmem (hname.trans hkey.symm)]

theorem put_passed {t : Table} (ht : EntriesPassed ls t.entries) {key : Key} {draft : Draft}
    (hd : draft.Passed ls key) : EntriesPassed ls (t.put key draft).entries := by
  intro entry he
  rcases List.mem_append.mp he with he | he
  · exact ht entry (List.mem_of_mem_filter he)
  · rw [List.mem_singleton.mp he]
    exact hd

theorem descend_passed {offset : ℕ} {origin : Origin} {path : List Key}
    (hpath : origin = .implied → ∀ key ∈ path, Passed ls key) {f : Table → Except SyntaxError Table}
    (hf : ∀ t t', EntriesPassed ls t.entries → f t = .ok t' →
      EntriesPassed ls t'.entries ∧ t'.origin = t.origin)
    {t t' : Table} (ht : EntriesPassed ls t.entries) (h : descend offset origin path f t = .ok t') :
    EntriesPassed ls t'.entries ∧ t'.origin = t.origin := by
  induction path generalizing t t' with
  | nil => exact hf t t' ht h
  | cons key path ih =>
      have ih {o : Origin} {span : Span} {es : List (Key × Draft)} (hes : EntriesPassed ls es) {t'} :=
        @ih (fun horigin k hk => hpath horigin k (List.mem_cons_of_mem key hk)) ⟨o, span, es⟩ t' hes
      simp only [descend, bind_eq_ok_iff, pure_eq_ok_iff] at h
      obtain ⟨entries, hentries, rfl⟩ := h
      refine ⟨below_change (fun _ _ hd => hd) ht ?_ ?_ hentries, rfl⟩
      · intro after hafter
        obtain ⟨entered, hentered, rfl⟩ := map_eq_ok_iff.mp hafter
        obtain ⟨hpassed, horigin⟩ := ih (by simp [EntriesPassed]) hentered
        refine .table entered.span ?_ hpassed
        intro himplied
        exact hpath (horigin.symm.trans himplied) key List.mem_cons_self
      · intro k before after hbefore hafter
        cases hbefore with
        | value => cases hafter
        | table span himplied hbelow =>
            simp only at hafter
            split at hafter
            · cases hafter
            · obtain ⟨entered, hentered, rfl⟩ := map_eq_ok_iff.mp hafter
              obtain ⟨hpassed, horigin⟩ := ih hbelow hentered
              exact .table entered.span (fun hi => himplied (horigin.symm.trans hi)) hpassed
        | tables _ finished span hbelow =>
            obtain ⟨entered, hentered, rfl⟩ := map_eq_ok_iff.mp hafter
            exact .tables k finished entered.span (ih hbelow hentered).1

theorem fill_passed {path : List String} {as : List Assignment} {t t' : Table}
    (ht : EntriesPassed ls t.entries) (h : fill path as t = .ok t') :
    EntriesPassed ls t'.entries ∧ t'.origin = t.origin := by
  refine foldlM_preserves (fun s : Table => EntriesPassed ls s.entries ∧ s.origin = t.origin) ?_
    ⟨ht, rfl⟩ h
  intro s s' a _ hs hstep
  obtain ⟨assigned, hassigned, rfl⟩ := map_eq_ok_iff.mp hstep
  obtain ⟨hpassed, horigin⟩ : EntriesPassed ls assigned.entries ∧ assigned.origin = s.origin := by
    refine descend_passed (by simp) ?_ hs.1 hassigned
    intro t t' ht h
    split at h
    · cases h
    · split at h
      · cases h
      · cases h
        exact ⟨put_passed ht (.value _ a.node), rfl⟩
  exact ⟨hpassed, horigin.trans hs.2⟩

theorem openSection_passed {header : Header} (hheader : Line.header header ∈ ls)
    {as : List Assignment} {t t' : Table} (ht : EntriesPassed ls t.entries)
    (h : openSection header as t = .ok t') : EntriesPassed ls t'.entries := by
  have hpath (key) (hkey : key ∈ header.path.parents) : Passed ls key := ⟨header, hheader, hkey⟩
  have hnil : EntriesPassed ls [] := by simp [EntriesPassed]
  have hdraft {entries : List (Key × Draft)} {filled : Table} (he : EntriesPassed ls entries)
      (hf : fill header.path.names as ⟨.written, header.span, entries⟩ = .ok filled) :
      filled.draft.Passed ls header.path.last := by
    obtain ⟨hpassed, horigin⟩ := fill_passed he hf
    exact .table filled.span (fun hi => by rw [horigin] at hi; cases hi) hpassed
  refine (descend_passed (fun _ => hpath) ?_ ht h).1
  intro parent parent' hparent h
  split at h
  · obtain ⟨filled, hf, rfl⟩ := map_eq_ok_iff.mp h
    exact ⟨put_passed hparent (hdraft hnil hf), rfl⟩
  · next hfound =>
    obtain ⟨filled, hf, rfl⟩ := map_eq_ok_iff.mp h
    obtain ⟨key, hmem, -⟩ := find?_eq_some hfound
    cases hparent _ hmem with
    | table _ _ hbelow => exact ⟨put_passed hparent (hdraft hbelow hf), rfl⟩
  · obtain ⟨last, hf, rfl⟩ := map_eq_ok_iff.mp h
    exact ⟨put_passed hparent (.tables _ _ _ (fill_passed hnil hf).1), rfl⟩
  · obtain ⟨last, hf, h⟩ := bind_eq_ok_iff.mp h
    obtain ⟨changed, hchanged, h⟩ := bind_eq_ok_iff.mp h
    cases h
    have hlast := (fill_passed hnil hf).1
    refine ⟨below_change (fun _ _ hd => hd) hparent ?_ ?_ hchanged, rfl⟩
    · intro after hafter
      cases hafter
      exact .tables _ _ _ hlast
    · intro k before after _ hafter
      cases hafter
      exact .tables _ _ _ hlast
  · cases h

/-! ## Sections -/

/-- With a section more every table grows. -/
theorem openSection_grows {header : Header} (hheader : Line.header header ∈ ls)
    {as : List Assignment} {t t' : Table} (hdistinct : DistinctEntries t.entries)
    (hpassed : EntriesPassed ls t.entries) (h : openSection header as t = .ok t') :
    t.Grows (GivesWay ls) t' := by
  refine descend_grows (fun entries => DistinctEntries entries ∧ EntriesPassed ls entries) ?_ ?_
    ⟨hdistinct, hpassed⟩ h
  · intro entries hkept entry he es hes
    have hdraft := hkept.1.below entry he
    have hbelow := hkept.2 entry he
    obtain ⟨key, draft⟩ := entry
    cases hdraft with
    | value => cases hes
    | table _ _ nodup hdistinct =>
        cases hes
        cases hbelow with
        | table _ _ hpassed => exact ⟨⟨nodup, hdistinct⟩, hpassed⟩
    | tables _ _ nodup hdistinct =>
        cases hes
        cases hbelow with
        | tables _ _ _ hpassed => exact ⟨⟨nodup, hdistinct⟩, hpassed⟩
  intro parent parent' hparent h
  have hnew (hnone : parent.find? header.path.last.name = none) (draft : Draft) :
      parent.Grows (GivesWay ls) (parent.put header.path.last draft) := by
    refine put_grows ?_
    intro entry he hname
    exact absurd hname (find?_eq_none hnone entry he)
  split at h
  · next hnone =>
    obtain ⟨filled, -, rfl⟩ := map_eq_ok_iff.mp h
    exact hnew hnone _
  · next span entries hmultiple hfound =>
    obtain ⟨filled, hf, rfl⟩ := map_eq_ok_iff.mp h
    refine put_grows ?_
    rintro ⟨key, draft⟩ he hname
    obtain rfl := eq_of_find?_eq_some hparent.1 hfound he hname
    have hgrows := fill_grows (GivesWay.trans ls) hf
    cases hparent.2 _ he with
    | table _ himplied _ =>
        exact ⟨⟨hname, himplied rfl, header, hheader, hmultiple, rfl⟩, .table span filled.span hgrows⟩
  · next hnone =>
    obtain ⟨last, -, rfl⟩ := map_eq_ok_iff.mp h
    exact hnew hnone _
  · next finished span entries _ hfound =>
    obtain ⟨last, hf, h⟩ := bind_eq_ok_iff.mp h
    obtain ⟨changed, hchanged, h⟩ := bind_eq_ok_iff.mp h
    cases h
    refine change_grows ?_ hchanged
    rintro ⟨key, draft⟩ he hname after hafter
    obtain rfl := eq_of_find?_eq_some hparent.1 hfound he hname
    cases hafter
    exact .array _ _ _ (List.forall₂_same.mpr fun item _ => .refl item)
  · cases h

/-- A section that can be opened with an assignment more can be opened without it. -/
theorem openSection_early {moves : Key → Key → Prop} {header : Header} {as : List Assignment}
    {a : Assignment} {t t' : Table} (h : openSection header (as ++ [a]) t = .ok t') :
    ∃ early, openSection header as t = .ok early ∧ early.Grows moves t' := by
  refine descend_early ?_ h
  intro parent parent' h
  split at h
  · obtain ⟨filled, hf, rfl⟩ := map_eq_ok_iff.mp h
    obtain ⟨early, hf, hgrows⟩ := fill_early hf
    exact ⟨_, map_eq_ok_iff.mpr ⟨early, hf, rfl⟩, put_grows_put parent _ hgrows.close⟩
  · obtain ⟨filled, hf, rfl⟩ := map_eq_ok_iff.mp h
    obtain ⟨early, hf, hgrows⟩ := fill_early hf
    exact ⟨_, map_eq_ok_iff.mpr ⟨early, hf, rfl⟩, put_grows_put parent _ hgrows.close⟩
  · obtain ⟨filled, hf, rfl⟩ := map_eq_ok_iff.mp h
    obtain ⟨early, hf, hgrows⟩ := fill_early hf
    exact ⟨_, map_eq_ok_iff.mpr ⟨early, hf, rfl⟩,
      put_grows_put parent _ (.last _ _ [] hgrows.close)⟩
  · next finished span entries _ hfound =>
    obtain ⟨last, hf, h⟩ := bind_eq_ok_iff.mp h
    obtain ⟨changed, hchanged, h⟩ := bind_eq_ok_iff.mp h
    cases h
    obtain ⟨early, hf, hgrows⟩ := fill_early hf
    suffices hchange : _ by
      obtain ⟨entries', hentries', hgrows⟩ := change_early hchange hchanged
      exact ⟨_, bind_eq_ok_iff.mpr ⟨early, hf, bind_eq_ok_iff.mpr ⟨entries', hentries', rfl⟩⟩, hgrows⟩
    intro before after hafter
    cases hafter
    exact ⟨_, rfl, .last _ _ _ hgrows.close⟩
  · cases h

theorem exists_mem_change {key : Key} {f : Option Draft → Except SyntaxError Draft}
    {entries changed : List (Key × Draft)} (h : change key f entries = .ok changed) :
    ∃ k before after, f before = .ok after ∧ (k, after) ∈ changed := by
  induction entries generalizing changed with
  | nil =>
      simp only [change, bind_eq_ok_iff, pure_eq_ok_iff] at h
      obtain ⟨draft, hdraft, rfl⟩ := h
      exact ⟨key, none, draft, hdraft, List.mem_cons_self⟩
  | cons entry rest ih =>
      obtain ⟨k, draft⟩ := entry
      rw [change] at h
      by_cases hk : k.name = key.name
      · simp only [hk, ite_true, bind_eq_ok_iff, pure_eq_ok_iff] at h
        obtain ⟨draft', hdraft', rfl⟩ := h
        exact ⟨k, some draft, draft', hdraft', List.mem_cons_self⟩
      · simp only [hk, ite_false, bind_eq_ok_iff, pure_eq_ok_iff] at h
        obtain ⟨rest', hrest', rfl⟩ := h
        obtain ⟨k', before, after, hafter, hmem⟩ := ih hrest'
        exact ⟨k', before, after, hafter, List.mem_cons_of_mem _ hmem⟩

/-- The table at the end of a path is a part of that in which the path begins. -/
theorem descend_within {offset : ℕ} {origin : Origin} {path : List Key}
    {f : Table → Except SyntaxError Table} {t t' : Table}
    (h : descend offset origin path f t = .ok t') :
    ∃ last last', f last = .ok last' ∧
      ∃ span, (Node.table span (closeEntries last'.entries)).Within t'.close := by
  induction path generalizing t t' with
  | nil => exact ⟨t, t', h, t'.span, .refl⟩
  | cons key path ih =>
      simp only [descend, bind_eq_ok_iff, pure_eq_ok_iff] at h
      obtain ⟨entries, hentries, rfl⟩ := h
      obtain ⟨k, before, after, hafter, hmem⟩ := exists_mem_change hentries
      have hpart : after.close ∈ (Table.close { t with entries }).parts := by
        rw [Table.close, Node.parts, closeEntries_eq_map, List.map_map]
        exact List.mem_map_of_mem hmem
      have hentered {entered : Table} {start : Table}
          (h : descend offset origin path f start = .ok entered)
          (hwithin : entered.close.Within after.close) :
          ∃ last last', f last = .ok last' ∧ ∃ span,
            (Node.table span (closeEntries last'.entries)).Within (Table.close { t with entries }) := by
        obtain ⟨last, last', hlast, span, hspan⟩ := ih h
        exact ⟨last, last', hlast, span, (hspan.trans hwithin).trans (.part hpart .refl)⟩
      cases before with
      | none =>
          obtain ⟨entered, h, rfl⟩ := map_eq_ok_iff.mp hafter
          exact hentered h .refl
      | some draft =>
          cases draft with
          | value => cases hafter
          | table o span es =>
              simp only at hafter
              split at hafter
              · cases hafter
              · obtain ⟨entered, h, rfl⟩ := map_eq_ok_iff.mp hafter
                exact hentered h .refl
          | tables finished span es =>
              obtain ⟨entered, h, rfl⟩ := map_eq_ok_iff.mp hafter
              refine hentered h (.part ?_ .refl)
              exact List.mem_append_right _ List.mem_cons_self

/-- A header of its own puts a table at the end of the one that it belongs to. -/
theorem openSection_ends {header : Header} (hmultiple : header.isMultiple = false)
    {as : List Assignment} {t t' : Table} (h : openSection header as t = .ok t') :
    ∃ span entries value,
      (Node.table span (entries ++ [(header.path.last, value)])).Within t'.close := by
  obtain ⟨parent, parent', h, span, hwithin⟩ := descend_within h
  have hput {draft : Draft} (hparent : parent' = parent.put header.path.last draft) :
      ∃ span entries value,
        (Node.table span (entries ++ [(header.path.last, value)])).Within t'.close := by
    rw [hparent, put, closeEntries_eq_map, List.map_append] at hwithin
    exact ⟨span, _, _, hwithin⟩
  rw [hmultiple] at h
  split at h
  · obtain ⟨filled, -, rfl⟩ := map_eq_ok_iff.mp h
    exact hput rfl
  · obtain ⟨filled, -, rfl⟩ := map_eq_ok_iff.mp h
    exact hput rfl
  · next hfalse _ => cases hfalse
  · next hfalse _ => cases hfalse
  · cases h

end Table

end Sections

/-! ## Lines -/

theorem sections_concat_header (ls : List Line) (header : Header) :
    sections (ls ++ [.header header]) = ((sections ls).1, (sections ls).2 ++ [(header, [])]) := by
  induction ls with
  | nil => rfl
  | cons l ls ih => cases l <;> simp [sections, ih]

/-- An assignment belongs to the last header above it, if there is one. -/
theorem sections_concat_assignment (ls : List Line) (a : Assignment) :
    ((sections ls).2 = [] → sections (ls ++ [.assignment a]) = ((sections ls).1 ++ [a], [])) ∧
      ∀ others header as, (sections ls).2 = others ++ [(header, as)] →
        sections (ls ++ [.assignment a]) = ((sections ls).1, others ++ [(header, as ++ [a])]) := by
  induction ls with
  | nil => exact ⟨fun _ => rfl, fun others header as h => by simp [sections] at h⟩
  | cons l ls ih =>
      obtain ⟨hnone, hlast⟩ := ih
      cases l with
      | assignment b =>
          refine ⟨fun h => ?_, fun others header as h => ?_⟩
          · simp [sections, hnone h]
          · simp [sections, hlast others header as h]
      | header header =>
          refine ⟨fun h => by simp [sections] at h, fun others header' as h => ?_⟩
          cases others with
          | nil =>
              obtain ⟨hsection, hothers⟩ := List.cons_eq_cons.mp h
              cases hsection
              simp [sections, hnone hothers]
          | cons other others =>
              obtain ⟨hsection, hothers⟩ := List.cons_eq_cons.mp h
              cases hsection
              simp [sections, hlast others header' as hothers]

section Lines

variable {ls all : List Line}

theorem kept_sections (hdistinct : ∀ l ∈ ls, l.DistinctKeys) (hall : ∀ l ∈ ls, l ∈ all)
    {root t : Table} (hroot : Table.fill [] (sections ls).1 ⟨.written, ⟨0, 0⟩, []⟩ = .ok root)
    (h : (sections ls).2.foldlM (fun t (h, as) => t.openSection h as) root = .ok t) :
    DistinctEntries t.entries ∧ EntriesPassed all t.entries := by
  obtain ⟨hvalues, hsections⟩ := distinctKeys_of_mem_sections hdistinct
  have hheaders (s) (hs : s ∈ (sections ls).2) := ((mem_of_mem_sections ls).2 s hs).1
  have hempty : EntriesPassed all [] := by simp [EntriesPassed]
  refine foldlM_preserves (fun t => DistinctEntries t.entries ∧ EntriesPassed all t.entries) ?_
    ⟨Table.fill_distinct hvalues .nil hroot, (Table.fill_passed hempty hroot).1⟩ h
  intro t t' s hs ht hstep
  exact ⟨Table.openSection_distinct (hsections s hs) ht.1 hstep,
    Table.openSection_passed (hall _ (hheaders s hs)) ht.2 hstep⟩

/-- With a line more the document grows. -/
theorem assemble_early {l : Line} (hdistinct : ∀ l' ∈ ls ++ [l], l'.DistinctKeys)
    (hall : ∀ l' ∈ ls ++ [l], l' ∈ all) {document : Node} (h : assemble (ls ++ [l]) = .ok document) :
    ∃ early, assemble ls = .ok early ∧ early.Grows (GivesWay all) document := by
  obtain ⟨root, t, hroot, ht, rfl⟩ := assemble_eq_ok_iff.mp h
  cases l with
  | header header =>
      rw [sections_concat_header] at hroot ht
      obtain ⟨last, hlast, hstep⟩ := foldlM_concat_eq_ok_iff.mp ht
      have hdistinct' (l) (hl : l ∈ ls) := hdistinct l (List.mem_append_left _ hl)
      have hall' (l) (hl : l ∈ ls) := hall l (List.mem_append_left _ hl)
      obtain ⟨hd, hp⟩ := kept_sections hdistinct' hall' hroot hlast
      have hheader := hall (.header header) (List.mem_append_right _ List.mem_cons_self)
      exact ⟨_, assemble_eq_ok_iff.mpr ⟨root, last, hroot, hlast, rfl⟩,
        (Table.openSection_grows hheader hd hp hstep).close⟩
  | assignment a =>
      obtain ⟨hnone, hsome⟩ := sections_concat_assignment ls a
      rcases List.eq_nil_or_concat (sections ls).2 with hnil | ⟨others, ⟨header, as⟩, hothers⟩
      · rw [hnone hnil] at hroot ht
        cases ht
        obtain ⟨early, hearly, hgrows⟩ := Table.fill_early hroot
        exact ⟨_, assemble_eq_ok_iff.mpr ⟨early, early, hearly, by rw [hnil]; rfl, rfl⟩,
          hgrows.close⟩
      · rw [List.concat_eq_append] at hothers
        rw [hsome others header as hothers] at hroot ht
        obtain ⟨last, hlast, hstep⟩ := foldlM_concat_eq_ok_iff.mp ht
        obtain ⟨early, hearly, hgrows⟩ := Table.openSection_early hstep
        refine ⟨_, assemble_eq_ok_iff.mpr ⟨root, early, hroot, ?_, rfl⟩, hgrows.close⟩
        rw [hothers]
        exact foldlM_concat_eq_ok_iff.mpr ⟨last, hlast, hearly⟩

/-- A document comes about line by line: every part of its lines, from the first one on, makes a
document that grows to it, and at a header of its own a table is the last one in its table. -/
structure Node.LineByLine (ls : List Line) (document : Node) : Prop where
  grows : ∀ before after, ls = before ++ after →
    ∃ early, assemble before = .ok early ∧ early.Grows (GivesWay ls) document
  opened : ∀ before header after, ls = before ++ .header header :: after →
    header.isMultiple = false → ∃ early span entries value,
      assemble (before ++ [.header header]) = .ok early ∧
        (Node.table span (entries ++ [(header.path.last, value)])).Within early

theorem lineByLine_assemble (hdistinct : ∀ l ∈ ls, l.DistinctKeys) {document : Node}
    (h : assemble ls = .ok document) : document.LineByLine ls := by
  have hgrows (after) : ∀ before, ls = before ++ after →
      ∃ early, assemble before = .ok early ∧ early.Grows (GivesWay ls) document := by
    induction after with
    | nil =>
        intro before hsplit
        rw [List.append_nil] at hsplit
        exact ⟨document, hsplit ▸ h, .refl document⟩
    | cons l after ih =>
        intro before hsplit
        have hsplit' : ls = (before ++ [l]) ++ after := by simpa using hsplit
        obtain ⟨later, hlater, hgrows⟩ := ih (before ++ [l]) hsplit'
        have hall (l') (hl : l' ∈ before ++ [l]) : l' ∈ ls := by
          rw [hsplit']
          exact List.mem_append_left _ hl
        obtain ⟨early, hearly, hgrows'⟩ :=
          assemble_early (fun l' hl => hdistinct l' (hall l' hl)) hall hlater
        exact ⟨early, hearly, hgrows'.trans (GivesWay.trans ls) hgrows⟩
  refine ⟨fun before after hsplit => hgrows after before hsplit, ?_⟩
  intro before header after hsplit hmultiple
  obtain ⟨early, hearly, -⟩ := hgrows after (before ++ [.header header]) (by simpa using hsplit)
  obtain ⟨root, t, -, ht, rfl⟩ := assemble_eq_ok_iff.mp hearly
  rw [sections_concat_header] at ht
  obtain ⟨last, -, hstep⟩ := foldlM_concat_eq_ok_iff.mp ht
  obtain ⟨span, entries, value, hwithin⟩ := Table.openSection_ends hmultiple hstep
  exact ⟨t.close, span, entries, value, hearly, hwithin⟩

end Lines

/-- The same of a table in one line; there nothing moves. -/
theorem inlineTable_early {before after : List Assignment} {span : Span} {node : Node}
    (h : inlineTable (before ++ after) span = .ok node) :
    ∃ early, inlineTable before span = .ok early ∧ early.Grows (fun _ _ => False) node := by
  obtain ⟨t, ht, rfl⟩ := map_eq_ok_iff.mp h
  rw [List.foldlM_append] at ht
  obtain ⟨early, hearly, ht⟩ := bind_eq_ok_iff.mp ht
  have hgrows : early.Grows (fun _ _ => False) t := by
    refine foldlM_preserves (fun t => early.Grows (fun _ _ => False) t) ?_ (.of_entries_eq rfl) ht
    intro t t' a _ hs hstep
    exact hs.trans (fun _ _ _ h => h.elim) (Table.assign_grows hstep)
  exact ⟨_, map_eq_ok_iff.mpr ⟨early, hearly, rfl⟩, hgrows.close⟩

end BlockOutline.Toml
