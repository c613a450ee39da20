import BlockOutline.Proofs.Fallible
import BlockOutline.Toml.Draft

/-! # Keys of tables under construction

No table ever gets a key twice, whatever headers and dotted keys add to it. -/

namespace BlockOutline.Toml

open Fallible

/-- Every table in a value, however deep, has each of its keys once. -/
inductive Node.DistinctKeys : Node → Prop where
  | scalar (span value) : DistinctKeys (.scalar span value)
  | array (span) {items} (h : ∀ item ∈ items, DistinctKeys item) : DistinctKeys (.array span items)
  | table (span) {entries} (nodup : (entries.map (·.1.name)).Nodup)
      (h : ∀ entry ∈ entries, DistinctKeys entry.2) : DistinctKeys (.table span entries)

/-- The same of what becomes a value when nothing more is added. -/
inductive Draft.DistinctKeys : Draft → Prop where
  | value {node} (h : node.DistinctKeys) : DistinctKeys (.value node)
  | table (origin span) {entries} (nodup : (entries.map (·.1.name)).Nodup)
      (h : ∀ entry ∈ entries, DistinctKeys entry.2) : DistinctKeys (.table origin span entries)
  | tables (span) {finished entries} (hf : ∀ node ∈ finished, node.DistinctKeys)
      (nodup : (entries.map (·.1.name)).Nodup) (h : ∀ entry ∈ entries, DistinctKeys entry.2) :
      DistinctKeys (.tables finished span entries)

/-- Entries of a table under construction with distinct keys, there and further down. -/
structure DistinctEntries (entries : List (Key × Draft)) : Prop where
  nodup : (entries.map (·.1.name)).Nodup
  below : ∀ entry ∈ entries, entry.2.DistinctKeys

theorem closeEntries_eq_map (entries : List (Key × Draft)) :
    closeEntries entries = entries.map fun entry => (entry.1, entry.2.close) := by
  induction entries with
  | nil => rfl
  | cons entry entries ih =>
      rw [closeEntries, ih, List.map_cons]

theorem distinctKeys_closeEntries (span : Span) {entries : List (Key × Draft)}
    (nodup : (entries.map (·.1.name)).Nodup) (h : ∀ entry ∈ entries, entry.2.close.DistinctKeys) :
    (Node.table span (closeEntries entries)).DistinctKeys := by
  rw [closeEntries_eq_map]
  refine .table span (by simpa [Function.comp_def] using nodup) ?_
  intro entry hentry
  obtain ⟨e, he, rfl⟩ := List.mem_map.mp hentry
  exact h e he

theorem Draft.DistinctKeys.close {draft : Draft} (h : draft.DistinctKeys) :
    draft.close.DistinctKeys := by
  induction h with
  | value h => exact h
  | table origin span nodup _ ih =>
      rw [Draft.close]
      exact distinctKeys_closeEntries span nodup ih
  | tables span hf nodup _ ih =>
      rw [Draft.close]
      refine .array _ ?_
      intro item hi
      rcases List.mem_append.mp hi with hi | hi
      · exact hf item hi
      · rw [List.mem_singleton.mp hi]
        exact distinctKeys_closeEntries span nodup ih

theorem DistinctEntries.nil : DistinctEntries [] :=
  ⟨by simp, by simp⟩

theorem DistinctEntries.draft {entries : List (Key × Draft)} (h : DistinctEntries entries)
    (origin : Origin) (span : Span) : (Draft.table origin span entries).DistinctKeys :=
  .table origin span h.nodup h.below

/-! ## Steps -/

namespace Table

/-- Enters the table at a key of a path, which may have to be made. -/
def enterAt (offset : ℕ) (origin : Origin) (key : Key) (enter : Table → Except SyntaxError Table) :
    Option Draft → Except SyntaxError Draft
  | none => Table.draft <$> enter ⟨origin, key.span, []⟩
  | some (.value _) => .error ⟨.notATable key.name, offset⟩
  | some (.table o span entries) =>
    if origin = .dotted ∧ o = .written then .error ⟨.duplicateKey key.name none, offset⟩
    else Table.draft <$> enter ⟨o, span, entries⟩
  | some (.tables finished span entries) =>
    (fun last => .tables finished last.span last.entries) <$> enter ⟨.written, span, entries⟩

/-- What stands at a key of a path before and after its table is entered. -/
inductive EntersAt (origin : Origin) (key : Key) (enter : Table → Except SyntaxError Table) :
    Option Draft → Draft → Prop where
  | new {entered} (h : enter ⟨origin, key.span, []⟩ = .ok entered) :
      EntersAt origin key enter none entered.draft
  | table {o span entries entered} (hopen : ¬(origin = .dotted ∧ o = .written))
      (h : enter ⟨o, span, entries⟩ = .ok entered) :
      EntersAt origin key enter (some (.table o span entries)) entered.draft
  | tables {finished span entries entered} (h : enter ⟨.written, span, entries⟩ = .ok entered) :
      EntersAt origin key enter (some (.tables finished span entries))
        (.tables finished entered.span entered.entries)

theorem enterAt_eq_ok_iff {offset : ℕ} {origin : Origin} {key : Key}
    {enter : Table → Except SyntaxError Table} {before : Option Draft} {after : Draft} :
    enterAt offset origin key enter before = .ok after ↔ EntersAt origin key enter before after := by
  constructor
  · intro h
    cases before with
    | none =>
        obtain ⟨entered, hentered, rfl⟩ := map_eq_ok_iff.mp h
        exact .new hentered
    | some draft =>
        cases draft with
        | value => cases h
        | table o span entries =>
            rw [enterAt] at h
            split at h
            · cases h
            · next hopen =>
              obtain ⟨entered, hentered, rfl⟩ := map_eq_ok_iff.mp h
              exact .table hopen hentered
        | tables finished span entries =>
            obtain ⟨entered, hentered, rfl⟩ := map_eq_ok_iff.mp h
            exact .tables hentered
  · intro h
    cases h with
    | new h => exact map_eq_ok_iff.mpr ⟨_, h, rfl⟩
    | table hopen h =>
        rw [enterAt, if_neg hopen]
        exact map_eq_ok_iff.mpr ⟨_, h, rfl⟩
    | tables h => exact map_eq_ok_iff.mpr ⟨_, h, rfl⟩

theorem descend_cons_eq_ok_iff {offset : ℕ} {origin : Origin} {key : Key} {path : List Key}
    {f : Table → Except SyntaxError Table} {t t' : Table} :
    descend offset origin (key :: path) f t = .ok t' ↔
      ∃ entries, change key (enterAt offset origin key (descend offset origin path f)) t.entries =
        .ok entries ∧ { t with entries } = t' := by
  have hcons : descend offset origin (key :: path) f t = (do
      let entries ← change key (enterAt offset origin key (descend offset origin path f)) t.entries
      pure { t with entries }) := rfl
  rw [hcons, bind_eq_ok_iff]
  simp only [pure_eq_ok_iff]

/-- Gives the last key of a path its value in the table that its other keys lead to. -/
def assignLast (offset : ℕ) (name : Option (List String)) (path : KeyPath) (node : Node)
    (t : Table) : Except SyntaxError Table :=
  if t.origin = .dotted ↔ path.parents = [] then .error ⟨.duplicateKey path.last.name none, offset⟩
  else if (t.find? path.last.name).isSome then .error ⟨.duplicateKey path.last.name name, offset⟩
  else .ok (t.put path.last (.value node))

theorem assign_eq_descend (offset : ℕ) (name : Option (List String)) (path : KeyPath) (node : Node)
    (t : Table) : t.assign offset name path node =
      t.descend offset .dotted path.parents (assignLast offset name path node) :=
  rfl

theorem assignLast_eq_ok_iff {offset : ℕ} {name : Option (List String)} {path : KeyPath}
    {node : Node} {t t' : Table} : assignLast offset name path node t = .ok t' ↔
      ¬(t.origin = .dotted ↔ path.parents = []) ∧ t.find? path.last.name = none ∧
        t.put path.last (.value node) = t' := by
  unfold assignLast
  split
  · next h => simp [h]
  · next h =>
    split
    · next hsome => simp [Option.isSome_iff_ne_none.mp hsome]
    · next hnone => simp [h, Option.not_isSome_iff_eq_none.mp hnone]

end Table

/-! ## Changing tables -/

namespace Table

theorem find?_distinctKeys {t : Table} (ht : DistinctEntries t.entries) {name : String}
    {draft : Draft} (h : t.find? name = some draft) : draft.DistinctKeys := by
  obtain ⟨entry, he, rfl⟩ := Option.map_eq_some_iff.mp h
  exact ht.below entry (List.mem_of_find?_eq_some he)

theorem put_distinct {t : Table} (ht : DistinctEntries t.entries) (key : Key) {draft : Draft}
    (hd : draft.DistinctKeys) : DistinctEntries (t.put key draft).entries := by
  have hkept : (t.entries.filter (·.1.name ≠ key.name)).Sublist t.entries := List.filter_sublist
  refine ⟨?_, ?_⟩
  · simp only [put, List.map_append, List.map_cons, List.map_nil]
    refine List.nodup_append.mpr ⟨ht.nodup.sublist (hkept.map _), by simp, ?_⟩
    intro name hname other hother
    obtain ⟨entry, he, rfl⟩ := List.mem_map.mp hname
    rw [List.mem_singleton.mp hother]
    simpa using (List.mem_filter.mp he).2
  · intro entry he
    rcases List.mem_append.mp he with he | he
    · exact ht.below entry (hkept.subset he)
    · rw [List.mem_singleton.mp he]
      exact hd

/-- Where an entry is changed the keys stay; where it is missing its key comes last, with a new name.
-/
theorem keys_change {key : Key} {f : Option Draft → Except SyntaxError Draft}
    {entries changed : List (Key × Draft)} (h : change key f entries = .ok changed) :
    changed.map (·.1) = entries.map (·.1) ∨
      key.name ∉ entries.map (·.1.name) ∧ changed.map (·.1) = entries.map (·.1) ++ [key] := by
  induction entries generalizing changed with
  | nil =>
      simp only [change, bind_eq_ok_iff, pure_eq_ok_iff] at h
      obtain ⟨draft, _, rfl⟩ := h
      exact .inr ⟨by simp, rfl⟩
  | cons entry rest ih =>
      obtain ⟨k, draft⟩ := entry
      rw [change] at h
      by_cases hk : k.name = key.name
      · simp only [hk, ite_true, bind_eq_ok_iff, pure_eq_ok_iff] at h
        obtain ⟨draft', _, rfl⟩ := h
        exact .inl (by simp)
      · simp only [hk, ite_false, bind_eq_ok_iff, pure_eq_ok_iff] at h
        obtain ⟨rest', hrest, rfl⟩ := h
        rcases ih hrest with hsame | ⟨hnew, hadded⟩
        · exact .inl (by simp [hsame])
        · refine .inr ⟨?_, by simp [hadded]⟩
          rw [List.map_cons, List.mem_cons, not_or]
          exact ⟨fun he => hk he.symm, hnew⟩

/-- What the changed entry comes to satisfy, and all others satisfied before, holds of all of them. -/
theorem below_change {P Q : Key → Draft → Prop} (hPQ : ∀ k draft, P k draft → Q k draft) {key : Key}
    {f : Option Draft → Except SyntaxError Draft} {entries changed : List (Key × Draft)}
    (hbelow : ∀ entry ∈ entries, P entry.1 entry.2) (hnew : ∀ after, f none = .ok after → Q key after)
    (hf : ∀ k before after, P k before → f (some before) = .ok after → Q k after)
    (h : change key f entries = .ok changed) : ∀ entry ∈ changed, Q entry.1 entry.2 := by
  induction entries generalizing changed with
  | nil =>
      simp only [change, bind_eq_ok_iff, pure_eq_ok_iff] at h
      obtain ⟨draft, hdraft, rfl⟩ := h
      simpa using hnew draft hdraft
  | cons entry rest ih =>
      obtain ⟨k, draft⟩ := entry
      have hdraft : P k draft := hbelow (k, draft) (by simp)
      have hrest : ∀ entry ∈ rest, P entry.1 entry.2 := fun e he => hbelow e (by simp [he])
      rw [change] at h
      by_cases hk : k.name = key.name
      · simp only [hk, ite_true, bind_eq_ok_iff, pure_eq_ok_iff] at h
        obtain ⟨draft', hdraft', rfl⟩ := h
        have hafter := hf k draft draft' hdraft hdraft'
        simpa [hafter] using fun k d he => hPQ k d (hrest (k, d) he)
      · simp only [hk, ite_false, bind_eq_ok_iff, pure_eq_ok_iff] at h
        obtain ⟨rest', hrest', rfl⟩ := h
        have hafter := ih hrest hrest'
        simpa [hPQ k draft hdraft] using hafter

theorem change_distinct {key : Key} {f : Option Draft → Except SyntaxError Draft}
    {entries changed : List (Key × Draft)} (he : DistinctEntries entries)
    (hf : ∀ before after, (∀ draft ∈ before, draft.DistinctKeys) → f before = .ok after →
      after.DistinctKeys) (h : change key f entries = .ok changed) : DistinctEntries changed := by
  have hnames (entries : List (Key × Draft)) :
      entries.map (·.1.name) = (entries.map (·.1)).map (·.name) := by simp
  refine ⟨?_, below_change (fun _ _ hd => hd) he.below (fun after => hf none after (by simp))
    (fun _ before after hbefore => hf (some before) after (by simpa using hbefore)) h⟩
  rcases keys_change h with hsame | ⟨hnew, hadded⟩
  · rw [hnames, hsame, ← hnames]
    exact he.nodup
  · rw [hnames, hadded, List.map_append, ← hnames]
    refine List.nodup_append.mpr ⟨he.nodup, by simp, ?_⟩
    intro name hname other hother heq
    have hother : other = key.name := by simpa using hother
    rw [heq, hother] at hname
    exact hnew hname

/-- If a change keeps keys distinct in a table, it does so at the end of every path. -/
theorem descend_distinct {offset : ℕ} {origin : Origin} {path : List Key}
    {f : Table → Except SyntaxError Table}
    (hf : ∀ t t', DistinctEntries t.entries → f t = .ok t' → DistinctEntries t'.entries)
    {t t' : Table} (ht : DistinctEntries t.entries) (h : descend offset origin path f t = .ok t') :
    DistinctEntries t'.entries := by
  induction path generalizing t t' with
  | nil => exact hf t t' ht h
  | cons key path ih =>
      obtain ⟨entries, hentries, rfl⟩ := descend_cons_eq_ok_iff.mp h
      refine change_distinct ht ?_ hentries
      intro before after hbefore hafter
      cases enterAt_eq_ok_iff.mp hafter with
      | new hentered => exact (ih .nil hentered).draft _ _
      | table _ hentered =>
          cases hbefore _ rfl with
          | table _ _ nodup hbelow => exact (ih ⟨nodup, hbelow⟩ hentered).draft _ _
      | tables hentered =>
          cases hbefore _ rfl with
          | tables _ hfinished nodup hbelow =>
              have hlast := ih ⟨nodup, hbelow⟩ hentered
              exact .tables _ hfinished hlast.nodup hlast.below

theorem assign_distinct {offset : ℕ} {name : Option (List String)} {path : KeyPath} {node : Node}
    (hn : node.DistinctKeys) {t t' : Table} (ht : DistinctEntries t.entries)
    (h : t.assign offset name path node = .ok t') : DistinctEntries t'.entries := by
  refine descend_distinct ?_ ht h
  intro t t' ht h
  obtain ⟨-, -, rfl⟩ := assignLast_eq_ok_iff.mp h
  exact put_distinct ht path.last (.value hn)

end Table

end BlockOutline.Toml
