import BlockOutline.Proofs.Toml.Documents

/-! # How deep documents are nested

There are two limits, one for the arrays and inline tables of a value and one for the parts of a
key. Values stand where keys lead, so in a document both are used up one after the other. -/

namespace BlockOutline.Toml

open Fallible

/-! ## Values and tables -/

/-- A value where keys lead. The tables of one name are an array; each of them was opened by a header
that had a part left for it. Other tables may come from dotted keys as well, below all headers. -/
inductive Node.Keyed (Value : Node → Prop) : (parts : ℕ) → Node → Prop where
  | value {parts node} (h : Value node) : Keyed Value parts node
  | table {parts} (span) {entries} (h : ∀ entry ∈ entries, Keyed Value (parts - 1) entry.2) :
      Keyed Value parts (.table span entries)
  | tables {parts} (hparts : 0 < parts) (span) {items}
      (htables : ∀ item ∈ items, ∃ span entries, item = .table span entries)
      (h : ∀ item ∈ items, Keyed Value parts item) : Keyed Value parts (.array span items)

/-- The same of what becomes a value when nothing more is added. -/
inductive Draft.Keyed (Value : Node → Prop) : (parts : ℕ) → Draft → Prop where
  | value {parts node} (h : Value node) : Keyed Value parts (.value node)
  | table {parts} (origin span) {entries} (h : ∀ entry ∈ entries, Keyed Value (parts - 1) entry.2) :
      Keyed Value parts (.table origin span entries)
  | tables {parts} (hparts : 0 < parts) (span) {finished entries}
      (htables : ∀ item ∈ finished, ∃ span entries, item = .table span entries)
      (hfinished : ∀ item ∈ finished, item.Keyed Value parts)
      (h : ∀ entry ∈ entries, Keyed Value (parts - 1) entry.2) :
      Keyed Value parts (.tables finished span entries)

/-- Entries of a table that keys lead to, with some parts left. -/
def EntriesKeyed (Value : Node → Prop) (parts : ℕ) (entries : List (Key × Draft)) : Prop :=
  ∀ entry ∈ entries, entry.2.Keyed Value parts

/-- A value within a nesting limit: a scalar, or an array or an inline table of values that are
within the limit below. -/
def Node.Written : (limit : ℕ) → Node → Prop
  | 0, node => ∃ span value, node = .scalar span value
  | limit + 1, node => (∃ span value, node = .scalar span value) ∨
      (∃ span items, node = .array span items ∧ ∀ item ∈ items, Written limit item) ∨
        ∃ span entries, node = .table span entries ∧
          ∀ entry ∈ entries, entry.2.Keyed (Written limit) 0

section Keyed

variable {Value : Node → Prop} {parts : ℕ}

theorem EntriesKeyed.nil : EntriesKeyed Value parts [] := by
  simp [EntriesKeyed]

theorem keyed_closeEntries {entries : List (Key × Draft)}
    (h : ∀ entry ∈ entries, entry.2.close.Keyed Value parts) :
    ∀ entry ∈ closeEntries entries, entry.2.Keyed Value parts := by
  rw [closeEntries_eq_map]
  exact List.forall_mem_map.mpr h

/-- The last of several tables is one of them once it is closed. -/
theorem keyed_append_table {finished : List Node}
    (htables : ∀ item ∈ finished, ∃ span entries, item = .table span entries)
    (hfinished : ∀ item ∈ finished, item.Keyed Value parts) (span : Span)
    {entries : List (Key × Node)} (h : ∀ entry ∈ entries, entry.2.Keyed Value (parts - 1)) :
    (∀ item ∈ finished ++ [.table span entries], ∃ span entries, item = .table span entries) ∧
      ∀ item ∈ finished ++ [.table span entries], item.Keyed Value parts := by
  simp only [List.forall_mem_append, List.forall_mem_singleton]
  exact ⟨⟨htables, span, entries, rfl⟩, hfinished, .table span h⟩

theorem Draft.Keyed.close {draft : Draft} (h : draft.Keyed Value parts) :
    draft.close.Keyed Value parts := by
  induction h with
  | value h => exact .value h
  | table _ span _ ih =>
      rw [Draft.close]
      exact .table span (keyed_closeEntries ih)
  | tables hparts span htables hfinished _ ih =>
      rw [Draft.close]
      obtain ⟨htables', hitems⟩ :=
        keyed_append_table htables hfinished span (keyed_closeEntries ih)
      exact .tables hparts _ htables' hitems

theorem EntriesKeyed.close {entries : List (Key × Draft)} (h : EntriesKeyed Value parts entries) :
    ∀ entry ∈ closeEntries entries, entry.2.Keyed Value parts :=
  keyed_closeEntries fun entry he => (h entry he).close

namespace Table

theorem find?_keyed {t : Table} (ht : EntriesKeyed Value parts t.entries) {name : String}
    {draft : Draft} (h : t.find? name = some draft) : draft.Keyed Value parts := by
  obtain ⟨entry, he, rfl⟩ := Option.map_eq_some_iff.mp h
  exact ht entry (List.mem_of_find?_eq_some he)

theorem put_keyed {t : Table} (ht : EntriesKeyed Value parts t.entries) (key : Key) {draft : Draft}
    (hd : draft.Keyed Value parts) : EntriesKeyed Value parts (t.put key draft).entries := by
  intro entry he
  rcases List.mem_append.mp he with he | he
  · exact ht entry (List.mem_of_mem_filter he)
  · rw [List.mem_singleton.mp he]
    exact hd

theorem change_keyed {key : Key} {f : Option Draft → Except SyntaxError Draft}
    {entries changed : List (Key × Draft)} (he : EntriesKeyed Value parts entries)
    (hf : ∀ before after, (∀ draft ∈ before, draft.Keyed Value parts) → f before = .ok after →
      after.Keyed Value parts)
    (h : change key f entries = .ok changed) : EntriesKeyed Value parts changed := by
  let P : Key → Draft → Prop := fun _ draft => draft.Keyed Value parts
  exact below_change (P := P) (Q := P) (fun _ _ hd => hd) he (fun after => hf none after (by simp))
    (fun _ before after hbefore => hf (some before) after (by simpa using hbefore)) h

/-- Every key on a path takes one of the parts that are left. -/
theorem descend_keyed {offset : ℕ} {origin : Origin} {path : List Key}
    {f : Table → Except SyntaxError Table}
    (hf : ∀ t t', EntriesKeyed Value (parts - path.length) t.entries → f t = .ok t' →
      EntriesKeyed Value (parts - path.length) t'.entries)
    {t t' : Table} (ht : EntriesKeyed Value parts t.entries)
    (h : descend offset origin path f t = .ok t') : EntriesKeyed Value parts t'.entries := by
  induction path generalizing parts t t' with
  | nil => exact hf t t' ht h
  | cons key path ih =>
      obtain ⟨entries, hentries, rfl⟩ := descend_cons_eq_ok_iff.mp h
      have hbelow {s s' : Table} (h : descend offset origin path f s = .ok s')
          (hs : EntriesKeyed Value (parts - 1) s.entries) :
          EntriesKeyed Value (parts - 1) s'.entries := by
        refine ih ?_ hs h
        rw [Nat.sub_sub, Nat.add_comm 1]
        exact hf
      refine change_keyed ht ?_ hentries
      intro before after hbefore hafter
      cases enterAt_eq_ok_iff.mp hafter with
      | new hentered => exact .table _ _ (hbelow hentered .nil)
      | table _ hentered =>
          cases hbefore _ rfl with
          | table _ _ hentries => exact .table _ _ (hbelow hentered hentries)
      | tables hentered =>
          cases hbefore _ rfl with
          | tables hparts _ htables hfinished hentries =>
              exact .tables hparts _ htables hfinished (hbelow hentered hentries)

theorem assign_keyed {offset : ℕ} {name : Option (List String)} {path : KeyPath} {node : Node}
    (hn : Value node) {t t' : Table} (ht : EntriesKeyed Value parts t.entries)
    (h : t.assign offset name path node = .ok t') : EntriesKeyed Value parts t'.entries := by
  rw [assign_eq_descend] at h
  refine descend_keyed ?_ ht h
  intro s s' hs h
  obtain ⟨-, -, rfl⟩ := assignLast_eq_ok_iff.mp h
  exact put_keyed hs path.last (.value hn)

theorem fill_keyed {path : List String} {as : List Assignment} (has : ∀ a ∈ as, Value a.node)
    {t t' : Table} (ht : EntriesKeyed Value parts t.entries) (h : fill path as t = .ok t') :
    EntriesKeyed Value parts t'.entries := by
  refine foldlM_preserves (fun t => EntriesKeyed Value parts t.entries) ?_ ht h
  intro s s' a hmem hs hstep
  obtain ⟨assigned, hassigned, rfl⟩ := map_eq_ok_iff.mp hstep
  have hkeeps : EntriesKeyed Value parts assigned.entries := assign_keyed (has a hmem) hs hassigned
  exact hkeeps

/-- A header with fewer parts than are left may open one more of several tables. -/
theorem openSection_keyed {header : Header} (hheader : header.path.parents.length < parts)
    {as : List Assignment} (has : ∀ a ∈ as, Value a.node) {t t' : Table}
    (ht : EntriesKeyed Value parts t.entries) (h : openSection header as t = .ok t') :
    EntriesKeyed Value parts t'.entries := by
  rw [openSection_eq_descend] at h
  have hleft : 0 < parts - header.path.parents.length := Nat.sub_pos_of_lt hheader
  refine descend_keyed ?_ ht h
  intro parent parent' hparent h
  cases openTable_eq_ok_iff.mp h with
  | new _ _ hf => exact put_keyed hparent _ (.table _ _ (fill_keyed has .nil hf))
  | implied _ found hf =>
      cases find?_keyed hparent found with
      | table _ _ hentries =>
          refine put_keyed hparent _ (.table _ _ (fill_keyed has ?_ hf))
          exact hentries
  | first _ _ hf =>
      exact put_keyed hparent _ (.tables hleft _ (by simp) (by simp) (fill_keyed has .nil hf))
  | @next finished span entries _ _ _ found hf hchanged =>
      cases find?_keyed hparent found with
      | tables _ _ htables hfinished hentries =>
          refine change_keyed hparent ?_ hchanged
          intro before after _ hafter
          cases hafter
          obtain ⟨htables', hitems⟩ :=
            keyed_append_table htables hfinished span (EntriesKeyed.close hentries)
          exact .tables hleft _ htables' hitems (fill_keyed has .nil hf)

end Table

end Keyed

/-! ## Documents -/

theorem written_inlineTable {limit : ℕ} {as : List Assignment}
    (has : ∀ a ∈ as, a.node.Written limit) {span : Span} {node : Node}
    (h : inlineTable as span = .ok node) : node.Written (limit + 1) := by
  obtain ⟨t, ht, rfl⟩ := map_eq_ok_iff.mp h
  have hkeyed : EntriesKeyed (Node.Written limit) 0 t.entries := by
    refine foldlM_preserves (fun t => EntriesKeyed (Node.Written limit) 0 t.entries) ?_ .nil ht
    intro s s' a ha hs hstep
    exact Table.assign_keyed (has a ha) hs hstep
  exact .inr (.inr ⟨t.span, _, rfl, hkeyed.close⟩)

theorem written_of_reads {limit : ℕ} {c after : Cursor} {node : Node}
    (h : Reads (valueWithin limit) c node after) : node.Written limit := by
  refine valueWithin_induction ?scalar ?array ?table h
  · intro limit span value
    cases limit with
    | zero => exact ⟨span, value, rfl⟩
    | succ limit => exact .inl ⟨span, value, rfl⟩
  · intro limit span nodes hnodes
    exact .inr (.inl ⟨span, nodes, rfl, hnodes⟩)
  · intro limit span as node has htable
    exact written_inlineTable has htable

/-- What the limits say about a line. -/
def Line.WithinLimits : Line → Prop
  | .header h => h.path.parents.length < depthLimit
  | .assignment a => a.node.Written depthLimit

theorem withinLimits_of_mem_lines (c : Cursor) : ∀ l ∈ (lines c).1, l.WithinLimits := by
  refine forall_mem_lines ?_ ?_ c
  · intro c h after hreads
    obtain ⟨start, stop, hpath⟩ := exists_reads_keyPath_of_header hreads
    have hlength := (reads_keyPath_iff.mp hpath).2
    rw [KeyPath.keys, List.length_append, List.length_singleton] at hlength
    exact hlength
  · intro c a after h
    obtain ⟨-, stop, -, -, stop', hnode, -⟩ := reads_assignment_iff.mp h
    exact written_of_reads hnode

/-- Keys lead to all of a document with no more parts than a key can have, and what is written there
is nested no deeper than a value can be. -/
theorem keyed_parse {source : String} {document : Node} (h : parse source = .ok document) :
    ∃ span entries, document = .table span entries ∧
      ∀ entry ∈ entries, entry.2.Keyed (Node.Written depthLimit) depthLimit := by
  obtain ⟨root, t, hroot, ht, rfl⟩ := assemble_eq_ok_iff.mp (assemble_of_parse h)
  have hlines := withinLimits_of_mem_lines (Cursor.ofText source).afterMark
  obtain ⟨hfirst, hothers⟩ := mem_of_mem_sections (lines (Cursor.ofText source).afterMark).1
  have hkeyed : EntriesKeyed (Node.Written depthLimit) depthLimit t.entries := by
    refine foldlM_preserves
      (fun t => EntriesKeyed (Node.Written depthLimit) depthLimit t.entries) ?_
      (Table.fill_keyed (fun a ha => hlines _ (hfirst a ha)) .nil hroot) ht
    intro s s' section' hmem hs hstep
    obtain ⟨hheader, has⟩ := hothers section' hmem
    exact Table.openSection_keyed (hlines _ hheader) (fun a ha => hlines _ (has a ha)) hs hstep
  exact ⟨t.span, closeEntries t.entries, rfl, hkeyed.close⟩

end BlockOutline.Toml
