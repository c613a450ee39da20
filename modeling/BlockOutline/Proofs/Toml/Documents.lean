import BlockOutline.Proofs.Toml.Drafts
import BlockOutline.Proofs.Toml.Readers
import BlockOutline.Toml.Document

/-! # Keys of documents

A document that can be read is a table, and no table in it has a key twice. -/

namespace BlockOutline.Toml

open Fallible

/-! ## Lines and sections -/

theorem exists_reads_keyPath_of_header {c after : Cursor} {h : Header}
    (hreads : Reads header c h after) : ∃ start stop, Reads keyPath start h.path stop := by
  obtain ⟨found, hfound, rfl, -⟩ := hreads
  obtain ⟨path, hpath, hfound⟩ := bind_eq_ok_iff.mp hfound
  rw [ite_eq_iff] at hfound
  rcases hfound with ⟨-, hfail⟩ | ⟨-, hfound⟩
  · cases hfail
  · cases hfound
    exact ⟨_, path.after, reads_of_eq_ok hpath⟩

/-- A line that says something is a header or an assignment, and ends in a remark at most. -/
theorem reads_line {c after : Cursor} {l : Line} (h : Reads line c (some l) after) :
    ∃ stop, skipRemark stop = after ∧
      ((∃ opened, Reads header (c.skipWhile isBlank) opened stop ∧ .header opened = l) ∨
        ∃ a, Reads (assignment value) (c.skipWhile isBlank) a stop ∧ .assignment a = l) := by
  obtain ⟨found, hfound, hvalue, rfl⟩ := h
  obtain ⟨said, hsaid, hfound⟩ := bind_eq_ok_iff.mp hfound
  rw [ite_eq_iff] at hfound
  rcases hfound with ⟨-, hfail⟩ | ⟨-, hfound⟩
  · cases hfail
  · cases hfound
    refine ⟨said.after, rfl, ?_⟩
    have hcontent : said.value = some l := hvalue
    unfold lineContent at hsaid
    split at hsaid
    · cases hsaid
      cases hcontent
    · cases hsaid
      cases hcontent
    · cases hsaid
      cases hcontent
    · cases hsaid
      cases hcontent
    · obtain ⟨opened, hopened, rfl⟩ := map_eq_ok_iff.mp hsaid
      cases hcontent
      exact .inl ⟨_, reads_of_eq_ok hopened, rfl⟩
    · obtain ⟨assigned, hassigned, rfl⟩ := map_eq_ok_iff.mp hsaid
      cases hcontent
      exact .inr ⟨_, reads_of_eq_ok hassigned, rfl⟩

/-- What every header and every assignment that can be read satisfies, all lines of a text satisfy. -/
theorem forall_mem_lines {P : Line → Prop}
    (hheader : ∀ c h after, Reads header c h after → P (.header h))
    (hassignment : ∀ c a after, Reads (assignment value) c a after → P (.assignment a))
    (c : Cursor) : ∀ l ∈ (lines c).1, P l := by
  have hline {c : Cursor} {found : Found (Option Line) c} (h : line c = .ok found) :
      ∀ l ∈ found.value.toList, P l := by
    intro l hl
    have hreads := reads_of_eq_ok h
    rw [Option.mem_toList.mp hl] at hreads
    obtain ⟨stop, -, hsaid⟩ := reads_line hreads
    rcases hsaid with ⟨opened, hopened, rfl⟩ | ⟨a, ha, rfl⟩
    · exact hheader _ opened stop hopened
    · exact hassignment _ a stop ha
  fun_induction lines c with
  | case1 => simp
  | case2 c found hfound => exact hline hfound
  | case3 c found hfound _ _ _ _ more failure hmore ih =>
      rw [hmore] at ih
      intro l hl
      rcases List.mem_append.mp hl with hl | hl
      · exact hline hfound l hl
      · exact ih l hl

/-- Sections hold nothing but the lines that were split. -/
theorem mem_of_mem_sections (ls : List Line) :
    (∀ a ∈ (sections ls).1, Line.assignment a ∈ ls) ∧
      ∀ s ∈ (sections ls).2, Line.header s.1 ∈ ls ∧ ∀ a ∈ s.2, Line.assignment a ∈ ls := by
  induction ls with
  | nil => simp [sections]
  | cons l rest ih =>
      obtain ⟨hfirst, hothers⟩ := ih
      have hothers' : ∀ s ∈ (sections rest).2,
          Line.header s.1 ∈ l :: rest ∧ ∀ a ∈ s.2, Line.assignment a ∈ l :: rest := by
        intro s hs
        obtain ⟨hheader, has⟩ := hothers s hs
        exact ⟨List.mem_cons_of_mem l hheader, fun a ha => List.mem_cons_of_mem l (has a ha)⟩
      cases l with
      | header header =>
          refine ⟨by simp [sections], ?_⟩
          intro s hs
          rcases List.mem_cons.mp hs with rfl | hs
          · exact ⟨List.mem_cons_self, fun a ha => List.mem_cons_of_mem _ (hfirst a ha)⟩
          · exact hothers' s hs
      | assignment a =>
          refine ⟨?_, hothers'⟩
          intro b hb
          rcases List.mem_cons.mp hb with rfl | hb
          · exact List.mem_cons_self
          · exact List.mem_cons_of_mem _ (hfirst b hb)

theorem assemble_eq_ok_iff {ls : List Line} {document : Node} :
    assemble ls = .ok document ↔
      ∃ root t, Table.fill [] (sections ls).1 ⟨.written, ⟨0, 0⟩, []⟩ = .ok root ∧
        (sections ls).2.foldlM (fun t (h, as) => t.openSection h as) root = .ok t ∧
        t.close = document := by
  simp only [assemble, bind_eq_ok_iff, map_eq_ok_iff]
  constructor
  · rintro ⟨root, hroot, t, ht, hclose⟩
    exact ⟨root, t, hroot, ht, hclose⟩
  · rintro ⟨root, t, hroot, ht, hclose⟩
    exact ⟨root, hroot, t, ht, hclose⟩

theorem assemble_of_parse {source : String} {document : Node} (h : parse source = .ok document) :
    assemble (lines (Cursor.ofText source).afterMark).1 = .ok document := by
  obtain ⟨root, hroot, h⟩ := bind_eq_ok_iff.mp h
  split at h
  · cases h
  · cases h
    exact hroot

/-! ## Values -/

theorem foldlM_assign_distinct {name : Option (List String)} {entries : List Assignment}
    (hentries : ∀ entry ∈ entries, entry.node.DistinctKeys) {t t' : Table}
    (ht : DistinctEntries t.entries)
    (h : entries.foldlM (fun t entry => t.assign entry.offset name entry.path entry.node) t =
      .ok t') : DistinctEntries t'.entries := by
  refine foldlM_preserves (fun t => DistinctEntries t.entries) ?_ ht h
  intro s s' entry he hs hstep
  exact Table.assign_distinct (hentries entry he) hs hstep

theorem distinctKeys_inlineTable {entries : List Assignment}
    (hentries : ∀ entry ∈ entries, entry.node.DistinctKeys) {span : Span} {node : Node}
    (h : inlineTable entries span = .ok node) : node.DistinctKeys := by
  obtain ⟨t, ht, rfl⟩ := map_eq_ok_iff.mp h
  have hdistinct := foldlM_assign_distinct hentries .nil ht
  exact (hdistinct.draft .written t.span).close

/-- Whatever is read as a value has distinct keys. -/
theorem distinctKeys_of_reads {depth : ℕ} {c after : Cursor} {node : Node}
    (h : Reads (valueWithin depth) c node after) : node.DistinctKeys := by
  refine valueWithin_induction ?scalar ?array ?table h
  · intro _ span value
    exact .scalar span value
  · intro _ span nodes hnodes
    exact .array span hnodes
  · intro _ span as node has htable
    exact distinctKeys_inlineTable has htable

/-- The value of a line, if it has one, has distinct keys. -/
def Line.DistinctKeys : Line → Prop
  | .header _ => True
  | .assignment a => a.node.DistinctKeys

theorem distinctKeys_of_mem_lines (c : Cursor) : ∀ l ∈ (lines c).1, l.DistinctKeys := by
  refine forall_mem_lines (fun _ _ _ _ => trivial) ?_ c
  intro c a after h
  obtain ⟨-, stop, -, -, stop', hnode, -⟩ := reads_assignment_iff.mp h
  exact distinctKeys_of_reads hnode

theorem distinctKeys_of_mem_sections {ls : List Line} (hls : ∀ l ∈ ls, l.DistinctKeys) :
    (∀ a ∈ (sections ls).1, a.node.DistinctKeys) ∧
      ∀ s ∈ (sections ls).2, ∀ a ∈ s.2, a.node.DistinctKeys := by
  obtain ⟨hfirst, hothers⟩ := mem_of_mem_sections ls
  refine ⟨fun a ha => hls _ (hfirst a ha), ?_⟩
  intro s hs a ha
  exact hls _ ((hothers s hs).2 a ha)

/-! ## Sections -/

namespace Table

theorem fill_distinct {path : List String} {assignments : List Assignment}
    (ha : ∀ a ∈ assignments, a.node.DistinctKeys) {t t' : Table} (ht : DistinctEntries t.entries)
    (h : fill path assignments t = .ok t') : DistinctEntries t'.entries := by
  refine foldlM_preserves (fun t => DistinctEntries t.entries) ?_ ht h
  intro s s' a hmem hs hstep
  obtain ⟨assigned, hassigned, rfl⟩ := map_eq_ok_iff.mp hstep
  have hkeeps : DistinctEntries assigned.entries := assign_distinct (ha a hmem) hs hassigned
  exact hkeeps

/-- Opens the table of a header in the one that it belongs to. -/
def openTable (header : Header) (as : List Assignment) (parent : Table) :
    Except SyntaxError Table :=
  let filled (entries : List (Key × Draft)) : Except SyntaxError Table :=
    fill header.path.names as ⟨.written, header.span, entries⟩
  match header.isMultiple, parent.find? header.path.last.name with
  | false, none => (parent.put header.path.last ·.draft) <$> filled []
  | false, some (.table .implied _ entries) =>
    (parent.put header.path.last ·.draft) <$> filled entries
  | true, none =>
    (fun last => parent.put header.path.last (.tables [] last.span last.entries)) <$> filled []
  | true, some (.tables finished span entries) => do
    let last ← filled []
    let entries ← change header.path.last (fun _ =>
      pure (.tables (finished ++ [.table span (closeEntries entries)]) last.span last.entries))
      parent.entries
    pure { parent with entries }
  | _, _ =>
    .error ⟨.duplicateTable header.path.last.name (header.path.parents.map (·.name)),
      header.span.start⟩

theorem openSection_eq_descend (header : Header) (as : List Assignment) (t : Table) :
    openSection header as t =
      t.descend header.span.start .implied header.path.parents (openTable header as) :=
  rfl

/-- The ways in which a header opens its table. -/
inductive Opens (header : Header) (as : List Assignment) (parent : Table) : Table → Prop where
  | new {filled} (single : header.isMultiple = false)
      (absent : parent.find? header.path.last.name = none)
      (h : fill header.path.names as ⟨.written, header.span, []⟩ = .ok filled) :
      Opens header as parent (parent.put header.path.last filled.draft)
  | implied {span entries filled} (single : header.isMultiple = false)
      (found : parent.find? header.path.last.name = some (.table .implied span entries))
      (h : fill header.path.names as ⟨.written, header.span, entries⟩ = .ok filled) :
      Opens header as parent (parent.put header.path.last filled.draft)
  | first {filled} (multiple : header.isMultiple = true)
      (absent : parent.find? header.path.last.name = none)
      (h : fill header.path.names as ⟨.written, header.span, []⟩ = .ok filled) :
      Opens header as parent
        (parent.put header.path.last (.tables [] filled.span filled.entries))
  | next {finished span entries filled changed} (multiple : header.isMultiple = true)
      (found : parent.find? header.path.last.name = some (.tables finished span entries))
      (h : fill header.path.names as ⟨.written, header.span, []⟩ = .ok filled)
      (hchanged : change header.path.last (fun _ =>
        pure (.tables (finished ++ [.table span (closeEntries entries)]) filled.span filled.entries))
        parent.entries = .ok changed) :
      Opens header as parent { parent with entries := changed }

theorem openTable_eq_ok_iff {header : Header} {as : List Assignment} {parent parent' : Table} :
    openTable header as parent = .ok parent' ↔ Opens header as parent parent' := by
  constructor
  · intro h
    unfold openTable at h
    split at h
    · next hsingle habsent =>
      obtain ⟨filled, hf, rfl⟩ := map_eq_ok_iff.mp h
      exact .new hsingle habsent hf
    · next hsingle hfound =>
      obtain ⟨filled, hf, rfl⟩ := map_eq_ok_iff.mp h
      exact .implied hsingle hfound hf
    · next hmultiple habsent =>
      obtain ⟨filled, hf, rfl⟩ := map_eq_ok_iff.mp h
      exact .first hmultiple habsent hf
    · next hmultiple hfound =>
      obtain ⟨filled, hf, h⟩ := bind_eq_ok_iff.mp h
      obtain ⟨changed, hchanged, h⟩ := bind_eq_ok_iff.mp h
      cases h
      exact .next hmultiple hfound hf hchanged
    · cases h
  · intro h
    unfold openTable
    cases h with
    | new single absent h =>
        rw [single, absent]
        exact map_eq_ok_iff.mpr ⟨_, h, rfl⟩
    | implied single found h =>
        rw [single, found]
        exact map_eq_ok_iff.mpr ⟨_, h, rfl⟩
    | first multiple absent h =>
        rw [multiple, absent]
        exact map_eq_ok_iff.mpr ⟨_, h, rfl⟩
    | next multiple found h hchanged =>
        rw [multiple, found]
        exact bind_eq_ok_iff.mpr ⟨_, h, bind_eq_ok_iff.mpr ⟨_, hchanged, rfl⟩⟩

theorem openSection_distinct {header : Header} {assignments : List Assignment}
    (ha : ∀ a ∈ assignments, a.node.DistinctKeys) {t t' : Table} (ht : DistinctEntries t.entries)
    (h : openSection header assignments t = .ok t') : DistinctEntries t'.entries := by
  refine descend_distinct ?_ ht h
  intro parent parent' hparent h
  cases openTable_eq_ok_iff.mp h with
  | new _ _ hf => exact put_distinct hparent _ ((fill_distinct ha .nil hf).draft _ _)
  | implied _ found hf =>
      cases find?_distinctKeys hparent found with
      | table _ _ nodup hbelow =>
          exact put_distinct hparent _ ((fill_distinct ha ⟨nodup, hbelow⟩ hf).draft _ _)
  | first _ _ hf =>
      have hlast := fill_distinct ha .nil hf
      exact put_distinct hparent _ (.tables _ (by simp) hlast.nodup hlast.below)
  | @next finished span entries _ _ _ found hf hchanged =>
      have hlast := fill_distinct ha .nil hf
      cases find?_distinctKeys hparent found with
      | tables _ hfinished nodup hbelow =>
          refine change_distinct hparent ?_ hchanged
          intro before after _ hafter
          cases hafter
          refine .tables _ ?_ hlast.nodup hlast.below
          intro node hn
          rcases List.mem_append.mp hn with hn | hn
          · exact hfinished node hn
          · rw [List.mem_singleton.mp hn]
            exact (DistinctEntries.draft ⟨nodup, hbelow⟩ .written span).close

end Table

/-! ## Documents -/

theorem distinct_assemble {ls : List Line} (hls : ∀ l ∈ ls, l.DistinctKeys) {document : Node}
    (h : assemble ls = .ok document) :
    ∃ span entries, document = .table span entries ∧ document.DistinctKeys := by
  obtain ⟨hfirst, hothers⟩ := distinctKeys_of_mem_sections hls
  obtain ⟨root, t, hroot, ht, rfl⟩ := assemble_eq_ok_iff.mp h
  have hdistinct : DistinctEntries t.entries := by
    refine foldlM_preserves (fun t => DistinctEntries t.entries) ?_
      (Table.fill_distinct hfirst .nil hroot) ht
    intro s s' section' hmem hs hstep
    exact Table.openSection_distinct (hothers section' hmem) hs hstep
  exact ⟨t.span, closeEntries t.entries, rfl, (hdistinct.draft .written t.span).close⟩

/-- A document that can be read is a table without repeated keys, and so is every table in it. -/
theorem distinctKeys_parse {source : String} {document : Node} (h : parse source = .ok document) :
    ∃ span entries, document = .table span entries ∧ document.DistinctKeys :=
  distinct_assemble (distinctKeys_of_mem_lines _) (assemble_of_parse h)

end BlockOutline.Toml
