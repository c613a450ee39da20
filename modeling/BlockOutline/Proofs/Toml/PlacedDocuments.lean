import BlockOutline.Proofs.Toml.Documents
import BlockOutline.Proofs.Toml.Placement

/-! # Where a document stands

The lines of a text stand one behind the other, and a table that is put together from them has its
keys in this order. -/

namespace BlockOutline.Toml

open Fallible

/-! ## Lines -/

/-- A header that is written in a text between two offsets. -/
structure Header.Between (text : Cursor) (start : ℕ) (h : Header) (stop : ℕ) : Prop where
  keys : ∀ key ∈ h.path.keys, key.Between text start stop
  covers : text.Covers h.span
  start_le : start ≤ h.span.start
  le_stop : h.span.stop ≤ stop

def Line.Between (text : Cursor) (start : ℕ) (l : Line) (stop : ℕ) : Prop :=
  match l with
  | .header h => h.Between text start stop
  | .assignment a => a.Between text start stop

/-- A header with the lines below it. -/
def SectionBetween (text : Cursor) (start : ℕ) (s : Header × List Assignment) (stop : ℕ) : Prop :=
  ∃ middle, s.1.Between text start middle ∧ Chain (Assignment.Between text) middle s.2 stop

section Lines

variable {text : Cursor}

theorem Chain.exists_of_mem {α : Type} {Step : ℕ → α → ℕ → Prop} {start stop : ℕ} {xs : List α}
    (h : Chain Step start xs stop) {x : α} (hx : x ∈ xs) : ∃ first last, Step first x last := by
  induction h with
  | nil => cases hx
  | cons _ hfirst _ ih =>
      rcases List.mem_cons.mp hx with rfl | hx
      · exact ⟨_, _, hfirst⟩
      · exact ih hx

theorem Chain.le {α : Type} {Step : ℕ → α → ℕ → Prop}
    (hstep : ∀ start x stop, Step start x stop → start ≤ stop) {start stop : ℕ} {xs : List α}
    (h : Chain Step start xs stop) : start ≤ stop := by
  induction h with
  | nil h => exact h
  | cons h hx _ ih => exact Nat.le_trans h (Nat.le_trans (hstep _ _ _ hx) ih)

theorem between_of_header {c : Cursor} (hc : text.Reaches c) {found : Found Header c}
    (h : header c = .ok found) : found.value.Between text c.offset found.after.offset := by
  unfold header at h
  obtain ⟨path, hpath, h⟩ := bind_eq_ok_iff.mp h
  have hstart :=
    (c.reaches_skip (if c.rest[1]? = some '[' then 2 else 1)).skipWhile isBlank
  have hafter := path.after.reaches_skip (if c.rest[1]? = some '[' then 2 else 1)
  have hreads : Reads keyParts _ path.value path.after :=
    (reads_keyPath_iff.mp (reads_of_eq_ok hpath)).1
  by_cases hshort : (path.after.rest.takeWhile (· = ']')).length <
      (if c.rest[1]? = some '[' then 2 else 1)
  · rw [if_pos hshort] at h
    cases h
  · rw [if_neg hshort] at h
    cases h
    refine ⟨?_, hc.covers ((hstart.trans path.reaches).trans hafter), Nat.le_refl _, Nat.le_refl _⟩
    intro key hkey
    have hbetween := between_of_reads_keyParts (hc.trans hstart) hreads key hkey
    exact hbetween.mono hstart.offset_le hafter.offset_le

theorem Line.Between.mono {start start' stop stop' : ℕ} {l : Line} (h : l.Between text start stop)
    (hstart : start' ≤ start) (hstop : stop ≤ stop') : l.Between text start' stop' := by
  cases l with
  | header header =>
      exact ⟨fun key hkey => (h.keys key hkey).mono hstart hstop, h.covers,
        Nat.le_trans hstart h.start_le, Nat.le_trans h.le_stop hstop⟩
  | assignment a =>
      exact ⟨fun key hkey => (h.keys key hkey).mono hstart hstop, h.node,
        Nat.le_trans hstart h.start_le, Nat.le_trans h.le_stop hstop⟩

theorem between_of_line {c after : Cursor} (hc : text.Reaches c) {l : Line}
    (h : Reads line c (some l) after) : l.Between text c.offset after.offset := by
  obtain ⟨stop, rfl, hsaid⟩ := reads_line h
  have hstart := c.reaches_skipWhile isBlank
  have hbetween : l.Between text (c.skipWhile isBlank).offset stop.offset := by
    rcases hsaid with ⟨_, ⟨found, hfound, rfl, rfl⟩, rfl⟩ | ⟨a, ha, rfl⟩
    · exact between_of_header (hc.trans hstart) hfound
    · exact between_of_reads_assignment (findsPlaced_valueWithin (Nat.le_refl depthLimit))
        (hc.trans hstart) ha
  exact hbetween.mono hstart.offset_le (reaches_skipRemark stop).offset_le

/-- The lines of a text follow one another. -/
theorem chain_lines {c : Cursor} (hc : text.Reaches c) :
    ∃ stop, Chain (Line.Between text) c.offset (lines c).1 stop := by
  have hcons {c : Cursor} {found : Found (Option Line) c} (hc : text.Reaches c)
      (hline : line c = .ok found) {rest : List Line} {stop : ℕ}
      (hrest : Chain (Line.Between text) found.after.offset rest stop) :
      Chain (Line.Between text) c.offset (found.value.toList ++ rest) stop := by
    have hreads := reads_of_eq_ok hline
    cases hvalue : found.value with
    | none => exact hrest.of_le found.reaches.offset_le
    | some l => exact .cons (Nat.le_refl _) (between_of_line hc (hvalue ▸ hreads)) hrest
  fun_induction lines c with
  | case1 => exact ⟨_, .nil (Nat.le_refl _)⟩
  | case2 c found hline =>
      have hend := hcons hc hline (.nil (Nat.le_refl found.after.offset))
      rw [List.append_nil] at hend
      exact ⟨_, hend⟩
  | case3 c found hline _ _ _ _ more failure hmore ih =>
      have hnext := found.after.reaches_skip (lineEnding found.after.rest - 1 + 1)
      obtain ⟨stop, hrest⟩ := ih ((hc.trans found.reaches).trans hnext)
      rw [hmore] at hrest
      exact ⟨stop, hcons hc hline (hrest.of_le hnext.offset_le)⟩

theorem chain_sections {ls : List Line} {start stop : ℕ} (h : Chain (Line.Between text) start ls stop) :
    ∃ middle, Chain (Assignment.Between text) start (sections ls).1 middle ∧
      Chain (SectionBetween text) middle (sections ls).2 stop := by
  induction h with
  | nil h => exact ⟨_, .nil (Nat.le_refl _), .nil h⟩
  | @cons start first last stop l rest hle hl _ ih =>
      obtain ⟨middle, hfirst, hothers⟩ := ih
      cases l with
      | header header =>
          exact ⟨start, .nil (Nat.le_refl _), .cons hle ⟨last, hl, hfirst⟩ hothers⟩
      | assignment a => exact ⟨middle, .cons hle hl hfirst, hothers⟩

end Lines

/-! ## Tables of sections -/

namespace Table

variable {text : Cursor} {start middle stop : ℕ}

/-- A table of a document whose entries are all in place, up to an offset. -/
structure Placed (text : Cursor) (stop : ℕ) (t : Table) : Prop where
  covers : text.Covers t.span
  start_le : t.span.start ≤ stop
  entries : EntriesPlaced text false stop t.entries

theorem Placed.mono {t : Table} (h : t.Placed text start) (hle : start ≤ stop) :
    t.Placed text stop :=
  ⟨h.covers, Nat.le_trans h.start_le hle, h.entries.mono hle⟩

theorem Placed.draft {t : Table} (h : t.Placed text stop) : t.draft.Placed text false stop :=
  .table _ h.covers (fun hfalse => by cases hfalse) h.entries.keys h.entries.below

theorem fill_placed {path : List String} {as : List Assignment}
    (has : Chain (Assignment.Between text) start as stop) {t t' : Table} (ht : t.Placed text start)
    (h : fill path as t = .ok t') : t'.Placed text stop ∧ t'.span.start = t.span.start := by
  refine Chain.foldlM (fun stop (s : Table) => s.Placed text stop ∧ s.span.start = t.span.start)
    ?_ ?_ has ⟨ht, rfl⟩ h
  · intro start stop s hle hs
    exact ⟨hs.1.mono hle, hs.2⟩
  · intro start a stop s s' ha hs hstep
    obtain ⟨assigned, hassigned, rfl⟩ := map_eq_ok_iff.mp hstep
    obtain ⟨hentries, hspan⟩ := assign_placed ha hs.1.entries hassigned
    have hstart : (extendTo a.node.span.stop assigned).span.start = s.span.start := by
      rw [extendTo, hspan]
    have hle : s.span.start ≤ a.node.span.stop := Nat.le_trans hs.1.start_le ha.start_le
    refine ⟨⟨⟨?_, ha.node.covers.stop, ?_⟩, ?_, hentries⟩, hstart.trans hs.2⟩
    · rw [hstart]
      exact hs.1.covers.start
    · rw [hstart]
      exact hle
    · rw [hstart]
      exact Nat.le_trans hle ha.le_stop

theorem openSection_placed {s : Header × List Assignment} (hs : SectionBetween text start s stop)
    {t t' : Table} (ht : t.Placed text start) (h : openSection s.1 s.2 t = .ok t') :
    t'.Placed text stop := by
  obtain ⟨middle, hheader, has⟩ := hs
  obtain ⟨header, as⟩ := s
  have hmiddle : start ≤ middle :=
    Nat.le_trans (Nat.le_trans hheader.start_le hheader.covers.le) hheader.le_stop
  have hstop : middle ≤ stop :=
    has.le fun start a stop ha => Nat.le_trans ha.start_le ha.le_stop
  have hkeys (key) (hkey : key ∈ header.path.keys) : key.Between text start stop :=
    (hheader.keys key hkey).mono (Nat.le_refl start) hstop
  have hlast := hkeys header.path.last (List.mem_append_right _ List.mem_cons_self)
  have hfilled {entries : List (Key × Draft)} {filled : Table}
      (he : EntriesPlaced text false start entries)
      (hf : fill header.path.names as ⟨.written, header.span, entries⟩ = .ok filled) :
      filled.Placed text stop ∧ filled.span.start = header.span.start := by
    refine fill_placed has ⟨hheader.covers, ?_, he.mono hmiddle⟩ hf
    exact Nat.le_trans hheader.covers.le hheader.le_stop
  suffices EntriesPlaced text false stop t'.entries ∧ t'.span = t.span by
    obtain ⟨hentries, hspan⟩ := this
    refine ⟨hspan ▸ ht.covers, ?_, hentries⟩
    rw [hspan]
    exact Nat.le_trans ht.start_le (Nat.le_trans hmiddle hstop)
  refine descend_placed (Nat.le_trans hmiddle hstop)
    (fun key hkey => hkeys key (List.mem_append_left _ hkey)) ?_ ht.entries h
  intro parent parent' hparent h
  cases openTable_eq_ok_iff.mp h with
  | new _ _ hf => exact ⟨put_placed hparent hlast (hfilled .nil hf).1.draft, rfl⟩
  | implied _ found hf =>
      cases find?_placed hparent found with
      | table _ _ _ hkeys hbelow =>
          exact ⟨put_placed hparent hlast (hfilled ⟨hkeys, hbelow⟩ hf).1.draft, rfl⟩
  | first _ _ hf =>
      obtain ⟨hplaced, -⟩ := hfilled .nil hf
      exact ⟨put_placed hparent hlast (.tables rfl hplaced.covers hplaced.start_le (by simp)
        hplaced.entries.keys hplaced.entries.below), rfl⟩
  | @next finished span entries last _ _ found hf hchanged =>
      obtain ⟨hplaced, hstart⟩ := hfilled .nil hf
      refine ⟨change_placed hlast hparent ?_ hchanged, rfl⟩
      intro before after _ hafter
      cases hafter
      cases find?_placed hparent found with
      | tables _ hcovers hle hfinished hkeys hbelow =>
          have hbehind : span.start ≤ last.span.start := by
            rw [hstart]
            exact Nat.le_trans hle hheader.start_le
          refine .tables rfl hplaced.covers hplaced.start_le ?_ hplaced.entries.keys
            hplaced.entries.below
          intro node hn
          rcases List.mem_append.mp hn with hn | hn
          · exact ⟨(hfinished node hn).1, Nat.le_trans (hfinished node hn).2 hbehind⟩
          · rw [List.mem_singleton.mp hn]
            exact ⟨placed_closeEntries hcovers (fun hfalse => by cases hfalse) hkeys
              fun entry he => (hbelow entry he).close, hbehind⟩

end Table

/-! ## Documents -/

theorem placed_assemble {text : Cursor} (htext : text.offset = 0) {ls : List Line} {start stop : ℕ}
    (hls : Chain (Line.Between text) start ls stop) {document : Node} (h : assemble ls = .ok document) :
    document.Placed text false := by
  obtain ⟨middle, hfirst, hothers⟩ := chain_sections hls
  obtain ⟨root, hroot, h⟩ := bind_eq_ok_iff.mp h
  obtain ⟨t, ht, rfl⟩ := map_eq_ok_iff.mp h
  have hzero : text.Covers ⟨0, 0⟩ := ⟨⟨text, .refl text, htext⟩, ⟨text, .refl text, htext⟩, Nat.le_refl 0⟩
  have hempty : Table.Placed text start ⟨.written, ⟨0, 0⟩, []⟩ := ⟨hzero, Nat.zero_le start, .nil⟩
  have hplaced : t.Placed text stop := by
    refine Chain.foldlM (fun stop (t : Table) => t.Placed text stop) ?_ ?_ hothers
      (Table.fill_placed hfirst hempty hroot).1 ht
    · intro start stop t hle ht
      exact ht.mono hle
    · intro start s stop t t' hs ht h
      exact Table.openSection_placed hs ht h
  exact hplaced.draft.close

/-- Everything in a document that can be read stands in its text. -/
theorem placed_parse {source : String} {document : Node} (h : parse source = .ok document) :
    document.Placed (Cursor.ofText source) false := by
  have hstart : (Cursor.ofText source).Reaches (Cursor.ofText source).afterMark := by
    unfold Cursor.afterMark
    split
    · exact Cursor.reaches_skip _ 1
    · exact .refl _
  obtain ⟨stop, hchain⟩ := chain_lines hstart
  exact placed_assemble rfl hchain (assemble_of_parse h)

end BlockOutline.Toml
