import BlockOutline.Proofs.Outline.Growth

/-! # Which error is reported

Of several violations the one is reported that is met first, and the order in which they are met is
that of the source. -/

namespace BlockOutline

open Fallible
open Toml (Node Key Cursor Line lines)

theorem Toml.Node.Placed.keys_ascending {text : Cursor} {literal : Bool} {span : Toml.Span}
    {entries : List (Key × Node)} (h : (Node.table span entries).Placed text literal) :
    entries.Pairwise fun entry entry' => entry.1.span.stop ≤ entry'.1.span.start := by
  cases h with
  | table _ _ hkeys =>
      obtain ⟨stop, hkeys⟩ := hkeys
      exact List.pairwise_map.mp hkeys.ascending

/-- A document with a violation cannot be loaded. -/
theorem Outline.exists_load_error {source : String} {document : Node}
    (hparse : Toml.parse source = .ok document) {n : ℕ} {v : SchemaError}
    (h : DocumentViolates document n v) (file : ℕ) : ∃ e, load source file = .error e := by
  cases hload : load source file with
  | error e => exact ⟨e, rfl⟩
  | ok o =>
      obtain ⟨span, entries, rfl, hkeys⟩ := Toml.distinctKeys_parse hparse
      have hreports := reports_read hkeys
      rw [(load_eq_ok_iff hparse file o).mp hload] at hreports
      exact absurd h (hreports n v)

/-- Documents that read the same up to and including the first violation give the same message. -/
theorem Outline.load_error_of_common {source source' : String} {document document' : Node}
    (hparse : Toml.parse source = .ok document) (hparse' : Toml.parse source' = .ok document')
    {common : List ReadEvent} (hcommon : common <+: reading document)
    (hcommon' : common <+: reading document') {n : ℕ} {v : SchemaError}
    (hfirst : First (DocumentViolates document) n v) (hlength : n < common.length) (file : ℕ) :
    ∃ e, load source' file = .error e ∧ e.failure = .schema v.violation := by
  obtain ⟨span, entries, htable, -⟩ := Toml.distinctKeys_parse hparse
  obtain ⟨span', entries', htable', -⟩ := Toml.distinctKeys_parse hparse'
  obtain ⟨v', hv', -⟩ := transfer_document hfirst.violates ⟨span', entries', htable'⟩ hcommon
    hcommon' hlength
  obtain ⟨e, he⟩ := exists_load_error hparse' hv' file
  obtain ⟨n', w, hfirst', rfl⟩ := (load_eq_error_iff hparse' file e).mp he
  have hsame := first_of_common hfirst ⟨span, entries, htable⟩ ⟨span', entries', htable'⟩ hcommon
    hcommon' hlength hfirst'
  exact ⟨_, he, by rw [hsame]⟩

/-- The keys of tables stand in the order in which the source brings them up: by line, in a line from
left to right, and at the place that the span of a key shows. -/
structure Toml.Node.InSourceOrder (source : String) (document : Node) : Prop where
  lines : document.LineByLine (lines (Cursor.ofText source).afterMark).1
  inline : ∀ before after span node, Toml.inlineTable (before ++ after) span = .ok node →
    ∃ early, Toml.inlineTable before span = .ok early ∧ early.Grows (fun _ _ => False) node
  ascending : ∀ span entries, (Node.table span entries).Within document →
    entries.Pairwise fun entry entry' => entry.1.span.stop ≤ entry'.1.span.start
  shown : ∀ span entries, (Node.table span entries).Within document → ∀ entry ∈ entries, ∃ inside,
    entry.1.span.Shows source inside ∧ Toml.ReadsAll Toml.keyPart entry.1.span.start inside entry.1

theorem Toml.inSourceOrder_parse {source : String} {document : Node}
    (hparse : Toml.parse source = .ok document) : document.InSourceOrder source where
  lines := lineByLine_assemble (distinctKeys_of_mem_lines _) (assemble_of_parse hparse)
  inline _ _ _ _ h := inlineTable_early h
  ascending _ _ hwithin := ((placed_parse hparse).of_within hwithin).keys_ascending
  shown _ _ hwithin _ he := (((placed_parse hparse).of_within hwithin).stands_of_mem he).readsAll

/-- The first violation is reported when the document is read depth first, its keys in the order of
the source and its items in that of their indices. A missing root is reported only where nothing else
is wrong, and nothing behind the first violation has a part in what is reported. -/
theorem Outline.load_reports_first {source : String} {document : Node}
    (hparse : Toml.parse source = .ok document) (file : ℕ) :
    (∀ e, load source file = .error e ↔ ∃ n v, First (DocumentViolates document) n v ∧
        e = ⟨.schema v.violation, some v.span, file⟩) ∧
      (∀ n name span, First (DocumentViolates document) n ⟨.missingField name, span⟩ →
        ∀ n' v, DocumentViolates document n' v → n' = n ∧ v = ⟨.missingField name, span⟩) ∧
      document.InSourceOrder source ∧
      ∀ e n v common source' document' file', load source file = .error e →
        First (DocumentViolates document) n v → n < common.length →
        Toml.parse source' = .ok document' → common <+: reading document →
        common <+: reading document' → ∃ e', load source' file' = .error e' ∧ e'.message = e.message := by
  refine ⟨load_eq_error_iff hparse file, fun _ _ _ hfirst _ _ h => eq_of_first_missing hfirst h,
    Toml.inSourceOrder_parse hparse, ?_⟩
  intro e n v common source' document' file' hload hfirst hlength hparse' hcommon hcommon'
  obtain ⟨n', w, hfirst', rfl⟩ := (load_eq_error_iff hparse file e).mp hload
  obtain ⟨-, rfl⟩ := hfirst.unique hfirst'
  obtain ⟨e', hload', hfailure⟩ :=
    load_error_of_common hparse hparse' hcommon hcommon' hfirst hlength file'
  exact ⟨e', hload', by rw [LoadError.message, hfailure]; rfl⟩

/-- A later header adds to the first table, so what it adds comes before the second one. -/
theorem Outline.load_reports_first_of_later_header :
    let source := "[root]\n[y]\n[root.x]\n"
    ∃ document n, Toml.parse source = .ok document ∧
      First (DocumentViolates document) n ⟨.unknownField "x" Record.node.fields, ⟨17, 18⟩⟩ ∧
      document.InSourceOrder source := by
  intro source
  have hparse : Toml.parse source = .ok (.table ⟨0, 0⟩ [(⟨"root", ⟨1, 5⟩⟩,
      .table ⟨0, 6⟩ [(⟨"x", ⟨17, 18⟩⟩, .table ⟨11, 19⟩ [])]),
      (⟨"y", ⟨8, 9⟩⟩, .table ⟨7, 10⟩ [])]) := by
    decide +kernel
  have hload : load source 0 =
      .error ⟨.schema (.unknownField "x" Record.node.fields), some ⟨17, 18⟩, 0⟩ := by
    decide +kernel
  obtain ⟨hreported, -, horder, -⟩ := load_reports_first hparse 0
  obtain ⟨n, ⟨violation, span⟩, hfirst, heq⟩ := (hreported _).mp hload
  cases heq
  exact ⟨_, n, hparse, hfirst, horder⟩

/-- The error is not that of the key which is written first: a table that only a longer header implies
comes at its own header, behind the tables in between. -/
theorem Outline.load_reports_behind_implied :
    let source := "[root.x]\n[y]\n[root]\n"
    let first : Line := .header ⟨false, ⟨[⟨"root", ⟨1, 5⟩⟩], ⟨"x", ⟨6, 7⟩⟩⟩, ⟨0, 8⟩⟩
    ∃ early document n,
      (lines (Cursor.ofText source).afterMark).1 =
        [first, .header ⟨false, ⟨[], ⟨"y", ⟨10, 11⟩⟩⟩, ⟨9, 12⟩⟩,
          .header ⟨false, ⟨[], ⟨"root", ⟨14, 18⟩⟩⟩, ⟨13, 19⟩⟩] ∧
      Toml.assemble [first] = .ok early ∧ Toml.parse source = .ok document ∧
      ¬ early.Grows (fun _ _ => False) document ∧
      DocumentViolates document n ⟨.unknownField "x" Record.node.fields, ⟨6, 7⟩⟩ ∧
      load source 0 = .error ⟨.schema (.unknownField "y" Record.outline.fields), some ⟨10, 11⟩, 0⟩ := by
  intro source first
  have hearly : Toml.assemble [first] = .ok (.table ⟨0, 0⟩ [(⟨"root", ⟨1, 5⟩⟩,
      .table ⟨1, 5⟩ [(⟨"x", ⟨6, 7⟩⟩, .table ⟨0, 8⟩ [])])]) := by
    decide +kernel
  have hparse : Toml.parse source = .ok (.table ⟨0, 0⟩ [(⟨"y", ⟨10, 11⟩⟩, .table ⟨9, 12⟩ []),
      (⟨"root", ⟨14, 18⟩⟩, .table ⟨13, 19⟩ [(⟨"x", ⟨6, 7⟩⟩, .table ⟨0, 8⟩ [])])]) := by
    decide +kernel
  have hroot : Violates .block (.table ⟨13, 19⟩ [(⟨"x", ⟨6, 7⟩⟩, .table ⟨0, 8⟩ [])]) _
      ⟨.unknownField "x" Record.node.fields, ⟨6, 7⟩⟩ :=
    .unknownKey rfl ⟨13, 19⟩ [] (.table ⟨0, 8⟩ []) [] rfl
  have hdocument : Violates .outline (.table ⟨0, 0⟩ ([(⟨"y", ⟨10, 11⟩⟩, .table ⟨9, 12⟩ [])] ++
      [(⟨"root", ⟨14, 18⟩⟩, .table ⟨13, 19⟩ [(⟨"x", ⟨6, 7⟩⟩, .table ⟨0, 8⟩ [])])])) _
        ⟨.unknownField "x" Record.node.fields, ⟨6, 7⟩⟩ :=
    .entry rfl ⟨0, 0⟩ [(⟨"y", ⟨10, 11⟩⟩, .table ⟨9, 12⟩ [])] [] rfl hroot
  refine ⟨_, _, _, by decide +kernel, hearly, hparse, ?_, .inside hdocument, by decide +kernel⟩
  intro hgrows
  cases hgrows with
  | table _ _ hentries =>
      obtain ⟨entry, hentry, hkey, -⟩ := hentries.exists_of_mem List.mem_cons_self
      have hsame := hkey.resolve_right id
      simp only [List.mem_cons, List.not_mem_nil, or_false] at hentry
      rcases hentry with rfl | rfl
      · exact absurd hsame (by decide)
      · exact absurd hsame (by decide)

end BlockOutline
