import BlockOutline.Proofs.Outline.FirstViolation
import BlockOutline.Proofs.Toml.PlacedDocuments

/-! # Where errors point

The span of an error shows the key or the value that is wrong as it is written in the source. -/

namespace BlockOutline

open Fallible Text
open Toml (Node Key Span Cursor Reader Reads)

/-! ## Texts at spans -/

namespace Toml

/-- The text at a span: both ends are offsets at which characters begin or the source ends. -/
def Span.Shows (span : Span) (source inside : String) : Prop :=
  ∃ before after, source = before ++ inside ++ after ∧ span.start = before.utf8ByteSize ∧
    span.stop = (before ++ inside).utf8ByteSize

/-- What a reader finds where there is no more than one text, all of which it takes. -/
def ReadsAll {α : Type} (r : Reader α) (start : ℕ) (inside : String) (value : α) : Prop :=
  Reads r ⟨start, inside.toList⟩ value ⟨start + inside.utf8ByteSize, []⟩

theorem utf8ByteSize_ofList (cs : List Char) : (String.ofList cs).utf8ByteSize = byteLength cs := by
  induction cs with
  | nil => rfl
  | cons c cs ih =>
      have hsplit : String.ofList (c :: cs) = String.singleton c ++ String.ofList cs := by
        rw [String.singleton_eq_ofList, ← String.ofList_append]
        rfl
      rw [hsplit, String.utf8ByteSize_append, String.utf8ByteSize_singleton, ih, byteLength_cons]

theorem utf8ByteSize_eq (s : String) : s.utf8ByteSize = byteLength s.toList := by
  rw [← utf8ByteSize_ofList, String.ofList_toList]

theorem Span.Shows.le {span : Span} {source inside : String} (h : span.Shows source inside) :
    span.start ≤ span.stop ∧ span.stop ≤ source.utf8ByteSize := by
  obtain ⟨before, after, rfl, hstart, hstop⟩ := h
  simp only [String.utf8ByteSize_append] at hstop ⊢
  omega

/-- A span shows one text at most. -/
theorem Span.Shows.unique {span : Span} {source inside inside' : String}
    (h : span.Shows source inside) (h' : span.Shows source inside') : inside = inside' := by
  have hinside {inside : String} (h : span.Shows source inside) :
      inside.toList = takeBytes (span.stop - span.start) (dropBytes span.start source.toList) := by
    obtain ⟨before, after, rfl, hstart, hstop⟩ := h
    have hlength : span.stop - span.start = byteLength inside.toList := by
      rw [String.utf8ByteSize_append] at hstop
      rw [hstart, hstop, Nat.add_sub_cancel_left, utf8ByteSize_eq]
    rw [hlength, hstart, utf8ByteSize_eq, String.toList_append, String.toList_append,
      List.append_assoc, dropBytes_byteLength]
    have hsplit := takeBytes_append_dropBytes (byteLength inside.toList) (inside.toList ++ after.toList)
    rw [dropBytes_byteLength] at hsplit
    exact (List.append_cancel_right hsplit).symm
  exact String.toList_inj.mp ((hinside h).trans (hinside h').symm)

theorem shows_of_reaches {source : String} {c after : Cursor} (hc : (Cursor.ofText source).Reaches c)
    {cs : List Char} (hrest : c.rest = cs ++ after.rest)
    (hoffset : after.offset = c.offset + byteLength cs) :
    (c.upTo after).Shows source (String.ofList cs) := by
  obtain ⟨before, hsource, hstart⟩ := Cursor.reaches_iff.mp hc
  have hzero : c.offset = byteLength before := by
    simpa [Cursor.ofText] using hstart
  refine ⟨String.ofList before, String.ofList after.rest, ?_, ?_, ?_⟩
  · rw [hrest, ← List.append_assoc] at hsource
    rw [← String.ofList_append, ← String.ofList_append, ← hsource]
    exact String.ofList_toList.symm
  · rw [utf8ByteSize_ofList]
    exact hzero
  · rw [← String.ofList_append, utf8ByteSize_ofList, byteLength_append, ← hzero]
    exact hoffset

theorem Cursor.Covers.shows {source : String} {span : Span} (h : (Cursor.ofText source).Covers span) :
    ∃ inside, span.Shows source inside := by
  obtain ⟨⟨c, hc, hstart⟩, ⟨after, hafter, hstop⟩, hle⟩ := h
  rw [← hstart, ← hstop] at hle
  obtain ⟨cs, hrest, hoffset⟩ := reaches_iff.mp (hc.of_offset_le hafter hle)
  have hspan : span = c.upTo after := by
    rw [Cursor.upTo, hstart, hstop]
  rw [hspan]
  exact ⟨_, shows_of_reaches hc hrest hoffset⟩

/-- What was read in a source can be read alone. -/
theorem exists_readsAll {α : Type} {r r' : Reader α} (hcuts : Cuts r r') {source : String}
    {c after : Cursor} {value : α} (hc : (Cursor.ofText source).Reaches c)
    (h : Reads r c value after) :
    ∃ inside, (c.upTo after).Shows source inside ∧ ReadsAll r' c.offset inside value := by
  obtain ⟨cs, hrest, hoffset⟩ := Cursor.reaches_iff.mp h.reaches
  refine ⟨String.ofList cs, shows_of_reaches hc hrest hoffset, ?_⟩
  have hlong : c = (⟨c.offset, cs⟩ : Cursor).extend after.rest := by
    rw [Cursor.extend, ← hrest]
  have hend : after = (⟨c.offset + byteLength cs, []⟩ : Cursor).extend after.rest := by
    rw [Cursor.extend, ← hoffset]
    rfl
  unfold ReadsAll
  rw [utf8ByteSize_ofList, String.toList_ofList]
  exact hcuts _ _ after.rest value (by rwa [← hlong, ← hend])

/-! ## Parts of documents -/

/-- One value is another one or inside of it. -/
inductive Node.Within (part : Node) : Node → Prop where
  | refl : Within part part
  | part {node child} (h : child ∈ node.parts) (hwithin : part.Within child) : Within part node

/-- A value that belongs to the value which some line gives to a key. -/
def Node.Literal (source : String) (node : Node) : Prop :=
  ∃ a, Line.assignment a ∈ (lines (Cursor.ofText source).afterMark).1 ∧ node.Within a.node

theorem Node.Placed.of_mem_parts {text : Cursor} {literal : Bool} {node child : Node}
    (h : node.Placed text literal) (hchild : child ∈ node.parts) : child.Placed text literal := by
  cases h with
  | scalar => cases hchild
  | array _ hitems => exact (hitems child hchild).of_literal
  | tables _ hitems => exact hitems child hchild
  | table _ _ _ hentries =>
      obtain ⟨entry, he, rfl⟩ := List.mem_map.mp hchild
      exact hentries entry he

theorem Node.Placed.of_within {text : Cursor} {literal : Bool} {node part : Node}
    (h : node.Placed text literal) (hpart : part.Within node) : part.Placed text literal := by
  induction hpart with
  | refl => exact h
  | part hchild _ ih => exact ih (h.of_mem_parts hchild)

theorem reaches_afterMark (c : Cursor) : c.Reaches c.afterMark := by
  unfold Cursor.afterMark
  split
  · exact c.reaches_skip 1
  · exact .refl c

theorem Node.Literal.placed {source : String} {node : Node} (h : node.Literal source) :
    node.Placed (Cursor.ofText source) true := by
  obtain ⟨a, ha, hwithin⟩ := h
  obtain ⟨stop, hchain⟩ := chain_lines (reaches_afterMark (Cursor.ofText source))
  obtain ⟨first, last, hbetween⟩ := hchain.exists_of_mem ha
  have hplaced : a.node.Placed (Cursor.ofText source) true := hbetween.node
  exact hplaced.of_within hwithin

/-- Values that are written out where their span is: all scalars, and literal arrays and tables. A
table that begins with something else than a brace comes from a dotted key. -/
def Node.WrittenOut (source inside : String) (node : Node) : Prop :=
  match node with
  | .scalar _ _ => True
  | .array _ _ => node.Literal source
  | .table _ _ => node.Literal source ∧ inside.toList.head? = some '{'

theorem Key.Stands.readsAll {source : String} {key : Key} (h : key.Stands (Cursor.ofText source)) :
    ∃ inside, key.span.Shows source inside ∧ ReadsAll keyPart key.span.start inside key := by
  obtain ⟨c, after, hc, hkey⟩ := h
  have hspan := (reads_keyPart_iff.mp hkey).1
  obtain ⟨inside, hshows, hall⟩ := exists_readsAll cuts_keyPart hc hkey
  rw [hspan]
  exact ⟨inside, hshows, hall⟩

theorem Node.Stands.readsAll {source : String} {node : Node}
    (h : node.Stands (Cursor.ofText source)) {inside : String}
    (hinside : node.span.Shows source inside) : ReadsAll value node.span.start inside node := by
  obtain ⟨c, after, depth, hc, hdepth, hnode⟩ := h
  have hspan := span_of_reads_valueWithin hnode
  obtain ⟨inside', hshows, hall⟩ := exists_readsAll (cuts_valueWithin hdepth) hc hnode
  rw [hspan] at hinside ⊢
  rw [hinside.unique hshows]
  exact hall

/-- No key part begins with a brace. -/
theorem ReadsAll.head?_ne {start : ℕ} {inside : String} {key : Key}
    (h : ReadsAll keyPart start inside key) : inside.toList.head? ≠ some '{' := by
  intro hbrace
  obtain ⟨tail, htail⟩ := List.head?_eq_some_iff.mp hbrace
  obtain ⟨-, h⟩ := reads_keyPart_iff.mp h
  simp [htail, isBare] at h

/-- What is written out can be read alone. -/
theorem Node.Placed.readsAll {source inside : String} {node : Node}
    (h : node.Placed (Cursor.ofText source) false) (hwritten : node.WrittenOut source inside)
    (hinside : node.span.Shows source inside) : ReadsAll value node.span.start inside node := by
  cases node with
  | scalar span scalar =>
      cases h with
      | scalar hstands => exact hstands.readsAll hinside
  | array span items =>
      have hliteral : (Node.array span items).Literal source := hwritten
      cases hliteral.placed with
      | array hstands => exact hstands.readsAll hinside
  | table span entries =>
      obtain ⟨hliteral, hbrace⟩ : (Node.table span entries).Literal source ∧
        inside.toList.head? = some '{' := hwritten
      cases hliteral.placed with
      | table _ hwhere =>
          rcases hwhere rfl with hstands | ⟨key, hkey, hspan⟩
          · exact hstands.readsAll hinside
          · obtain ⟨inside', hshows, hall⟩ := hkey.readsAll
            rw [hspan] at hshows hall
            have hsame : inside = inside' := hinside.unique hshows
            exact absurd (hsame ▸ hbrace) hall.head?_ne

end Toml

/-! ## What errors show -/

/-- What an error points at by the text that its span shows: the key that is unknown, or the value
that is wrong. That a date is no record is reported as an unknown key, which is not written. -/
inductive PointsAt (source : String) (document : Node) (span : Span) (inside : String) :
    Violation → Prop where
  | key {name known} {tableSpan entries value} (table : (Node.table tableSpan entries).Within document)
      (entry : (⟨name, span⟩, value) ∈ entries)
      (h : Toml.ReadsAll Toml.keyPart span.start inside ⟨name, span⟩) :
      PointsAt source document span inside (.unknownField name known)
  | dateTime {known} {date} (within : (Node.scalar span (.dateTime date)).Within document)
      (h : Toml.ReadsAll Toml.value span.start inside (.scalar span (.dateTime date))) :
      PointsAt source document span inside (.unknownField Record.dateTimeKey known)
  | value {wanted} {node : Node} (within : node.Within document) (stands : node.span = span)
      (h : node.WrittenOut source inside → Toml.ReadsAll Toml.value span.start inside node) :
      PointsAt source document span inside (.wrongType (.ofNode node) wanted)
  | negative {number : Int} (within : (Node.scalar span (.integer number)).Within document)
      (below : number < 0)
      (h : Toml.ReadsAll Toml.value span.start inside (.scalar span (.integer number))) :
      PointsAt source document span inside (.negative number)
  | missing {name} (whole : document.span = span) :
      PointsAt source document span inside (.missingField name)

theorem Toml.Node.Within.trans {a b c : Node} (h : a.Within b) (h' : b.Within c) : a.Within c := by
  induction h' with
  | refl => exact h
  | part hchild _ ih => exact .part hchild ih

theorem Toml.Node.Placed.stands_of_mem {text : Cursor} {literal : Bool} {span : Span}
    {entries : List (Key × Node)} (h : (Node.table span entries).Placed text literal)
    {entry : Key × Node} (he : entry ∈ entries) : entry.1.Stands text := by
  cases h with
  | table _ _ hkeys =>
      obtain ⟨stop, hkeys⟩ := hkeys
      exact hkeys.stands entry.1 (List.mem_map_of_mem he)

/-- Every violation points at the key or the value that is wrong. -/
theorem Violates.pointsAt {source : String} {document : Node}
    (hdocument : document.Placed (Cursor.ofText source) false) {shape : Shape} {node : Node} {n : ℕ}
    {v : SchemaError} (h : Violates shape node n v) (hwithin : node.Within document) :
    ∃ inside, v.span.Shows source inside ∧ PointsAt source document v.span inside v.violation := by
  have hshown {part : Node} (hpart : part.Within document) :
      ∃ inside, part.span.Shows source inside ∧ (part.WrittenOut source inside →
        Toml.ReadsAll Toml.value part.span.start inside part) := by
    have hplaced := hdocument.of_within hpart
    obtain ⟨inside, hinside⟩ := hplaced.covers.shows
    exact ⟨inside, hinside, fun hwritten => hplaced.readsAll hwritten hinside⟩
  induction h with
  | wrongType =>
      obtain ⟨inside, hinside, hall⟩ := hshown hwithin
      exact ⟨inside, hinside, .value hwithin rfl hall⟩
  | dateTime =>
      obtain ⟨inside, hinside, hall⟩ := hshown hwithin
      exact ⟨inside, hinside, .dateTime hwithin (hall trivial)⟩
  | negative span hnegative =>
      obtain ⟨inside, hinside, hall⟩ := hshown hwithin
      exact ⟨inside, hinside, .negative hwithin hnegative (hall trivial)⟩
  | @unknownKey shape r record span before key value after unknown =>
      have hmem : (key, value) ∈ before ++ (key, value) :: after := by simp
      obtain ⟨inside, hinside, hall⟩ := ((hdocument.of_within hwithin).stands_of_mem hmem).readsAll
      exact ⟨inside, hinside, .key hwithin hmem hall⟩
  | @entry shape r record span before key value after field n v known h ih =>
      have hpart : value ∈ (Node.table span (before ++ (key, value) :: after)).parts :=
        List.mem_map_of_mem (by simp : (key, value) ∈ before ++ (key, value) :: after)
      exact ih (Toml.Node.Within.trans (.part hpart .refl) hwithin)
  | @item shape span before value after part n v known h ih =>
      have hpart : value ∈ (Node.array span (before ++ value :: after)).parts := by
        simp [Toml.Node.parts]
      exact ih (Toml.Node.Within.trans (.part hpart .refl) hwithin)

theorem DocumentViolates.pointsAt {source : String} {document : Node}
    (hdocument : document.Placed (Cursor.ofText source) false) {n : ℕ} {v : SchemaError}
    (h : DocumentViolates document n v) :
    ∃ inside, v.span.Shows source inside ∧ PointsAt source document v.span inside v.violation := by
  cases h with
  | inside h => exact h.pointsAt hdocument .refl
  | missingRoot span =>
      obtain ⟨inside, hinside⟩ := hdocument.covers.shows
      exact ⟨inside, hinside, .missing rfl⟩

/-- Where a document is no outline the error points at whole characters of its source: at the unknown
key as it is written, or at the value that is wrong, of which nothing is left out where it is written
in one piece. The diagnostic has that one place and the message of the error. -/
theorem Outline.load_error_points_at {source : String} {document : Node} {file : ℕ} {e : LoadError}
    (hparse : Toml.parse source = .ok document) (hload : load source file = .error e) :
    ∃ span, e.span = some span ∧ (span.start ≤ span.stop ∧ span.stop ≤ source.utf8ByteSize) ∧
      e.diagnostic = ⟨e.message, [⟨file, span⟩]⟩ ∧
      ∃ violation inside, e.failure = .schema violation ∧ span.Shows source inside ∧
        PointsAt source document span inside violation := by
  obtain ⟨n, v, hfirst, rfl⟩ := (load_eq_error_iff hparse file e).mp hload
  obtain ⟨inside, hinside, hpoints⟩ := hfirst.violates.pointsAt (Toml.placed_parse hparse)
  exact ⟨v.span, rfl, hinside.le, rfl, v.violation, inside, rfl, hinside, hpoints⟩

/-- A key in quotes, behind a byte order mark and with a character of two bytes. -/
theorem Outline.load_error_points_at_quoted_key :
    let source := "\ufeff[root]\r\n\"ä\\u0020b\" = 1"
    ∃ document inside, Toml.parse source = .ok document ∧
      Span.Shows ⟨11, 22⟩ source inside ∧
      PointsAt source document ⟨11, 22⟩ inside (.unknownField "ä b" Record.node.fields) := by
  intro source
  have hparse : Toml.parse source = .ok (.table ⟨0, 0⟩ [(⟨"root", ⟨4, 8⟩⟩,
      .table ⟨3, 26⟩ [(⟨"ä b", ⟨11, 22⟩⟩, .scalar ⟨25, 26⟩ (.integer 1))])]) := by
    decide +kernel
  have hload : load source 3 =
      .error ⟨.schema (.unknownField "ä b" Record.node.fields), some ⟨11, 22⟩, 3⟩ := by
    decide +kernel
  obtain ⟨span, hspan, -, -, violation, inside, hfailure, hinside, hpoints⟩ :=
    load_error_points_at hparse hload
  cases hspan
  cases hfailure
  exact ⟨_, inside, hparse, hinside, hpoints⟩

end BlockOutline
