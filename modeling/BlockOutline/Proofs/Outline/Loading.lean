import BlockOutline.Outline.Loading
import BlockOutline.Proofs.Outline.KeyOrder
import BlockOutline.Proofs.Outline.Written

/-! # Loading outlines

A text is an outline if its document has the shape of one, and what is loaded is what it writes. -/

namespace BlockOutline

open Fallible
open Toml (Node Key)

/-! ## Related options -/

section Related

variable {α β : Type} {R S : α → β → Prop} {a : Option α} {b : Option β}

theorem isSome_eq_of_rel (h : Option.Rel R a b) : a.isSome = b.isSome := by
  cases h <;> rfl

theorem rel_of_rel (h : Option.Rel R a b) (himp : ∀ x y, a = some x → R x y → S x y) :
    Option.Rel S a b := by
  cases h with
  | none => exact .none
  | some h => exact .some (himp _ _ rfl h)

end Related

namespace Outline

/-! ## Fields -/

/-- What an entry can change. -/
inductive Enters (p : Parts) : String → Node → Parts → Prop where
  | description {value text} (h : WritesString value text) :
      Enters p "description" value { p with description := some text }
  | root {value node} (h : OutlineNode.read value = .ok node) :
      Enters p "root" value { p with root := some node }
  | expect {value e} (h : Expectations.read value = .ok e) :
      Enters p "expect" value { p with expect := some e }

theorem readEntry_eq_ok_iff (p p' : Parts) (entry : Key × Node) :
    readEntry p entry = .ok p' ↔ Enters p entry.1.name entry.2 p' := by
  obtain ⟨⟨name, span⟩, value⟩ := entry
  constructor
  · intro h
    simp only [readEntry] at h
    split at h
    · obtain ⟨text, ht, ⟨⟩⟩ := bind_eq_ok_iff.mp h
      exact .description (readString_eq_ok_iff.mp ht)
    · obtain ⟨node, hn, ⟨⟩⟩ := bind_eq_ok_iff.mp h
      exact .root hn
    · obtain ⟨e, he, ⟨⟩⟩ := bind_eq_ok_iff.mp h
      exact .expect he
    · cases h
  · intro h
    cases h with
    | description h => simp [readEntry, readString_eq_ok_iff.mpr h]
    | root h => simp [readEntry, h]
    | expect h => simp [readEntry, h]

theorem readEntry_isOk_iff (p : Parts) (entry : Key × Node) :
    (∃ p', readEntry p entry = .ok p') ↔ IsOutlineField entry.1.name entry.2 := by
  obtain ⟨⟨name, span⟩, value⟩ := entry
  simp only [readEntry_eq_ok_iff]
  constructor
  · rintro ⟨p', h⟩
    cases h with
    | description h => exact .description (isString_iff.mpr ⟨_, h⟩)
    | root h => exact .root (OutlineNode.read_isOk_iff.mp ⟨_, h⟩)
    | expect h => exact .expect (Expectations.read_isOk_iff.mp ⟨_, h⟩)
  · rintro (h | h | h)
    · obtain ⟨text, h⟩ := isString_iff.mp h
      exact ⟨_, .description h⟩
    · obtain ⟨node, h⟩ := OutlineNode.read_isOk_iff.mpr h
      exact ⟨_, .root h⟩
    · obtain ⟨e, h⟩ := Expectations.read_isOk_iff.mpr h
      exact ⟨_, .expect h⟩

theorem mem_fields {name : String} {value : Node} (h : IsOutlineField name value) :
    name ∈ Record.outline.fields := by
  cases h <;> decide

/-- The parts of an outline as its document gives them. -/
structure Given (members : List (String × Node)) (p : Parts) : Prop where
  description : Option.Rel WritesString (members.lookup "description") p.description
  root : Option.Rel (fun value node => OutlineNode.read value = .ok node)
    (members.lookup "root") p.root
  expect : Option.Rel (fun value e => Expectations.read value = .ok e)
    (members.lookup "expect") p.expect

theorem given_of_readFields {document : Node} (hd : document.DistinctKeys)
    {members : List (String × Node)} (record : Record.outline.members document = some members)
    {p : Parts} (h : Record.outline.readFields readEntry {} document = .ok p) :
    Given members p := by
  have hread := fun p p' entry => (readEntry_eq_ok_iff p p' entry).mp
  have hfield {γ : Type} (get : Parts → γ) :=
    Record.readFields_field hread h (by decide) hd record get
  refine ⟨?_, ?_, ?_⟩
  · refine hfield (·.description) "description" .none fun _ h => ?_
    cases h <;> simp [*]
  · refine hfield (·.root) "root" .none fun _ h => ?_
    cases h <;> simp [*]
  · refine hfield (·.expect) "expect" .none fun _ h => ?_
    cases h <;> simp [*]

theorem readParts_isOk_iff (document : Node) :
    (∃ p, Record.outline.readFields readEntry {} document = .ok p) ↔
      ∃ members, Record.outline.members document = some members ∧
        ∀ m ∈ members, IsOutlineField m.1 m.2 :=
  Record.readFields_isOk_iff {} fun p entry _ => readEntry_isOk_iff p entry

/-! ## Outlines -/

theorem read_eq_ok_iff {document : Node} {o : Outline} :
    read document = .ok o ↔
      Record.outline.readFields readEntry {} document =
        .ok ⟨o.description, some o.root, o.expect⟩ := by
  unfold read
  rw [bind_eq_ok_iff]
  constructor
  · rintro ⟨⟨description, root, expect⟩, hparts, h⟩
    split at h
    · next node hroot =>
      cases h
      cases hroot
      exact hparts
    · cases h
  · intro h
    exact ⟨_, h, rfl⟩

theorem isOutline_iff {document : Node} (hd : ∃ span entries, document = .table span entries) :
    IsOutline document ↔
      ∃ members, Record.outline.members document = some members ∧
        (∀ m ∈ members, IsOutlineField m.1 m.2) ∧ (members.lookup "root").isSome := by
  obtain ⟨span, entries, rfl⟩ := hd
  have hroot : ((entries.map member).lookup "root").isSome ↔
      ∃ entry ∈ entries, entry.1.name = "root" :=
    Record.isSome_lookup_iff.trans Record.mem_names_iff
  have hfields : (∀ m ∈ entries.map member, IsOutlineField m.1 m.2) ↔
      ∀ entry ∈ entries, IsOutlineField entry.1.name entry.2 :=
    List.forall_mem_map
  constructor
  · rintro ⟨_, fields, root⟩
    exact ⟨_, rfl, hfields.mpr fields, hroot.mpr root⟩
  · rintro ⟨_, ⟨⟩, fields, root⟩
    exact .intro span (hfields.mp fields) (hroot.mp root)

section Document

variable {document : Node} (hd : ∃ span entries, document = .table span entries)
  (hkeys : document.DistinctKeys)

include hkeys

include hd in
/-- A document is read exactly if it is an outline. -/
theorem read_isOk_iff : (∃ o, read document = .ok o) ↔ IsOutline document := by
  rw [isOutline_iff hd]
  constructor
  · rintro ⟨o, h⟩
    have hparts := read_eq_ok_iff.mp h
    obtain ⟨members, record, fields⟩ := (readParts_isOk_iff document).mp ⟨_, hparts⟩
    exact ⟨members, record, fields,
      isSome_eq_of_rel (given_of_readFields hkeys record hparts).root⟩
  · rintro ⟨members, record, fields, root⟩
    obtain ⟨⟨description, node, expect⟩, hparts⟩ :=
      (readParts_isOk_iff document).mpr ⟨members, record, fields⟩
    rw [isSome_eq_of_rel (given_of_readFields hkeys record hparts).root] at root
    obtain ⟨node, rfl⟩ := Option.isSome_iff_exists.mp root
    exact ⟨⟨description, node, expect⟩, read_eq_ok_iff.mpr hparts⟩

/-- A document is read as what it writes. -/
theorem writes_of_read {o : Outline} (h : read document = .ok o) : WritesOutline document o := by
  have hparts := read_eq_ok_iff.mp h
  obtain ⟨members, record, fields⟩ := (readParts_isOk_iff document).mp ⟨_, hparts⟩
  obtain ⟨description, root, expect⟩ := given_of_readFields hkeys record hparts
  have hdistinct {name value} (hfound : members.lookup name = some value) :
      value.DistinctKeys := by
    have hm := Record.mem_of_lookup hfound
    exact hkeys.of_mem_parts (Record.mem_parts_of_mem_members record _ hm)
  obtain ⟨value, hfound⟩ := Option.isSome_iff_exists.mp (isSome_eq_of_rel root)
  have hroot : OutlineNode.read value = .ok o.root := by simpa [hfound] using root
  refine .intro record (fun m hm => mem_fields (fields m hm)) description hfound ?_ ?_
  · exact OutlineNode.writes_of_read (hdistinct hfound) hroot
  · refine rel_of_rel expect fun value e hwritten hread => ?_
    exact Expectations.writes_of_read (hdistinct hwritten) hread

include hd in
theorem isOutline_of_writes {o : Outline} (h : WritesOutline document o) :
    IsOutline document := by
  have hfields := h.isOutlineField hkeys
  obtain ⟨record, -, -, found, -, -⟩ := h
  refine (isOutline_iff hd).mpr ⟨_, record, hfields _ record, ?_⟩
  rw [found]
  rfl

include hd in
/-- What is read from a document is exactly what it writes. -/
theorem read_eq_ok_iff_writes (o : Outline) :
    read document = .ok o ↔ WritesOutline document o := by
  refine ⟨writes_of_read hkeys, ?_⟩
  intro h
  obtain ⟨o', hread⟩ := (read_isOk_iff hd hkeys).mpr (isOutline_of_writes hd hkeys h)
  rw [hread, writesOnly_outline o _ _ h (writes_of_read hkeys hread)]

end Document

/-! ## Texts -/

theorem load_eq_ok_iff {source : String} {document : Node} (h : Toml.parse source = .ok document)
    (file : ℕ) (o : Outline) : load source file = .ok o ↔ read document = .ok o := by
  have hdocument : parseDocument source file = .ok document := mapError_eq_ok_iff.mpr h
  unfold load
  rw [hdocument]
  exact mapError_eq_ok_iff

/-- A document in a text is loaded exactly if it is an outline, as the one outline that it writes,
and the order of the keys in its tables does not matter. -/
theorem load_iff_written {source : String} {document : Node}
    (h : Toml.parse source = .ok document) (file : ℕ) :
    ((∃ o, load source file = .ok o) ↔ IsOutline document) ∧
      (∀ o, load source file = .ok o ↔ WritesOutline document o) ∧
      ∀ source' document' file', Toml.parse source' = .ok document' →
        SameButOrder document document' →
        ∀ o, load source file = .ok o ↔ load source' file' = .ok o := by
  have hload {source document} (h : Toml.parse source = .ok document) (file o) :
      load source file = .ok o ↔ WritesOutline document o := by
    obtain ⟨span, entries, htable, hkeys⟩ := Toml.distinctKeys_parse h
    rw [load_eq_ok_iff h, read_eq_ok_iff_writes ⟨span, entries, htable⟩ hkeys]
  obtain ⟨span, entries, htable, hkeys⟩ := Toml.distinctKeys_parse h
  refine ⟨?_, hload h file, ?_⟩
  · simp only [load_eq_ok_iff h]
    exact read_isOk_iff ⟨span, entries, htable⟩ hkeys
  · intro source' document' file' h' same o
    rw [hload h, hload h']
    exact ⟨orderFree_outline o _ _ same, orderFree_outline o _ _ same.symm⟩

theorem load_iff_written_reordered :
    ∃ document reordered o,
      Toml.parse "description = \"d\"\nroot = [\"if\"]" = .ok document ∧
        Toml.parse "root = [\"if\"]\ndescription = \"d\"" = .ok reordered ∧
        SameButOrder document reordered ∧ IsOutline document ∧ WritesOutline document o ∧
        load "root = [\"if\"]\ndescription = \"d\"" 1 = .ok o ∧
        o.description = some "d" ∧ o.tree = ⟨some "if", [], []⟩ := by
  have hparse : Toml.parse "description = \"d\"\nroot = [\"if\"]" =
      .ok (.table ⟨0, 31⟩ [(⟨"description", ⟨0, 11⟩⟩, .scalar ⟨14, 17⟩ (.string "d")),
        (⟨"root", ⟨18, 22⟩⟩, .array ⟨25, 31⟩ [.scalar ⟨26, 30⟩ (.string "if")])]) := by
    decide +kernel
  have hreordered : Toml.parse "root = [\"if\"]\ndescription = \"d\"" =
      .ok (.table ⟨0, 31⟩ [(⟨"root", ⟨0, 4⟩⟩, .array ⟨7, 13⟩ [.scalar ⟨8, 12⟩ (.string "if")]),
        (⟨"description", ⟨14, 25⟩⟩, .scalar ⟨28, 31⟩ (.string "d"))]) := by
    decide +kernel
  have hload : load "description = \"d\"\nroot = [\"if\"]" 0 =
      .ok ⟨some "d", ⟨some "if", [], []⟩, none⟩ := by
    decide +kernel
  obtain ⟨hshape, hwritten, horder⟩ := load_iff_written hparse 0
  refine ⟨_, _, _, hparse, hreordered, ?same, hshape.mp ⟨_, hload⟩, (hwritten _).mp hload,
    (horder _ _ 1 hreordered ?same _).mp hload, rfl, by decide +kernel⟩
  refine .table _ _ (.swap _ _ _) ?_
  intro entry he entry' he' hname
  simp only [List.mem_cons, List.not_mem_nil, or_false] at he he'
  rcases he with rfl | rfl <;> rcases he' with rfl | rfl
  · simp at hname
  · exact .scalar _ _ _
  · exact .array _ _ (.cons (.scalar _ _ _) .nil)
  · simp at hname

end Outline

end BlockOutline
