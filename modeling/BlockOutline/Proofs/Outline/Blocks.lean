import BlockOutline.Proofs.Outline.Reading

/-! # Reading blocks

A block is read like any record, and its children are blocks again, in the same notation or the
other. -/

namespace BlockOutline.OutlineNode

open Fallible
open Toml (Node Key)

/-! ## Blocks as records -/

theorem readEntries_eq_foldlM (entries : List (Key × Node)) (node : OutlineNode) :
    readEntries entries node = entries.foldlM readEntry node := by
  induction entries generalizing node with
  | nil => rfl
  | cons entry entries ih => simp only [readEntries, List.foldlM_cons, ih]

theorem readAll_eq_mapM (items : List Node) : readAll items = items.mapM read := by
  induction items with
  | nil => rfl
  | cons item items ih => simp only [readAll, List.mapM_cons, ih]

/-- Both notations of a block are read as the notations of a record. -/
theorem read_eq_readFields (node : Node) :
    read node = Record.node.readFields readEntry {} node := by
  cases node with
  | scalar span value => cases value <;> rfl
  | array span items =>
      rw [Record.readFields_array, read]
      match items with
      | [] => rfl
      | [prototype] => simp [readItems, Record.node, readEntry]
      | [prototype, statements] => simp [readItems, Record.node, readEntry]
      | prototype :: statements :: children :: _ => simp [readItems, Record.node, readEntry]
  | table span entries =>
      exact readEntries_eq_foldlM entries {}

theorem readChildren_eq_ok_iff {node : Node} {nodes : List OutlineNode} :
    readChildren node = .ok nodes ↔
      WritesArray (fun item child => read item = .ok child) node nodes := by
  cases node with
  | array span items =>
      rw [readChildren, readAll_eq_mapM, mapM_eq_ok_iff]
      constructor
      · intro h
        exact .intro span h
      · rintro ⟨-, h⟩
        exact h
  | scalar span value =>
      constructor <;> rintro ⟨⟩
  | table span entries =>
      constructor <;> rintro ⟨⟩

/-! ## Fields -/

/-- What an entry can change. -/
inductive Enters (node : OutlineNode) : String → Node → OutlineNode → Prop where
  | prototype {value text} (h : WritesString value text) :
      Enters node "prototype" value { node with prototype := some text }
  | statements {value texts} (h : WritesArray WritesString value texts) :
      Enters node "statements" value { node with statements := texts }
  | children {value nodes} (h : readChildren value = .ok nodes) :
      Enters node "children" value { node with children := nodes }

theorem readEntry_eq_ok_iff (node node' : OutlineNode) (entry : Key × Node) :
    node.readEntry entry = .ok node' ↔ node.Enters entry.1.name entry.2 node' := by
  obtain ⟨⟨name, span⟩, value⟩ := entry
  constructor
  · intro h
    simp only [readEntry] at h
    split at h
    · obtain ⟨text, ht, ⟨⟩⟩ := bind_eq_ok_iff.mp h
      exact .prototype (readString_eq_ok_iff.mp ht)
    · obtain ⟨texts, ht, ⟨⟩⟩ := bind_eq_ok_iff.mp h
      exact .statements (readStrings_eq_ok_iff.mp ht)
    · obtain ⟨nodes, hn, ⟨⟩⟩ := bind_eq_ok_iff.mp h
      exact .children hn
    · cases h
  · intro h
    cases h with
    | prototype h => simp [readEntry, readString_eq_ok_iff.mpr h]
    | statements h => simp [readEntry, readStrings_eq_ok_iff.mpr h]
    | children h => simp [readEntry, h]

/-- An entry is read exactly if it is a field of a block; its children have been judged before. -/
theorem readEntry_isOk_iff (node : OutlineNode) (entry : Key × Node)
    (hchildren : (∃ nodes, readChildren entry.2 = .ok nodes) ↔ IsArrayOf IsBlock entry.2) :
    (∃ node', node.readEntry entry = .ok node') ↔ IsBlockField entry.1.name entry.2 := by
  obtain ⟨⟨name, span⟩, value⟩ := entry
  simp only [readEntry_eq_ok_iff]
  constructor
  · rintro ⟨node', h⟩
    cases h with
    | prototype h => exact .prototype (isString_iff.mpr ⟨_, h⟩)
    | statements h => exact .statements (isStrings_iff.mpr ⟨_, h⟩)
    | children h => exact .children (hchildren.mp ⟨_, h⟩)
  · rintro (h | h | h)
    · obtain ⟨text, h⟩ := isString_iff.mp h
      exact ⟨_, .prototype h⟩
    · obtain ⟨texts, h⟩ := isStrings_iff.mp h
      exact ⟨_, .statements h⟩
    · obtain ⟨nodes, h⟩ := hchildren.mpr h
      exact ⟨_, .children h⟩

theorem mem_fields {name : String} {value : Node} (h : IsBlockField name value) :
    name ∈ Record.node.fields := by
  cases h <;> decide

/-! ## Whole trees -/

/-- Different outlines describe different trees. -/
theorem build_injective {o o' : OutlineNode} (h : o.build = o'.build) : o = o' := by
  induction o generalizing o' with
  | mk prototype statements children ih =>
      obtain ⟨prototype', statements', children'⟩ := o'
      simp only [build_eq, Block.mk.injEq] at h
      obtain ⟨rfl, rfl, h⟩ := h
      have hbuild : List.Forall₂ (fun c c' => build c = build c') children children' := by
        simpa [← List.forall₂_eq_eq_eq] using h
      have hboth := (List.forall₂_and_left _ _).mpr ⟨fun c hc o' => @ih c hc o', hbuild⟩
      have hchildren := hboth.imp fun c c' hc => hc.1 c' hc.2
      rw [List.forall₂_eq_eq_eq] at hchildren
      rw [hchildren]

instance : DecidableEq OutlineNode := fun o o' =>
  decidable_of_iff (o.build = o'.build) ⟨build_injective, congrArg build⟩

deriving instance DecidableEq for Outline

theorem isOk_iff (node : Node) :
    ((∃ o, read node = .ok o) ↔ IsBlock node) ∧
      ((∃ nodes, readChildren node = .ok nodes) ↔ IsArrayOf IsBlock node) := by
  -- Children lie two levels below their block, in the value of a field; the second half carries the
  -- induction over that level.
  induction node with
  | step node ih =>
      constructor
      · rw [read_eq_readFields]
        refine (Record.readFields_isOk_iff {} fun o entry he =>
          readEntry_isOk_iff o entry (ih entry.2 he).2).trans ?_
        constructor
        · rintro ⟨members, record, fields⟩
          exact .intro record fields
        · rintro ⟨record, fields⟩
          exact ⟨_, record, fields⟩
      · simp only [readChildren_eq_ok_iff]
        exact (isArrayOf_iff fun item hi => (ih item hi).1.symm).symm

/-- A block is read exactly if it is of the right shape. -/
theorem read_isOk_iff {node : Node} : (∃ o, read node = .ok o) ↔ IsBlock node :=
  (isOk_iff node).1

theorem writesArray_of_readChildren {node : Node}
    (hitem : ∀ item ∈ node.parts, ∀ o, read item = .ok o → WritesBlock item o.build)
    {nodes : List OutlineNode} (h : readChildren node = .ok nodes) :
    WritesArray WritesBlock node (nodes.map build) := by
  obtain ⟨span, h⟩ := readChildren_eq_ok_iff.mp h
  have hboth := (List.forall₂_and_left _ _).mpr ⟨hitem, h⟩
  exact .intro span (List.forall₂_map_right_iff.mpr (hboth.imp fun _ o ho => ho.1 o ho.2))

theorem writesBlock_of_readChildren {node : Node} (hn : node.DistinctKeys)
    (hchildren : ∀ part ∈ node.parts, ∀ nodes, readChildren part = .ok nodes →
      WritesArray WritesBlock part (nodes.map build))
    {o : OutlineNode} (h : read node = .ok o) : WritesBlock node o.build := by
  obtain ⟨record, fields⟩ := read_isOk_iff.mp ⟨o, h⟩
  rw [read_eq_readFields] at h
  have hread := fun o o' entry => (readEntry_eq_ok_iff o o' entry).mp
  have hfield {γ : Type} (get : OutlineNode → γ) :=
    Record.readFields_field hread h (by decide) hn record get
  rw [build_eq]
  refine .intro record (fun m hm => mem_fields (fields m hm)) ?_ ?_ ?_
  · refine hfield (·.prototype) "prototype" .none fun _ h => ?_
    cases h <;> simp [*]
  · refine hfield (·.statements) "statements" .absent fun _ h => ?_
    cases h with
    | statements h => simpa using .given h
    | _ => simp
  · refine hfield (·.children.map build) "children" .absent fun hpart h => ?_
    cases h with
    | children h => simpa using .given (hchildren _ hpart _ h)
    | _ => simp

/-- A block is read as it is written. -/
theorem writes_of_read {node : Node} (hn : node.DistinctKeys) {o : OutlineNode}
    (h : read node = .ok o) : WritesBlock node o.build := by
  suffices hboth : (∀ o, read node = .ok o → WritesBlock node o.build) ∧
      ∀ nodes, readChildren node = .ok nodes → WritesArray WritesBlock node (nodes.map build) from
    hboth.1 o h
  clear h
  induction node with
  | step node ih =>
      have hparts := fun part hpart => ih part hpart (hn.of_mem_parts hpart)
      constructor
      · intro o
        exact writesBlock_of_readChildren hn fun part hpart => (hparts part hpart).2
      · intro nodes
        exact writesArray_of_readChildren fun item hi => (hparts item hi).1

end BlockOutline.OutlineNode
