import BlockOutline.Proofs.Outline.Records

/-! # The order of keys

What writes a value still writes it when the keys of its tables are put in another order. -/

namespace BlockOutline

open Toml (Node)

theorem SameButOrder.symm {node node' : Node} (same : SameButOrder node node') :
    SameButOrder node' node := by
  induction node generalizing node' with
  | step node ih =>
      cases same with
      | scalar span span' value => exact .scalar span' span value
      | array span span' h =>
          have hboth := (List.forall₂_and_left _ _).mpr ⟨fun item hi item' => @ih item hi item', h⟩
          exact .array span' span (hboth.imp fun item item' hi => hi.1 item' hi.2).flip
      | table span span' keys values =>
          refine .table span' span keys.symm ?_
          intro entry' he' entry he hname
          exact ih entry.2 (List.mem_map_of_mem he) (values entry he entry' he' hname.symm)

/-! ## Members -/

section Lookup

variable {R : Node → Node → Prop}

theorem lookup_rel {members members' : List (String × Node)}
    (keys : ∀ name, name ∈ members.map Prod.fst ↔ name ∈ members'.map Prod.fst)
    (values : ∀ m ∈ members, ∀ m' ∈ members', m.1 = m'.1 → R m.2 m'.2) (name : String) :
    Option.Rel R (members.lookup name) (members'.lookup name) := by
  have hsome : (members.lookup name).isSome = (members'.lookup name).isSome := by
    rw [Bool.eq_iff_iff, Record.isSome_lookup_iff, Record.isSome_lookup_iff, keys]
  cases h : members.lookup name with
  | none =>
      rw [h] at hsome
      have hnone := Option.isSome_eq_false_iff.mp hsome.symm
      rw [Option.isNone_iff_eq_none.mp hnone]
      exact .none
  | some value =>
      rw [h] at hsome
      obtain ⟨value', h'⟩ := Option.isSome_iff_exists.mp hsome.symm
      rw [h']
      exact .some (values _ (Record.mem_of_lookup h) _ (Record.mem_of_lookup h') rfl)

theorem lookup_zip_rel (names : List String) {items items' : List Node}
    (h : List.Forall₂ R items items') (name : String) :
    Option.Rel R ((names.zip items).lookup name) ((names.zip items').lookup name) := by
  induction names generalizing items items' with
  | nil => exact .none
  | cons first names ih =>
      cases h with
      | nil => exact .none
      | cons hitem hitems =>
          rw [List.zip_cons_cons, List.zip_cons_cons, List.lookup_cons, List.lookup_cons]
          cases name == first with
          | true => exact .some hitem
          | false => exact ih hitems

end Lookup

/-- Reordering keys keeps the fields of a record, each with the same value. -/
theorem SameButOrder.members {r : Record} {node node' : Node} (same : SameButOrder node node')
    {members : List (String × Node)} (record : r.members node = some members)
    (known : ∀ m ∈ members, m.1 ∈ r.fields) :
    ∃ members', r.members node' = some members' ∧ (∀ m ∈ members', m.1 ∈ r.fields) ∧
      ∀ name, Option.Rel SameButOrder (members.lookup name) (members'.lookup name) := by
  cases same with
  | scalar => cases record
  | array span span' h =>
      cases record
      refine ⟨_, rfl, ?_, lookup_zip_rel r.fields h⟩
      intro m hm
      exact (List.of_mem_zip hm).1
  | table span span' keys values =>
      cases record
      have hkeys (l : List (Toml.Key × Node)) :
          (l.map member).map Prod.fst = l.map (·.1.name) := by
        simp [Function.comp_def, member]
      refine ⟨_, rfl, ?_, lookup_rel ?_ ?_⟩
      · intro m hm
        obtain ⟨entry', he', rfl⟩ := List.mem_map.mp hm
        obtain ⟨entry, he, hname⟩ := List.mem_map.mp (keys.mem_iff.mpr (List.mem_map_of_mem he'))
        have hfield := known (member entry) (List.mem_map_of_mem he)
        rwa [member, hname] at hfield
      · intro name
        rw [hkeys, hkeys, keys.mem_iff]
      · intro m hm m' hm' hname
        obtain ⟨entry, he, rfl⟩ := List.mem_map.mp hm
        obtain ⟨entry', he', rfl⟩ := List.mem_map.mp hm'
        exact values entry he entry' he' hname

/-! ## Values -/

variable {β : Type} {Writes : Node → β → Prop}

/-- What writes a value writes it in every order of keys. -/
def OrderFree (Writes : Node → β → Prop) (value : β) : Prop :=
  ∀ node node', SameButOrder node node' → Writes node value → Writes node' value

theorem orderFree_string (text : String) : OrderFree WritesString text := by
  rintro _ _ ⟨⟩ ⟨span⟩
  exact .intro _ text

theorem orderFree_natural (value : ℕ) : OrderFree WritesNatural value := by
  rintro _ _ ⟨⟩ ⟨span⟩
  exact .intro _ value

theorem OrderFree.array {values : List β} (h : ∀ value ∈ values, OrderFree Writes value) :
    OrderFree (WritesArray Writes) values := by
  rintro _ _ same ⟨span, hvalues⟩
  cases same with
  | array _ span' same =>
      refine .intro span' ?_
      induction same generalizing values with
      | nil =>
          cases hvalues
          exact .nil
      | cons hitem _ ih =>
          cases hvalues with
          | cons hvalue hvalues =>
              refine .cons (h _ List.mem_cons_self _ _ hitem hvalue) (ih ?_ hvalues)
              intro value hv
              exact h value (List.mem_cons_of_mem _ hv)

theorem orderFree_strings (texts : List String) : OrderFree (WritesArray WritesString) texts :=
  .array fun text _ => orderFree_string text

theorem WritesList.reorder {values : List β} (h : ∀ value ∈ values, OrderFree Writes value)
    {written written' : Option Node} (same : Option.Rel SameButOrder written written')
    (hvalues : WritesList Writes written values) : WritesList Writes written' values := by
  cases same with
  | none =>
      cases hvalues
      exact .absent
  | some same =>
      cases hvalues with
      | given hvalues => exact .given (OrderFree.array h _ _ same hvalues)

theorem OrderFree.option {value : Option β} (h : ∀ v ∈ value, OrderFree Writes v)
    {written written' : Option Node} (same : Option.Rel SameButOrder written written')
    (hvalue : Option.Rel Writes written value) : Option.Rel Writes written' value := by
  cases same with
  | none => exact hvalue
  | some same =>
      cases hvalue with
      | some hvalue => exact .some (h _ rfl _ _ same hvalue)

/-- A tree is written the same in every order of keys. -/
theorem orderFree_block (b : Block String) : OrderFree WritesBlock b := by
  induction b with
  | mk prototype statements children ih =>
      rintro node node' same ⟨record, known, hprototype, hstatements, hchildren⟩
      obtain ⟨members', record', known', lookups⟩ := same.members record known
      refine .intro record' known' ?_ ?_ ?_
      · exact OrderFree.option (fun v _ => orderFree_string v) (lookups "prototype") hprototype
      · exact hstatements.reorder (fun v _ => orderFree_string v) (lookups "statements")
      · exact hchildren.reorder ih (lookups "children")

theorem orderFree_expectations (e : Expectations) : OrderFree WritesExpectations e := by
  rintro node node' same ⟨record, known, height, blockCount, prototypes, statements, error⟩
  obtain ⟨members', record', known', lookups⟩ := same.members record known
  refine .intro record' known' ?_ ?_ ?_ ?_ ?_
  · exact OrderFree.option (fun v _ => orderFree_natural v) (lookups "height") height
  · exact OrderFree.option (fun v _ => orderFree_natural v) (lookups "total_blocks") blockCount
  · exact OrderFree.option (fun v _ => orderFree_strings v) (lookups "prototypes") prototypes
  · exact OrderFree.option (fun v _ => orderFree_strings v) (lookups "statements") statements
  · exact OrderFree.option (fun v _ => orderFree_string v) (lookups "error") error

theorem orderFree_outline (o : Outline) : OrderFree WritesOutline o := by
  rintro document document' same ⟨record, known, description, found, root, expect⟩
  obtain ⟨members', record', known', lookups⟩ := same.members record known
  have hroot := lookups "root"
  rw [found] at hroot
  generalize hfound : members'.lookup "root" = found' at hroot
  cases hroot with
  | some same =>
      refine .intro record' known' ?_ hfound (orderFree_block o.tree _ _ same root) ?_
      · exact OrderFree.option (fun v _ => orderFree_string v) (lookups "description") description
      · exact OrderFree.option (fun v _ => orderFree_expectations v) (lookups "expect") expect

end BlockOutline
