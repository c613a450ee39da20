import BlockOutline.Proofs.Fallible
import BlockOutline.Proofs.Outline.Schema
import BlockOutline.Proofs.Toml.Documents

/-! # Reading records

A record is read entry by entry. Whether that succeeds is decided by each entry for itself, and what
it leaves in a field comes from the one entry of that name. -/

namespace BlockOutline

open Fallible
open Toml (Node Key)

/-! ## The parts of a value -/

namespace Toml.Node

/-- The values directly inside of a value. -/
def parts : Node → List Node
  | .scalar _ _ => []
  | .array _ items => items
  | .table _ entries => entries.map (·.2)

theorem sizeOf_lt_of_mem_parts {node part : Node} (h : part ∈ node.parts) :
    sizeOf part < sizeOf node := by
  cases node with
  | scalar => cases h
  | array span items =>
      have hlt : sizeOf part < sizeOf items := List.sizeOf_lt_of_mem h
      simp only [array.sizeOf_spec]
      omega
  | table span entries =>
      obtain ⟨⟨key, value⟩, he, rfl⟩ := List.mem_map.mp h
      have hlt := List.sizeOf_lt_of_mem he
      simp only [table.sizeOf_spec, Prod.mk.sizeOf_spec] at hlt ⊢
      omega

/-- What holds of a value as soon as it holds of its parts holds of every value. -/
@[elab_as_elim, induction_eliminator]
theorem induction {motive : Node → Prop}
    (step : ∀ node, (∀ part ∈ node.parts, motive part) → motive node) (node : Node) :
    motive node :=
  step node fun part _ => induction step part
termination_by node
decreasing_by exact sizeOf_lt_of_mem_parts ‹part ∈ node.parts›

theorem DistinctKeys.of_mem_parts {node part : Node} (h : node.DistinctKeys)
    (hpart : part ∈ node.parts) : part.DistinctKeys := by
  cases h with
  | scalar => cases hpart
  | array span hitems => exact hitems part hpart
  | table span nodup hentries =>
      obtain ⟨entry, he, rfl⟩ := List.mem_map.mp hpart
      exact hentries entry he

end Toml.Node

namespace Record

/-! ## Members -/

theorem mem_of_lookup {members : List (String × Node)} {name : String} {value : Node}
    (h : members.lookup name = some value) : (name, value) ∈ members := by
  obtain ⟨before, after, rfl, -⟩ := List.lookup_eq_some_iff.mp h
  exact List.mem_append_right before List.mem_cons_self

theorem isSome_lookup_iff {members : List (String × Node)} {name : String} :
    (members.lookup name).isSome ↔ name ∈ members.map Prod.fst := by
  rw [List.lookup_isSome_iff, List.mem_map]
  constructor
  · rintro ⟨m, hm, hname⟩
    exact ⟨m, hm, (beq_iff_eq.mp hname).symm⟩
  · rintro ⟨m, hm, hname⟩
    exact ⟨m, hm, beq_iff_eq.mpr hname.symm⟩

theorem mem_names_iff {entries : List (Key × Node)} {name : String} :
    name ∈ (entries.map member).map Prod.fst ↔ ∃ entry ∈ entries, entry.1.name = name := by
  rw [List.map_map, List.mem_map]
  rfl

theorem members_eq_some_iff (r : Record) (node : Node) (members : List (String × Node)) :
    r.members node = some members ↔
      ∃ entries, r.entries node = .ok entries ∧ entries.map member = members := by
  cases node with
  | scalar span value => cases value <;> simp [Record.members, Record.entries, mismatch, unknown]
  | array span items =>
      simp only [Record.members, Record.entries, Except.ok.injEq, exists_eq_left', List.map_map,
        Option.some.injEq]
      constructor
      · intro h
        simpa [Function.comp_def, member] using h
      · intro h
        simpa [Function.comp_def, member] using h
  | table span entries => simp [Record.members, Record.entries]

theorem mem_parts_of_mem_members {r : Record} {node : Node} {members : List (String × Node)}
    (h : r.members node = some members) : ∀ m ∈ members, m.2 ∈ node.parts := by
  intro m hm
  cases node with
  | scalar => cases h
  | array span items =>
      cases h
      exact (List.of_mem_zip hm).2
  | table span entries =>
      cases h
      obtain ⟨entry, he, rfl⟩ := List.mem_map.mp hm
      exact List.mem_map_of_mem he

theorem map_fst_zip_eq_take (names : List String) (items : List Node) :
    (names.zip items).map Prod.fst = names.take items.length := by
  induction names generalizing items with
  | nil => simp
  | cons name names ih =>
      cases items with
      | nil => simp
      | cons item items => simpa using ih items

/-- No field of a record is given twice. -/
theorem nodup_members {r : Record} (hr : r.fields.Nodup) {node : Node} (hn : node.DistinctKeys)
    {members : List (String × Node)} (h : r.members node = some members) :
    (members.map Prod.fst).Nodup := by
  cases hn with
  | scalar => cases h
  | array span hitems =>
      cases h
      rw [map_fst_zip_eq_take]
      exact hr.sublist (List.take_sublist _ _)
  | table span nodup hentries =>
      cases h
      simpa [Function.comp_def, member] using nodup

/-! ## Reading fields -/

section ReadFields

variable {σ : Type} {r : Record} {readEntry : σ → Key × Node → Except SchemaError σ} {start : σ}
  {node : Node}

theorem readFields_eq_ok_iff {s : σ} :
    r.readFields readEntry start node = .ok s ↔
      ∃ entries, r.entries node = .ok entries ∧ entries.foldlM readEntry start = .ok s :=
  bind_eq_ok_iff

theorem readFields_array (span : Toml.Span) (items : List Node) :
    r.readFields readEntry start (.array span items) =
      ((r.fields.zip items).map fun m => (⟨m.1, m.2.span⟩, m.2)).foldlM readEntry start :=
  rfl

theorem mem_parts_of_mem_entries {entries : List (Key × Node)} (h : r.entries node = .ok entries) :
    ∀ entry ∈ entries, entry.2 ∈ node.parts := by
  intro entry he
  have hmembers := (members_eq_some_iff r node _).mpr ⟨entries, h, rfl⟩
  exact mem_parts_of_mem_members hmembers (member entry) (List.mem_map_of_mem he)

/-- A record is read exactly if it is one and all its members are fields of the right shape. -/
theorem readFields_isOk_iff (start : σ) {IsField : String → Node → Prop}
    (hentry : ∀ s entry, entry.2 ∈ node.parts →
      ((∃ s', readEntry s entry = .ok s') ↔ IsField entry.1.name entry.2)) :
    (∃ s, r.readFields readEntry start node = .ok s) ↔
      ∃ members, r.members node = some members ∧ ∀ m ∈ members, IsField m.1 m.2 := by
  have hrun (entries) (h : r.entries node = .ok entries) :=
    foldlM_isOk_iff (fun s entry he => hentry s entry (mem_parts_of_mem_entries h entry he)) start
  simp only [readFields_eq_ok_iff, members_eq_some_iff]
  constructor
  · rintro ⟨s, entries, hentries, h⟩
    refine ⟨entries.map member, ⟨entries, hentries, rfl⟩, ?_⟩
    intro m hm
    obtain ⟨entry, he, rfl⟩ := List.mem_map.mp hm
    exact (hrun entries hentries).mp ⟨s, h⟩ entry he
  · rintro ⟨members, ⟨entries, hentries, rfl⟩, hall⟩
    have hfields : ∀ entry ∈ entries, IsField entry.1.name entry.2 := fun entry he =>
      hall (member entry) (List.mem_map_of_mem he)
    obtain ⟨s, h⟩ := (hrun entries hentries).mpr hfields
    exact ⟨s, entries, hentries, h⟩

/-- A field that no entry belongs to stays as it was. -/
theorem foldlM_absent {γ : Type} {get : σ → γ} {name : String} {entries : List (Key × Node)}
    (hstep : ∀ s s', ∀ entry ∈ entries, readEntry s entry = .ok s' → entry.1.name ≠ name →
      get s' = get s)
    (absent : name ∉ (entries.map member).map Prod.fst) {s s' : σ}
    (h : entries.foldlM readEntry s = .ok s') : get s' = get s := by
  refine foldlM_preserves (fun t => get t = get s) ?_ rfl h
  intro t t' entry he hkeeps hread
  rw [hstep t t' entry he hread, hkeeps]
  rintro rfl
  exact absent (List.mem_map_of_mem (List.mem_map_of_mem he))

/-- What a run leaves in a field comes from the entry of its name alone. -/
theorem foldlM_field {γ : Type} {get : σ → γ} {name : String} {Fills : Option Node → γ → Prop}
    {entries : List (Key × Node)} (nodup : ((entries.map member).map Prod.fst).Nodup)
    (hstep : ∀ s s', ∀ entry ∈ entries, readEntry s entry = .ok s' →
      if entry.1.name = name then Fills (some entry.2) (get s') else get s' = get s)
    {s s' : σ} (hs : Fills none (get s)) (h : entries.foldlM readEntry s = .ok s') :
    Fills ((entries.map member).lookup name) (get s') := by
  induction entries generalizing s with
  | nil =>
      cases h
      exact hs
  | cons entry entries ih =>
      rw [List.foldlM_cons, bind_eq_ok_iff] at h
      obtain ⟨next, hnext, h⟩ := h
      have hmember : member entry = (entry.1.name, entry.2) := rfl
      rw [List.map_cons, List.map_cons, hmember, List.nodup_cons] at nodup
      rw [List.map_cons, hmember, List.lookup_cons]
      have hfirst := hstep s next entry List.mem_cons_self hnext
      have hrest := fun s s' e he => hstep s s' e (List.mem_cons_of_mem entry he)
      by_cases hname : entry.1.name = name
      · -- No later entry has this name, so what this one leaves stays.
        subst hname
        have hkeeps : get s' = get next := by
          refine foldlM_absent ?_ nodup.1 h
          intro t t' e he hread hne
          simpa [hne] using hrest t t' e he hread
        rw [hkeeps, BEq.rfl]
        simpa using hfirst
      · rw [beq_false_of_ne (Ne.symm hname)]
        refine ih nodup.2 hrest ?_ h
        rw [if_neg hname] at hfirst
        rwa [hfirst]

/-- What reading a record leaves in a field comes from the member of its name alone, if this is so
of each entry. -/
theorem readFields_field {Enters : σ → String → Node → σ → Prop}
    (hread : ∀ s s' entry, readEntry s entry = .ok s' → Enters s entry.1.name entry.2 s')
    {s : σ} (h : r.readFields readEntry start node = .ok s) (hr : r.fields.Nodup)
    (hn : node.DistinctKeys) {members : List (String × Node)}
    (hmembers : r.members node = some members) {γ : Type} (get : σ → γ) (name : String)
    {Fills : Option Node → γ → Prop} (hstart : Fills none (get start))
    (hstep : ∀ {s s' written value}, value ∈ node.parts → Enters s written value s' →
      if written = name then Fills (some value) (get s') else get s' = get s) :
    Fills (members.lookup name) (get s) := by
  have nodup := nodup_members hr hn hmembers
  obtain ⟨entries, hentries, hrun⟩ := readFields_eq_ok_iff.mp h
  obtain ⟨entries', hentries', rfl⟩ := (members_eq_some_iff r node members).mp hmembers
  cases hentries.symm.trans hentries'
  refine foldlM_field nodup ?_ hstart hrun
  intro s s' entry he hentry
  exact hstep (mem_parts_of_mem_entries hentries entry he) (hread s s' entry hentry)

end ReadFields

end Record

end BlockOutline
