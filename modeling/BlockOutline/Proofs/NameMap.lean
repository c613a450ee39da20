import BlockOutline.NameMap
import Mathlib.Data.List.Sort

/-! # Maps from names

What is found under a name after a change, and how members are gathered under their names. A map is
known by what is found in it. -/

namespace BlockOutline.NameMap

variable {α β : Type}

/-! ## Finding -/

theorem find?_insertEntry (name k : String) (value : α) (entries : List (String × α)) :
    ((insertEntry name value entries).find? (·.1 = k)).map (·.2) =
      if k = name then some value else (entries.find? (·.1 = k)).map (·.2) := by
  induction entries with
  | nil =>
      by_cases hk : k = name
      · simp [insertEntry, hk]
      · simp [insertEntry, hk, Ne.symm hk]
  | cons entry rest ih =>
      obtain ⟨n, v⟩ := entry
      rw [insertEntry]
      split
      · by_cases hk : k = name
        · simp [hk]
        · simp [hk, Ne.symm hk]
      · split
        · next heq =>
          subst heq
          by_cases hk : k = name
          · simp [hk]
          · simp [hk, Ne.symm hk]
        · next hne =>
          by_cases hn : n = k
          · subst hn
            simp [Ne.symm hne]
          · simpa [hn] using ih

theorem find?_insert (m : NameMap α) (name k : String) (value : α) :
    (m.insert name value).find? k = if k = name then some value else m.find? k :=
  find?_insertEntry name k value m.entries

@[simp] theorem find?_empty (k : String) : (empty : NameMap α).find? k = none :=
  rfl

theorem find?_mapValues (m : NameMap α) (f : α → β) (k : String) :
    (m.mapValues f).find? k = (m.find? k).map f := by
  simp only [find?, mapValues, List.find?_map, Option.map_map, Function.comp_def]

theorem nodup_names (m : NameMap α) : m.names.Nodup := by
  refine List.pairwise_map.mpr (m.ascending.imp ?_)
  intro a b hlt heq
  rw [heq] at hlt
  exact String.lt_irrefl _ hlt

theorem mem_names_iff {m : NameMap α} {k : String} :
    k ∈ m.names ↔ ∃ value, (k, value) ∈ m.entries := by
  simp [names]

theorem find?_eq_some_iff (m : NameMap α) {k : String} {value : α} :
    m.find? k = some value ↔ (k, value) ∈ m.entries := by
  simp only [find?, Option.map_eq_some_iff]
  constructor
  · rintro ⟨⟨n, v⟩, hfound, rfl⟩
    obtain rfl : n = k := by simpa using List.find?_some hfound
    exact List.mem_of_find?_eq_some hfound
  · intro hmem
    cases hfound : m.entries.find? (·.1 = k) with
    | none => simpa using List.find?_eq_none.mp hfound _ hmem
    | some entry =>
        have hname : entry.1 = k := by simpa using List.find?_some hfound
        have hentry := List.mem_of_find?_eq_some hfound
        have heq := List.inj_on_of_nodup_map m.nodup_names hentry hmem hname
        exact ⟨entry, rfl, by rw [heq]⟩

/-- Ascending lists with the same entries are the same. -/
theorem entries_eq_of_mem_iff {entries entries' : List (String × α)}
    (h : entries.Pairwise (·.1 < ·.1)) (h' : entries'.Pairwise (·.1 < ·.1))
    (hmem : ∀ e, e ∈ entries ↔ e ∈ entries') : entries = entries' := by
  have : Std.Irrefl fun a b : String × α => a.1 < b.1 := ⟨fun a => String.lt_irrefl a.1⟩
  have : Std.Antisymm fun a b : String × α => a.1 < b.1 :=
    ⟨fun a _ hab hba => absurd (String.lt_trans hab hba) (String.lt_irrefl a.1)⟩
  exact h.eq_of_mem_iff h' hmem

/-- Maps in which the same is found are the same. -/
theorem ext_find? {m m' : NameMap α} (h : ∀ k, m.find? k = m'.find? k) : m = m' := by
  have hentries : m.entries = m'.entries := by
    refine entries_eq_of_mem_iff m.ascending m'.ascending ?_
    intro e
    rw [← find?_eq_some_iff, ← find?_eq_some_iff, h]
  cases m
  cases m'
  cases hentries
  rfl

theorem find?_filter (m : NameMap α) (test : String → Bool) (k : String) :
    (m.filter fun name _ => test name).find? k = if test k then m.find? k else none := by
  simp only [find?, filter, List.find?_filter]
  by_cases hk : test k = true
  · rw [if_pos hk]
    congr 2
    funext entry
    by_cases hentry : entry.1 = k
    · simp [hentry, hk]
    · simp [hentry]
  · rw [if_neg hk]
    simp only [Option.map_eq_none_iff, List.find?_eq_none]
    intro entry _ hentry
    simp only [decide_eq_true_iff] at hentry
    exact hk (hentry.2 ▸ hentry.1)

theorem find?_erase (m : NameMap α) (name k : String) :
    (m.erase name).find? k = if k = name then none else m.find? k := by
  have hfilter : m.erase name = m.filter fun n _ => n ≠ name := rfl
  rw [hfilter, find?_filter]
  by_cases hk : k = name
  · simp [hk]
  · simp [hk]

theorem nodup_entries (m : NameMap α) : m.entries.Nodup :=
  m.nodup_names.of_map _

/-- A map with a name has its entry and those of all other names. -/
theorem perm_of_find? {m : NameMap α} {name : String} {value : α} (h : m.find? name = some value) :
    m.entries.Perm ((name, value) :: (m.erase name).entries) := by
  have hother : (name, value) ∉ (m.erase name).entries := by
    rw [← find?_eq_some_iff, find?_erase]
    simp
  refine (List.perm_ext_iff_of_nodup m.nodup_entries
    (List.nodup_cons.mpr ⟨hother, nodup_entries _⟩)).mpr ?_
  intro entry
  obtain ⟨k, v⟩ := entry
  rw [List.mem_cons, ← find?_eq_some_iff, ← find?_eq_some_iff, find?_erase]
  by_cases hk : k = name
  · subst hk
    simp [h, eq_comm]
  · simp [hk]

theorem erase_of_find?_eq_none {m : NameMap α} {name : String} (h : m.find? name = none) :
    m.erase name = m := by
  apply ext_find?
  intro k
  rw [find?_erase]
  split
  · next hk => rw [hk, h]
  · rfl

theorem erase_insert (m : NameMap α) (name : String) (value : α) :
    (m.insert name value).erase name = m.erase name := by
  apply ext_find?
  intro k
  rw [find?_erase, find?_erase, find?_insert]
  split <;> rfl

/-- A name that is given a value keeps no other one. -/
theorem perm_insert (m : NameMap α) (name : String) (value : α) :
    (m.insert name value).entries.Perm ((name, value) :: (m.erase name).entries) := by
  have hfound : (m.insert name value).find? name = some value := by
    rw [find?_insert, if_pos rfl]
  rw [← erase_insert m name value]
  exact perm_of_find? hfound

/-! ## Gathering -/

theorem find?_append (m : NameMap (List α)) (name k : String) (member : α) :
    (m.append name member).find? k =
      if k = name then some ((m.find? k).getD [] ++ [member]) else m.find? k := by
  rw [append, find?_insert]
  split
  · next hk => rw [hk]
  · rfl

/-- Gathered under its names, a list is found in parts: under each name its members of that name, in
their order. -/
theorem find?_foldl_append (key : α → String) (xs : List α) (m : NameMap (List α)) (k : String) :
    (xs.foldl (fun m x => m.append (key x) x) m).find? k =
      if xs.filter (key · = k) = [] then m.find? k
      else some ((m.find? k).getD [] ++ xs.filter (key · = k)) := by
  induction xs generalizing m with
  | nil => simp
  | cons x xs ih =>
      rw [List.foldl_cons, ih, find?_append]
      by_cases hx : key x = k
      · subst hx
        by_cases hrest : xs.filter (key · = key x) = []
        · simp [hrest]
        · simp [hrest]
      · simp [hx, Ne.symm hx]

/-- All members of the lists in a map, one list after the other. -/
def members (m : NameMap (List α)) : List α :=
  m.entries.flatMap (·.2)

end BlockOutline.NameMap
