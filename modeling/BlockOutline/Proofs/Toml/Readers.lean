import BlockOutline.Proofs.Fallible
import BlockOutline.Toml.Value

/-! # What readers find

A reader finds a value between two cursors. For every reader of keys and values: what it finds, in
terms of what its parts find. -/

namespace BlockOutline.Toml

open Fallible Text

variable {α β : Type}

/-! ## Cursors -/

namespace Cursor

theorem reaches_iff {c after : Cursor} :
    c.Reaches after ↔ ∃ cs, c.rest = cs ++ after.rest ∧ after.offset = c.offset + byteLength cs := by
  constructor
  · rintro ⟨count, rfl⟩
    exact ⟨c.rest.take count, (List.take_append_drop count c.rest).symm, rfl⟩
  · rintro ⟨cs, hrest, hoffset⟩
    refine ⟨cs.length, ?_⟩
    obtain ⟨offset, rest⟩ := after
    simp only at hrest hoffset
    simp [skip, hrest, hoffset]

theorem eq_nil_of_byteLength {cs : List Char} (h : byteLength cs = 0) : cs = [] := by
  cases cs with
  | nil => rfl
  | cons c cs =>
      have hpos := c.utf8Size_pos
      rw [byteLength_cons] at h
      omega

/-- Of two places in a text the one further ahead is reached from the other. -/
theorem Reaches.of_offset_le {text c after : Cursor} (hc : text.Reaches c)
    (hafter : text.Reaches after) (hle : c.offset ≤ after.offset) : c.Reaches after := by
  obtain ⟨cs, hcs, hoffset⟩ := reaches_iff.mp hc
  obtain ⟨es, hes, hoffset'⟩ := reaches_iff.mp hafter
  rw [hcs] at hes
  rcases List.append_eq_append_iff.mp hes with ⟨between, rfl, hrest⟩ | ⟨between, rfl, hrest⟩
  · refine reaches_iff.mpr ⟨between, hrest, ?_⟩
    rw [hoffset, hoffset', byteLength_append, Nat.add_assoc]
  · rw [byteLength_append] at hoffset
    have hnil : between = [] := eq_nil_of_byteLength (by omega)
    subst hnil
    exact reaches_iff.mpr ⟨[], hrest.symm, by rw [hoffset, hoffset']; rfl⟩

end Cursor

/-- A reader finds a value at a cursor, and stops at another one. -/
def Reads (r : Reader α) (c : Cursor) (value : α) (after : Cursor) : Prop :=
  ∃ found, r c = .ok found ∧ found.value = value ∧ found.after = after

theorem reads_of_eq_ok {r : Reader α} {c : Cursor} {found : Found α c} (h : r c = .ok found) :
    Reads r c found.value found.after :=
  ⟨found, h, rfl, rfl⟩

theorem Reads.reaches {r : Reader α} {c after : Cursor} {value : α} (h : Reads r c value after) :
    c.Reaches after := by
  obtain ⟨found, -, -, rfl⟩ := h
  exact found.reaches

/-! ## Keys -/

theorem reads_string_iff {kind : StringKind} {opening : ℕ} {c after : Cursor} {name : String} :
    Reads (string kind opening) c name after ↔
      ∃ text, Reads (quotedText kind) (c.skip opening) text after ∧ String.ofList text = name := by
  simp only [Reads, string, bind_eq_ok_iff, pure_eq_ok_iff]
  constructor
  · rintro ⟨-, ⟨text, htext, rfl⟩, rfl, rfl⟩
    exact ⟨text.value, ⟨text, htext, rfl, rfl⟩, rfl⟩
  · rintro ⟨-, ⟨text, htext, rfl, rfl⟩, rfl⟩
    exact ⟨_, ⟨text, htext, rfl⟩, rfl, rfl⟩

theorem reads_quoted_iff {kind : StringKind} {c after : Cursor} {key : Key} :
    (∃ found, (do
        let name ← string kind 1 c
        pure (name.map (⟨·, c.upTo name.after⟩)) : Except SyntaxError (Found Key c)) = .ok found ∧
      found.value = key ∧ found.after = after) ↔
    key.span = c.upTo after ∧ Reads (string kind 1) c key.name after := by
  obtain ⟨name, span⟩ := key
  simp only [Reads, bind_eq_ok_iff, pure_eq_ok_iff]
  constructor
  · rintro ⟨-, ⟨text, htext, rfl⟩, hkey, rfl⟩
    cases hkey
    exact ⟨rfl, text, htext, rfl, rfl⟩
  · rintro ⟨rfl, text, htext, rfl, rfl⟩
    exact ⟨_, ⟨text, htext, rfl⟩, rfl, rfl⟩

/-- A key part is written in quotes or bare. -/
theorem reads_keyPart_iff {c after : Cursor} {key : Key} :
    Reads keyPart c key after ↔ key.span = c.upTo after ∧
      ((c.rest.head? = some '"' ∧ Reads (string .basic 1) c key.name after) ∨
        (c.rest.head? = some '\'' ∧ Reads (string .literal 1) c key.name after) ∨
        (c.rest.takeWhile isBare ≠ [] ∧ String.ofList (c.rest.takeWhile isBare) = key.name ∧
          c.skipWhile isBare = after)) := by
  unfold Reads keyPart
  dsimp only
  split
  · next hrest =>
    rw [reads_quoted_iff]
    simp [hrest, isBare, Reads]
  · next hrest =>
    rw [reads_quoted_iff]
    simp [hrest, isBare, Reads]
  · next hbasic hliteral =>
    have hnoBasic : c.rest.head? ≠ some '"' := by
      intro h
      obtain ⟨tail, htail⟩ := List.head?_eq_some_iff.mp h
      exact hbasic tail htail
    have hnoLiteral : c.rest.head? ≠ some '\'' := by
      intro h
      obtain ⟨tail, htail⟩ := List.head?_eq_some_iff.mp h
      exact hliteral tail htail
    simp only [hnoBasic, hnoLiteral, false_and, false_or]
    by_cases hempty : c.rest.takeWhile isBare = []
    · simp [hempty, Cursor.fail]
    · obtain ⟨name, span⟩ := key
      simp only [List.isEmpty_iff, hempty, if_false, Except.ok.injEq, Key.mk.injEq, exists_eq_left',
        ne_eq, not_false_eq_true, true_and]
      constructor
      · rintro ⟨⟨hname, hspan⟩, rfl⟩
        exact ⟨hspan.symm, hname, rfl⟩
      · rintro ⟨rfl, hname, rfl⟩
        exact ⟨⟨hname, rfl⟩, rfl⟩

/-- Where the blanks after a key part end in a point there are more parts. -/
theorem reads_keyParts_iff {c after : Cursor} {path : KeyPath} :
    Reads keyParts c path after ↔ ∃ part stop, Reads keyPart c part stop ∧
      (((stop.skipWhile isBlank).rest.head? = some '.' ∧
          ∃ more, Reads keyParts (((stop.skipWhile isBlank).skip 1).skipWhile isBlank) more after ∧
            ⟨part :: more.parents, more.last⟩ = path) ∨
        ((stop.skipWhile isBlank).rest.head? ≠ some '.' ∧ ⟨[], part⟩ = path ∧
          stop.skipWhile isBlank = after)) := by
  unfold Reads
  rw [keyParts]
  simp only [bind_eq_ok_iff]
  constructor
  · rintro ⟨found, ⟨part, hpart, h⟩, rfl, rfl⟩
    refine ⟨part.value, part.after, ⟨part, hpart, rfl, rfl⟩, ?_⟩
    split at h
    · next hpoint =>
      obtain ⟨more, hmore, h⟩ := bind_eq_ok_iff.mp h
      cases h
      exact .inl ⟨by rw [hpoint]; rfl, more.value, ⟨more, hmore, rfl, rfl⟩, rfl⟩
    · next hnone =>
      cases h
      refine .inr ⟨fun hhead => ?_, rfl, rfl⟩
      obtain ⟨tail, htail⟩ := List.head?_eq_some_iff.mp hhead
      exact hnone tail htail
  · rintro ⟨-, -, ⟨part, hpart, rfl, rfl⟩, ⟨hhead, -, ⟨more, hmore, rfl, rfl⟩, rfl⟩ | ⟨hhead, rfl, rfl⟩⟩
    · obtain ⟨tail, htail⟩ := List.head?_eq_some_iff.mp hhead
      refine ⟨(more.map fun path => ⟨part.value :: path.parents, path.last⟩).since
        (((part.reaches.skipWhile isBlank).skip 1).skipWhile isBlank), ⟨part, hpart, ?_⟩, rfl, rfl⟩
      split
      · rw [hmore]
        rfl
      · next hnone => exact absurd htail (hnone tail)
    · refine ⟨⟨⟨[], part.value⟩, _, part.reaches.skipWhile isBlank⟩, ⟨part, hpart, ?_⟩, rfl, rfl⟩
      split
      · next hpoint =>
        rw [hpoint] at hhead
        exact absurd rfl hhead
      · rfl

theorem Cursor.length_lt_of_reaches {c m after : Cursor} {x : Char} (h : c.Reaches m)
    (hhead : m.rest.head? = some x) (hafter : (m.skip 1).Reaches after) :
    after.rest.length < c.rest.length := by
  obtain ⟨tail, htail⟩ := List.head?_eq_some_iff.mp hhead
  have hone : (m.skip 1).rest.length < m.rest.length := Cursor.length_skip_lt htail 0
  have hle := h.length_le
  have hle' := hafter.length_le
  omega

/-- The parts of a key follow one another. -/
@[elab_as_elim]
theorem keyParts_induction {after : Cursor}
    {motive : ∀ c path, Reads keyParts c path after → Prop}
    (last : ∀ c part stop (_ : Reads keyPart c part stop)
      (_ : (stop.skipWhile isBlank).rest.head? ≠ some '.') (_ : stop.skipWhile isBlank = after) h,
      motive c ⟨[], part⟩ h)
    (more : ∀ c part stop path (_ : Reads keyPart c part stop)
      (_ : (stop.skipWhile isBlank).rest.head? = some '.')
      (hpath : Reads keyParts (((stop.skipWhile isBlank).skip 1).skipWhile isBlank) path after)
      (_ : motive (((stop.skipWhile isBlank).skip 1).skipWhile isBlank) path hpath) h,
      motive c ⟨part :: path.parents, path.last⟩ h)
    {c : Cursor} {path : KeyPath} (h : Reads keyParts c path after) : motive c path h := by
  induction hn : c.rest.length using Nat.strongRecOn generalizing c path with
  | ind n ih =>
      obtain ⟨part, stop, hpart, hrest⟩ := reads_keyParts_iff.mp h
      rcases hrest with ⟨hpoint, path, hpath, rfl⟩ | ⟨hnone, rfl, hafter⟩
      · have hshorter := Cursor.length_lt_of_reaches (hpart.reaches.skipWhile isBlank) hpoint
          (Cursor.reaches_skipWhile _ isBlank)
        exact more c part stop path hpart hpoint hpath (ih _ (hn ▸ hshorter) hpath rfl) h
      · exact last c part stop hpart hnone hafter h

theorem reads_keyPath_iff {c after : Cursor} {path : KeyPath} :
    Reads keyPath c path after ↔ Reads keyParts c path after ∧ path.keys.length ≤ depthLimit := by
  simp only [Reads, keyPath, bind_eq_ok_iff]
  constructor
  · rintro ⟨found, ⟨path, hpath, h⟩, rfl, rfl⟩
    split at h
    · cases h
    · next hlimit =>
      cases h
      exact ⟨⟨_, hpath, rfl, rfl⟩, Nat.le_of_not_lt hlimit⟩
  · rintro ⟨⟨found, hfound, rfl, rfl⟩, hlimit⟩
    exact ⟨found, ⟨found, hfound, if_neg (Nat.not_lt_of_le hlimit)⟩, rfl, rfl⟩

/-! ## Values -/

theorem reads_scalarOf_iff {c after : Cursor} {wrap : α → Scalar}
    {read : Except (Fault × ℕ) (α × ℕ)} {node : Node} :
    (∃ found, scalarOf c wrap read = .ok found ∧ found.value = node ∧ found.after = after) ↔
      ∃ value count, read = .ok (value, count) ∧ c.skip count = after ∧
        .scalar (c.upTo after) (wrap value) = node := by
  match read with
  | .error (fault, position) => simp [scalarOf, Cursor.fail]
  | .ok (value, count) =>
      simp only [scalarOf, Except.ok.injEq, exists_eq_left', Prod.mk.injEq, and_assoc]
      constructor
      · rintro ⟨rfl, rfl⟩
        exact ⟨value, count, rfl, rfl, rfl, rfl⟩
      · rintro ⟨-, -, rfl, rfl, rfl, rfl⟩
        exact ⟨rfl, rfl⟩

/-- An array goes on after an item where a comma follows, and ends with it where the bracket does. -/
theorem reads_arrayItems_iff {item : Reader Node} {c after : Cursor} {nodes : List Node} :
    Reads (arrayItems item) c nodes after ↔
      ((skipGap c).1.rest.head? = some ']' ∧ [] = nodes ∧ (skipGap c).1.skip 1 = after) ∨
      ((skipGap c).1.rest.head?.any (fun head => head ≠ ']' && beginsValue head) ∧
        ∃ node stop, Reads item (skipGap c).1 node stop ∧
          (((skipGap stop).1.rest.head? = some ',' ∧
              ∃ more, Reads (arrayItems item) ((skipGap stop).1.skip 1) more after ∧
                node :: more = nodes) ∨
            ((skipGap stop).1.rest.head? = some ']' ∧ [node] = nodes ∧
              (skipGap stop).1.skip 1 = after))) := by
  unfold Reads
  rw [arrayItems]
  generalize skipGap c = gap
  obtain ⟨first, reaches⟩ := gap
  dsimp only
  split
  · next hrest => simp [hrest, Cursor.fail]
  · next head tail hrest =>
    simp only [hrest, List.head?_cons, Option.some.injEq, Option.any_some]
    by_cases hclose : head = ']'
    · simp [hclose]
    · by_cases hbegins : beginsValue head = true
      · simp only [hclose, hbegins, if_false, not_true_eq_false, bind_eq_ok_iff, false_and, false_or,
          ne_eq, not_false_eq_true, decide_true, Bool.and_self, true_and]
        constructor
        · rintro ⟨found, ⟨one, hone, h⟩, rfl, rfl⟩
          refine ⟨one.value, one.after, ⟨one, hone, rfl, rfl⟩, ?_⟩
          split at h
          · next hcomma =>
            obtain ⟨more, hmore, h⟩ := bind_eq_ok_iff.mp h
            cases h
            exact .inl ⟨by rw [hcomma]; rfl, more.value, ⟨more, hmore, rfl, rfl⟩, rfl⟩
          · next hbracket =>
            cases h
            exact .inr ⟨by rw [hbracket]; rfl, rfl, rfl⟩
          · cases h
        · rintro ⟨-, -, ⟨one, hone, rfl, rfl⟩, hrest⟩
          have hstop := (reaches.trans one.reaches).trans (skipGap one.after).2
          rcases hrest with ⟨hcomma, -, ⟨more, hmore, rfl, rfl⟩, rfl⟩ | ⟨hbracket, rfl, rfl⟩
          · refine ⟨(more.map (one.value :: ·)).since (hstop.skip 1), ⟨one, hone, ?_⟩, rfl, rfl⟩
            split
            · rw [hmore]
              rfl
            · next hbracket =>
              rw [hbracket] at hcomma
              simp at hcomma
            · next hnone _ =>
              obtain ⟨tail, htail⟩ := List.head?_eq_some_iff.mp hcomma
              exact absurd htail (hnone tail)
          · refine ⟨⟨[one.value], _, hstop.skip 1⟩, ⟨one, hone, ?_⟩, rfl, rfl⟩
            split
            · next hcomma =>
              rw [hcomma] at hbracket
              simp at hbracket
            · rfl
            · next hnone =>
              obtain ⟨tail, htail⟩ := List.head?_eq_some_iff.mp hbracket
              exact absurd htail (hnone tail)
      · simp [hclose, hbegins, Cursor.fail]

/-- The items of an array follow one another. -/
@[elab_as_elim]
theorem arrayItems_induction {item : Reader Node} {after : Cursor}
    {motive : ∀ c nodes, Reads (arrayItems item) c nodes after → Prop}
    (nil : ∀ c (_ : (skipGap c).1.rest.head? = some ']') (_ : (skipGap c).1.skip 1 = after) h,
      motive c [] h)
    (last : ∀ c node stop
      (_ : (skipGap c).1.rest.head?.any (fun head => head ≠ ']' && beginsValue head))
      (_ : Reads item (skipGap c).1 node stop) (_ : (skipGap stop).1.rest.head? = some ']')
      (_ : (skipGap stop).1.skip 1 = after) h, motive c [node] h)
    (more : ∀ c node stop nodes
      (_ : (skipGap c).1.rest.head?.any (fun head => head ≠ ']' && beginsValue head))
      (_ : Reads item (skipGap c).1 node stop) (_ : (skipGap stop).1.rest.head? = some ',')
      (hnodes : Reads (arrayItems item) ((skipGap stop).1.skip 1) nodes after)
      (_ : motive ((skipGap stop).1.skip 1) nodes hnodes) h, motive c (node :: nodes) h)
    {c : Cursor} {nodes : List Node} (h : Reads (arrayItems item) c nodes after) :
    motive c nodes h := by
  induction hn : c.rest.length using Nat.strongRecOn generalizing c nodes with
  | ind n ih =>
      rcases reads_arrayItems_iff.mp h with ⟨hclose, rfl, hafter⟩ | ⟨hbegins, node, stop, hnode, hrest⟩
      · exact nil c hclose hafter h
      · rcases hrest with ⟨hcomma, nodes, hnodes, rfl⟩ | ⟨hclose, rfl, hafter⟩
        · have hreaches := ((skipGap c).2.trans hnode.reaches).trans (skipGap stop).2
          have hshorter := Cursor.length_lt_of_reaches hreaches hcomma (.refl _)
          exact more c node stop nodes hbegins hnode hcomma hnodes
            (ih _ (hn ▸ hshorter) hnodes rfl) h
        · exact last c node stop hbegins hnode hclose hafter h

theorem exists_reads_of_mem_arrayItems {item : Reader Node} {c after : Cursor} {nodes : List Node}
    (h : Reads (arrayItems item) c nodes after) :
    ∀ node ∈ nodes, ∃ start stop, Reads item start node stop := by
  induction h using arrayItems_induction with
  | nil => simp
  | last c node stop _ hnode _ _ _ =>
      intro n hn
      rw [List.mem_singleton.mp hn]
      exact ⟨_, stop, hnode⟩
  | more c node stop nodes _ hnode _ _ ih _ =>
      intro n hn
      rcases List.mem_cons.mp hn with rfl | hn
      · exact ⟨_, stop, hnode⟩
      · exact ih n hn

theorem reads_assignment_iff {value : Reader Node} {c after : Cursor} {a : Assignment} :
    Reads (assignment value) c a after ↔ c.offset = a.offset ∧ ∃ stop, Reads keyPath c a.path stop ∧
      stop.rest.head? = some '=' ∧ ∃ stop', Reads value ((stop.skip 1).skipWhile isBlank) a.node stop' ∧
        stop'.skipWhile isBlank = after := by
  unfold Reads assignment
  simp only [bind_eq_ok_iff]
  constructor
  · rintro ⟨found, ⟨path, hpath, h⟩, rfl, rfl⟩
    split at h
    · next hequals =>
      obtain ⟨node, hnode, h⟩ := bind_eq_ok_iff.mp h
      cases h
      exact ⟨rfl, path.after, ⟨path, hpath, rfl, rfl⟩, by rw [hequals]; rfl, node.after,
        ⟨node, hnode, rfl, rfl⟩, rfl⟩
    · cases h
  · obtain ⟨offset, path', node'⟩ := a
    rintro ⟨rfl, -, ⟨path, hpath, rfl, rfl⟩, hequals, -, ⟨node, hnode, rfl, rfl⟩, rfl⟩
    obtain ⟨tail, htail⟩ := List.head?_eq_some_iff.mp hequals
    refine ⟨⟨⟨c.offset, path.value, node.value⟩, node.after.skipWhile isBlank,
      (((path.reaches.skip 1).skipWhile isBlank).trans node.reaches).skipWhile isBlank⟩,
      ⟨path, hpath, ?_⟩, rfl, rfl⟩
    split
    · rw [hnode]
      rfl
    · next hnone => exact absurd htail (hnone tail)

/-- An inline table goes on after an entry where a comma and a key follow, and ends where the brace
does. -/
theorem reads_inlineEntries_iff {value : Reader Node} {c after : Cursor} {as : List Assignment} :
    Reads (inlineEntries value) c as after ↔ ∃ a stop, Reads (assignment value) c a stop ∧
      ((stop.rest.head? = some ',' ∧ ((stop.skip 1).skipWhile isBlank).rest.head?.any beginsKey ∧
          ∃ more, Reads (inlineEntries value) ((stop.skip 1).skipWhile isBlank) more after ∧
            a :: more = as) ∨
        (stop.rest.head? = some '}' ∧ [a] = as ∧ stop.skip 1 = after)) := by
  unfold Reads
  rw [inlineEntries]
  simp only [bind_eq_ok_iff]
  constructor
  · rintro ⟨found, ⟨entry, hentry, h⟩, rfl, rfl⟩
    refine ⟨entry.value, entry.after, ⟨entry, hentry, rfl, rfl⟩, ?_⟩
    split at h
    · next hcomma =>
      split at h
      · next hkey =>
        obtain ⟨more, hmore, h⟩ := bind_eq_ok_iff.mp h
        cases h
        exact .inl ⟨by rw [hcomma]; rfl, hkey, more.value, ⟨more, hmore, rfl, rfl⟩, rfl⟩
      · cases h
    · next hbrace =>
      cases h
      exact .inr ⟨by rw [hbrace]; rfl, rfl, rfl⟩
    · cases h
  · rintro ⟨-, -, ⟨entry, hentry, rfl, rfl⟩, hrest⟩
    rcases hrest with ⟨hcomma, hkey, -, ⟨more, hmore, rfl, rfl⟩, rfl⟩ | ⟨hbrace, rfl, rfl⟩
    · refine ⟨(more.map (entry.value :: ·)).since ((entry.reaches.skip 1).skipWhile isBlank),
        ⟨entry, hentry, ?_⟩, rfl, rfl⟩
      split
      · rw [if_pos hkey, hmore]
        rfl
      · next hbrace =>
        rw [hbrace] at hcomma
        simp at hcomma
      · next hnone _ =>
        obtain ⟨tail, htail⟩ := List.head?_eq_some_iff.mp hcomma
        exact absurd htail (hnone tail)
    · refine ⟨⟨[entry.value], _, entry.reaches.skip 1⟩, ⟨entry, hentry, ?_⟩, rfl, rfl⟩
      split
      · next hcomma =>
        rw [hcomma] at hbrace
        simp at hbrace
      · rfl
      · next hnone =>
        obtain ⟨tail, htail⟩ := List.head?_eq_some_iff.mp hbrace
        exact absurd htail (hnone tail)

/-- The entries of an inline table follow one another. -/
@[elab_as_elim]
theorem inlineEntries_induction {value : Reader Node} {after : Cursor}
    {motive : ∀ c as, Reads (inlineEntries value) c as after → Prop}
    (last : ∀ c a stop (_ : Reads (assignment value) c a stop) (_ : stop.rest.head? = some '}')
      (_ : stop.skip 1 = after) h, motive c [a] h)
    (more : ∀ c a stop as (_ : Reads (assignment value) c a stop) (_ : stop.rest.head? = some ',')
      (_ : ((stop.skip 1).skipWhile isBlank).rest.head?.any beginsKey)
      (has : Reads (inlineEntries value) ((stop.skip 1).skipWhile isBlank) as after)
      (_ : motive ((stop.skip 1).skipWhile isBlank) as has) h, motive c (a :: as) h)
    {c : Cursor} {as : List Assignment} (h : Reads (inlineEntries value) c as after) :
    motive c as h := by
  induction hn : c.rest.length using Nat.strongRecOn generalizing c as with
  | ind n ih =>
      obtain ⟨a, stop, ha, hrest⟩ := reads_inlineEntries_iff.mp h
      rcases hrest with ⟨hcomma, hkey, as, has, rfl⟩ | ⟨hbrace, rfl, hafter⟩
      · have hshorter := Cursor.length_lt_of_reaches ha.reaches hcomma
          (Cursor.reaches_skipWhile _ isBlank)
        exact more c a stop as ha hcomma hkey has (ih _ (hn ▸ hshorter) has rfl) h
      · exact last c a stop ha hbrace hafter h

theorem exists_reads_of_mem_inlineEntries {value : Reader Node} {c after : Cursor}
    {as : List Assignment} (h : Reads (inlineEntries value) c as after) :
    ∀ a ∈ as, ∃ start stop, Reads value start a.node stop := by
  have hvalue {c stop : Cursor} {a : Assignment} (h : Reads (assignment value) c a stop) :
      ∃ start stop, Reads value start a.node stop := by
    obtain ⟨-, stop, -, -, stop', hnode, -⟩ := reads_assignment_iff.mp h
    exact ⟨_, stop', hnode⟩
  induction h using inlineEntries_induction with
  | last c a stop ha _ _ _ =>
      intro b hb
      rw [List.mem_singleton.mp hb]
      exact hvalue ha
  | more c a stop as ha _ _ _ ih _ =>
      intro b hb
      rcases List.mem_cons.mp hb with rfl | hb
      · exact hvalue ha
      · exact ih b hb

def beginsNumber (c : Char) : Bool :=
  c = '+' || c = '-' || c = '_' || c = '.' || c.isDigit

/-- The first character of a value says what the value is. -/
theorem reads_valueWith_iff {inner : Option (Reader Node)} {c after : Cursor} {node : Node} :
    Reads (valueWith inner) c node after ↔ ∃ head, c.rest.head? = some head ∧
      ((head = '[' ∧ ∃ item ∈ inner, ∃ nodes, Reads (arrayItems item) (c.skip 1) nodes after ∧
          .array (c.upTo after) nodes = node) ∨
        (head = '{' ∧ ∃ value ∈ inner,
          ((((c.skip 1).skipWhile isBlank).rest.head?.any beginsKey = true ∧
              ∃ as, Reads (inlineEntries value) ((c.skip 1).skipWhile isBlank) as after ∧
                inlineTable as (c.upTo after) = .ok node) ∨
            (((c.skip 1).skipWhile isBlank).rest.head? = some '}' ∧
              ((c.skip 1).skipWhile isBlank).skip 1 = after ∧
              .table (c.upTo after) [] = node))) ∨
        (head ≠ '[' ∧ head ≠ '{' ∧
          Reads (if beginsNumber head then numberOrDate else word) c node after)) := by
  unfold Reads valueWith
  split
  · next hrest => simp [hrest, Cursor.fail]
  · next hrest =>
    rw [hrest]
    cases inner with
    | none => simp [Cursor.fail]
    | some item =>
        simp only [List.head?_cons, Option.some.injEq, exists_eq_left', true_and, Option.mem_def,
          bind_eq_ok_iff, pure_eq_ok_iff, false_and, or_false, ne_eq,
          not_true_eq_false, Char.reduceEq]
        constructor
        · rintro ⟨-, ⟨items, hitems, rfl⟩, rfl, rfl⟩
          exact ⟨items.value, ⟨items, hitems, rfl, rfl⟩, rfl⟩
        · rintro ⟨-, ⟨items, hitems, rfl, rfl⟩, rfl⟩
          exact ⟨_, ⟨items, hitems, rfl⟩, rfl, rfl⟩
  · next hrest =>
    rw [hrest]
    cases inner with
    | none => simp [Cursor.fail]
    | some value =>
        simp only [List.head?_cons, Option.some.injEq, exists_eq_left', true_and, Option.mem_def,
          false_and, or_false, ne_eq, false_or, not_true_eq_false, Char.reduceEq, and_false]
        by_cases hkey : ((c.skip 1).skipWhile isBlank).rest.head?.any beginsKey = true
        · have hnoBrace : ((c.skip 1).skipWhile isBlank).rest.head? ≠ some '}' := by
            intro hbrace
            rw [hbrace] at hkey
            exact absurd hkey (by decide)
          simp only [hkey, hnoBrace, if_true, bind_eq_ok_iff, pure_eq_ok_iff, false_and, or_false,
            true_and]
          constructor
          · rintro ⟨-, ⟨as, has, table, htable, rfl⟩, rfl, rfl⟩
            exact ⟨as.value, ⟨as, has, rfl, rfl⟩, htable⟩
          · rintro ⟨-, ⟨as, has, rfl, rfl⟩, htable⟩
            exact ⟨_, ⟨as, has, node, htable, rfl⟩, rfl, rfl⟩
        · by_cases hbrace : ((c.skip 1).skipWhile isBlank).rest.head? = some '}'
          · rw [if_neg hkey, if_pos hbrace]
            have hnoKey : Option.any beginsKey (some '}') = false := by decide
            simp only [pure_eq_ok_iff, exists_eq_left', hbrace, hnoKey, Bool.false_eq_true,
              false_and, false_or, true_and]
            constructor
            · rintro ⟨rfl, rfl⟩
              exact ⟨rfl, rfl⟩
            · rintro ⟨rfl, rfl⟩
              exact ⟨rfl, rfl⟩
          · simp [hkey, hbrace, Cursor.fail]
  · next head tail hbracket hbrace hrest =>
    simp only [hrest, List.head?_cons, Option.some.injEq, exists_eq_left', ne_eq]
    have hnoBracket : ¬head = '[' := hbracket
    have hnoBrace : ¬head = '{' := hbrace
    simp only [hnoBracket, hnoBrace, false_and, false_or, not_false_eq_true, true_and]
    by_cases hnumber : beginsNumber head = true
    · rw [if_pos hnumber]
      rw [beginsNumber] at hnumber
      rw [if_pos hnumber]
    · rw [if_neg hnumber]
      rw [beginsNumber] at hnumber
      rw [if_neg hnumber]

theorem reads_word_of_opening {kind : StringKind} {opening : ℕ} {c after : Cursor} {node : Node}
    (h : opening? c.rest = some (kind, opening)) :
    Reads word c node after ↔ ∃ text, Reads (string kind opening) c text after ∧
      .scalar (c.upTo after) (.string text) = node := by
  unfold Reads word
  simp only [h, bind_eq_ok_iff, pure_eq_ok_iff]
  constructor
  · rintro ⟨-, ⟨text, htext, rfl⟩, rfl, rfl⟩
    exact ⟨text.value, ⟨text, htext, rfl, rfl⟩, rfl⟩
  · rintro ⟨-, ⟨text, htext, rfl, rfl⟩, rfl⟩
    exact ⟨_, ⟨text, htext, rfl⟩, rfl, rfl⟩

theorem exists_scalar_of_reads {head : Char} {c after : Cursor} {node : Node}
    (h : Reads (if beginsNumber head then numberOrDate else word) c node after) :
    ∃ value, node = .scalar (c.upTo after) value := by
  have hnumber {node : Node} (h : Reads numberOrDate c node after) :
      ∃ value, node = .scalar (c.upTo after) value := by
    unfold Reads numberOrDate at h
    split at h
    · obtain ⟨value, count, -, rfl, rfl⟩ := reads_scalarOf_iff.mp h
      exact ⟨_, rfl⟩
    · obtain ⟨value, count, -, rfl, rfl⟩ := reads_scalarOf_iff.mp h
      exact ⟨_, rfl⟩
  split at h
  · exact hnumber h
  · cases hopening : opening? c.rest with
    | some o =>
        obtain ⟨text, -, rfl⟩ := (reads_word_of_opening hopening).mp h
        exact ⟨_, rfl⟩
    | none =>
        unfold Reads word at h
        rw [hopening] at h
        dsimp only at h
        split at h
        · obtain ⟨value, count, -, rfl, rfl⟩ := reads_scalarOf_iff.mp h
          exact ⟨_, rfl⟩
        · obtain ⟨value, count, -, rfl, rfl⟩ := reads_scalarOf_iff.mp h
          exact ⟨_, rfl⟩
        · exact hnumber h
        · exact hnumber h
        · obtain ⟨found, hfound, -⟩ := h
          cases hfound

/-- A value that is read is a scalar, or its parts are read as values of one level less. -/
@[elab_as_elim]
theorem valueWithin_induction {motive : ℕ → Node → Prop}
    (scalar : ∀ depth span value, motive depth (.scalar span value))
    (array : ∀ depth span nodes, (∀ node ∈ nodes, motive depth node) →
      motive (depth + 1) (.array span nodes))
    (table : ∀ depth span as node, (∀ a ∈ as, motive depth a.node) →
      inlineTable as span = .ok node → motive (depth + 1) node)
    {depth : ℕ} {c after : Cursor} {node : Node} (h : Reads (valueWithin depth) c node after) :
    motive depth node := by
  induction depth generalizing c after node with
  | zero =>
      obtain ⟨head, -, h⟩ := reads_valueWith_iff.mp h
      rcases h with ⟨-, _, hitem, -⟩ | ⟨-, _, hvalue, -⟩ | ⟨-, -, h⟩
      · cases hitem
      · cases hvalue
      · obtain ⟨value, rfl⟩ := exists_scalar_of_reads h
        exact scalar 0 _ value
  | succ depth ih =>
      obtain ⟨head, -, h⟩ := reads_valueWith_iff.mp h
      rcases h with ⟨-, _, ⟨⟩, nodes, hnodes, rfl⟩ | ⟨-, _, ⟨⟩, h⟩ | ⟨-, -, h⟩
      · refine array depth _ nodes ?_
        intro node hn
        obtain ⟨start, stop, hnode⟩ := exists_reads_of_mem_arrayItems hnodes node hn
        exact ih hnode
      · rcases h with ⟨-, as, has, htable⟩ | ⟨-, -, rfl⟩
        · refine table depth _ as node ?_ htable
          intro a ha
          obtain ⟨start, stop, hnode⟩ := exists_reads_of_mem_inlineEntries has a ha
          exact ih hnode
        · exact table depth _ [] _ (by simp) rfl
      · obtain ⟨value, rfl⟩ := exists_scalar_of_reads h
        exact scalar (depth + 1) _ value

end BlockOutline.Toml
