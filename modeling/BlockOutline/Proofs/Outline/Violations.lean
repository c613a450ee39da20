import BlockOutline.Proofs.Outline.Records

/-! # Violations of the schema

A document is met depth first, one event after the other: keys, scalars, and the beginnings and ends
of arrays and tables. A violation has its place among these events, and which violations there are up
to a place depends on nothing behind it. -/

namespace BlockOutline

open Toml (Node Key)

/-! ## Events -/

/-- What is met on the way through a document. -/
inductive ReadEvent where
  | key (name : String)
  | scalar (value : Toml.Scalar)
  | openArray
  | closeArray
  | openTable
  | closeTable
deriving Inhabited, Repr, DecidableEq

mutual

/-- The events of a value, depth first. -/
def reading : Node → List ReadEvent
  | .scalar _ value => [.scalar value]
  | .array _ items => .openArray :: (readingItems items ++ [.closeArray])
  | .table _ entries => .openTable :: (readingEntries entries ++ [.closeTable])

def readingItems : List Node → List ReadEvent
  | [] => []
  | item :: rest => reading item ++ readingItems rest

/-- A key is met before its value. -/
def readingEntries : List (Key × Node) → List ReadEvent
  | [] => []
  | (key, value) :: rest => .key key.name :: (reading value ++ readingEntries rest)

end

theorem readingItems_append (items items' : List Node) :
    readingItems (items ++ items') = readingItems items ++ readingItems items' := by
  induction items with
  | nil => rfl
  | cons item items ih => simp [readingItems, ih]

theorem readingEntries_append (entries entries' : List (Key × Node)) :
    readingEntries (entries ++ entries') = readingEntries entries ++ readingEntries entries' := by
  induction entries with
  | nil => rfl
  | cons entry entries ih => simp [readingEntries, ih]

/-- Whether a value can begin with an event. -/
def ReadEvent.opens : ReadEvent → Bool
  | scalar _ | openArray | openTable => true
  | key _ | closeArray | closeTable => false

theorem exists_reading_eq_cons (node : Node) :
    ∃ event rest, reading node = event :: rest ∧ event.opens = true := by
  cases node with
  | scalar span value => exact ⟨_, _, by rw [reading], rfl⟩
  | array span items => exact ⟨_, _, by rw [reading], rfl⟩
  | table span entries => exact ⟨_, _, by rw [reading], rfl⟩

/-- From its events it can be told where a value ends. -/
def Delimited (node : Node) : Prop :=
  ∀ node' X X', reading node ++ X = reading node' ++ X' → reading node = reading node' ∧ X = X'

theorem readingItems_delimited {items : List Node} (hitems : ∀ item ∈ items, Delimited item)
    {items' : List Node} {X X' : List ReadEvent}
    (h : readingItems items ++ .closeArray :: X = readingItems items' ++ .closeArray :: X') :
    readingItems items = readingItems items' ∧ X = X' := by
  induction items generalizing items' with
  | nil =>
      cases items' with
      | nil => simpa [readingItems] using h
      | cons item' items' =>
          obtain ⟨event, rest, hreading, hopens⟩ := exists_reading_eq_cons item'
          simp only [readingItems, hreading, List.nil_append, List.cons_append, List.cons.injEq] at h
          rw [← h.1] at hopens
          cases hopens
  | cons item items ih =>
      cases items' with
      | nil =>
          obtain ⟨event, rest, hreading, hopens⟩ := exists_reading_eq_cons item
          simp only [readingItems, hreading, List.nil_append, List.cons_append, List.cons.injEq] at h
          rw [h.1] at hopens
          cases hopens
      | cons item' items' =>
          simp only [readingItems, List.append_assoc] at h ⊢
          obtain ⟨hitem, h⟩ := hitems item List.mem_cons_self item' _ _ h
          obtain ⟨hrest, hX⟩ := ih (fun i hi => hitems i (List.mem_cons_of_mem item hi)) h
          exact ⟨by rw [hitem, hrest], hX⟩

theorem readingEntries_delimited {entries : List (Key × Node)}
    (hentries : ∀ entry ∈ entries, Delimited entry.2) {entries' : List (Key × Node)}
    {X X' : List ReadEvent}
    (h : readingEntries entries ++ .closeTable :: X = readingEntries entries' ++ .closeTable :: X') :
    readingEntries entries = readingEntries entries' ∧ X = X' := by
  induction entries generalizing entries' with
  | nil =>
      cases entries' with
      | nil => simpa [readingEntries] using h
      | cons entry' entries' => simp [readingEntries] at h
  | cons entry entries ih =>
      cases entries' with
      | nil => simp [readingEntries] at h
      | cons entry' entries' =>
          simp only [readingEntries, List.cons_append, List.append_assoc, List.cons.injEq] at h ⊢
          obtain ⟨hkey, h⟩ := h
          obtain ⟨hvalue, h⟩ := hentries entry List.mem_cons_self entry'.2 _ _ h
          obtain ⟨hrest, hX⟩ := ih (fun e he => hentries e (List.mem_cons_of_mem entry he)) h
          exact ⟨⟨hkey, by rw [hvalue, hrest]⟩, hX⟩

theorem delimited (node : Node) : Delimited node := by
  induction node with
  | step node ih =>
      intro node' X X' h
      cases node with
      | scalar span value =>
          cases node' with
          | scalar span' value' => simpa [reading] using h
          | array span' items' => simp [reading] at h
          | table span' entries' => simp [reading] at h
      | array span items =>
          cases node' with
          | scalar span' value' => simp [reading] at h
          | array span' items' =>
              simp only [reading, List.cons_append, List.append_assoc, List.nil_append,
                List.cons.injEq, true_and] at h
              have hsame : readingItems items = readingItems items' ∧ X = X' :=
                readingItems_delimited ih h
              obtain ⟨hitems, hX⟩ := hsame
              exact ⟨by rw [reading, reading, hitems], hX⟩
          | table span' entries' => simp [reading] at h
      | table span entries =>
          cases node' with
          | scalar span' value' => simp [reading] at h
          | array span' items' => simp [reading] at h
          | table span' entries' =>
              simp only [reading, List.cons_append, List.append_assoc, List.nil_append,
                List.cons.injEq, true_and] at h
              have hvalues (entry) (he : entry ∈ entries) : Delimited entry.2 :=
                ih entry.2 (List.mem_map_of_mem he)
              obtain ⟨hentries, hX⟩ := readingEntries_delimited hvalues h
              exact ⟨by rw [reading, reading, hentries], hX⟩

/-! ## Shapes -/

/-- What a place of the schema asks for. -/
inductive Shape where
  | string
  | natural
  | strings
  | block
  | blocks
  | expectations
  | outline
deriving Inhabited, Repr, DecidableEq

namespace Shape

def record? : Shape → Option Record
  | block => some .node
  | expectations => some .expectations
  | outline => some .outline
  | _ => none

/-- What the fields of a record ask for. -/
def field? (shape : Shape) (name : String) : Option Shape :=
  match shape with
  | block =>
    match name with
    | "prototype" => some string
    | "statements" => some strings
    | "children" => some blocks
    | _ => none
  | expectations =>
    match name with
    | "height" | "total_blocks" => some natural
    | "prototypes" | "statements" => some strings
    | "error" => some string
    | _ => none
  | outline =>
    match name with
    | "description" => some string
    | "root" => some block
    | "expect" => some expectations
    | _ => none
  | _ => none

/-- What the items of an array ask for: those of a list all the same, those of a record what the
field of their index asks for. -/
def item? (shape : Shape) (index : ℕ) : Option Shape :=
  match shape with
  | strings => some string
  | blocks => some block
  | _ => shape.record?.bind fun r => r.fields[index]?.bind shape.field?

def wanted : Shape → Wanted
  | string => .string
  | natural => .natural
  | strings | blocks => .sequence
  | block => .record Record.node.name
  | expectations => .record Record.expectations.name
  | outline => .record Record.outline.name

/-- Whether a value is of the right kind, whatever is inside of it. A date counts as a record with an
unknown key. -/
def fits : Shape → Node → Bool
  | string, .scalar _ (.string _) => true
  | natural, .scalar _ (.integer _) => true
  | strings, .array _ _ => true
  | blocks, .array _ _ => true
  | shape, .array _ _ => shape.record?.isSome
  | shape, .table _ _ => shape.record?.isSome
  | shape, .scalar _ (.dateTime _) => shape.record?.isSome
  | _, _ => false

end Shape

/-! ## Places of violations -/

/-- A violation inside of a value, with the number of events before it: a value of the wrong kind, a
number below zero or an unknown key, on whichever level. Items behind the last field of a record can
violate nothing. -/
inductive Violates : Shape → Node → ℕ → SchemaError → Prop where
  | wrongType {shape : Shape} {node : Node} (h : shape.fits node = false) :
      Violates shape node 0 ⟨.wrongType (.ofNode node) shape.wanted, node.span⟩
  | dateTime {shape : Shape} {r} (record : shape.record? = some r) (span value) :
      Violates shape (.scalar span (.dateTime value)) 0
        ⟨.unknownField Record.dateTimeKey r.fields, span⟩
  | negative (span) {value : Int} (h : value < 0) :
      Violates .natural (.scalar span (.integer value)) 0 ⟨.negative value, span⟩
  | unknownKey {shape : Shape} {r} (record : shape.record? = some r) (span before) {key : Key}
      (value after) (unknown : shape.field? key.name = none) :
      Violates shape (.table span (before ++ (key, value) :: after))
        (1 + (readingEntries before).length) ⟨.unknownField key.name r.fields, key.span⟩
  | entry {shape : Shape} {r} (record : shape.record? = some r) (span before) {key : Key} {value}
      (after) {field n e} (known : shape.field? key.name = some field)
      (h : Violates field value n e) :
      Violates shape (.table span (before ++ (key, value) :: after))
        (1 + (readingEntries before).length + (1 + n)) e
  | item {shape : Shape} (span) {before : List Node} {value} (after) {part n e}
      (known : shape.item? before.length = some part) (h : Violates part value n e) :
      Violates shape (.array span (before ++ value :: after))
        (1 + (readingItems before).length + n) e

/-- A violation of a whole document. That the root is missing shows at the end only. -/
inductive DocumentViolates : Node → ℕ → SchemaError → Prop where
  | inside {document n e} (h : Violates .outline document n e) : DocumentViolates document n e
  | missingRoot (span) {entries} (h : ∀ entry ∈ entries, entry.1.name ≠ "root") :
      DocumentViolates (.table span entries) (1 + (readingEntries entries).length)
        ⟨.missingField "root", span⟩

theorem Violates.lt_length {shape : Shape} {node : Node} {n : ℕ} {e : SchemaError}
    (h : Violates shape node n e) : n < (reading node).length := by
  induction h with
  | wrongType | dateTime | negative =>
      obtain ⟨event, rest, hreading, -⟩ := exists_reading_eq_cons _
      rw [hreading]
      exact Nat.zero_lt_succ _
  | unknownKey record span before value after unknown =>
      simp [reading, readingEntries_append, readingEntries]
      omega
  | entry record span before after known h ih =>
      simp [reading, readingEntries_append, readingEntries]
      omega
  | item span after known h ih =>
      simp [reading, readingItems_append, readingItems]
      omega

theorem Violates.ne_missingField {shape : Shape} {node : Node} {n : ℕ} {e : SchemaError}
    (h : Violates shape node n e) (name : String) : e.violation ≠ .missingField name := by
  induction h with
  | entry _ _ _ _ _ _ ih => exact ih
  | item _ _ _ _ ih => exact ih
  | _ => simp

/-! ## What decides -/

theorem exists_entries_of_append_eq {before : List (Key × Node)} {name : String} {Z : List ReadEvent}
    {entries' : List (Key × Node)} {X' : List ReadEvent}
    (h : readingEntries before ++ .key name :: Z = readingEntries entries' ++ .closeTable :: X') :
    ∃ before' key value after, entries' = before' ++ (key, value) :: after ∧ key.name = name ∧
      readingEntries before = readingEntries before' ∧
      Z = reading value ++ (readingEntries after ++ .closeTable :: X') := by
  induction before generalizing entries' with
  | nil =>
      cases entries' with
      | nil => simp [readingEntries] at h
      | cons entry' rest =>
          obtain ⟨key, value⟩ := entry'
          simp only [readingEntries, List.nil_append, List.cons_append, List.append_assoc,
            List.cons.injEq, ReadEvent.key.injEq] at h
          exact ⟨[], key, value, rest, rfl, h.1.symm, rfl, h.2⟩
  | cons entry before ih =>
      cases entries' with
      | nil => simp [readingEntries] at h
      | cons entry' rest =>
          simp only [readingEntries, List.cons_append, List.append_assoc, List.cons.injEq] at h
          obtain ⟨hkey, h⟩ := h
          obtain ⟨hvalue, h⟩ := delimited entry.2 entry'.2 _ _ h
          obtain ⟨before', key, value, after, rfl, hname, hbefore, hZ⟩ := ih h
          refine ⟨entry' :: before', key, value, after, rfl, hname, ?_, hZ⟩
          simp only [readingEntries, hkey, hvalue, hbefore]

theorem exists_items_of_append_eq {before : List Node} {event : ReadEvent} (hopens : event.opens = true)
    {Z : List ReadEvent} {items' : List Node} {X' : List ReadEvent}
    (h : readingItems before ++ event :: Z = readingItems items' ++ .closeArray :: X') :
    ∃ before' value after, items' = before' ++ value :: after ∧ before.length = before'.length ∧
      readingItems before = readingItems before' ∧
      event :: Z = reading value ++ (readingItems after ++ .closeArray :: X') := by
  induction before generalizing items' with
  | nil =>
      cases items' with
      | nil =>
          simp only [readingItems, List.nil_append, List.cons.injEq] at h
          rw [h.1] at hopens
          cases hopens
      | cons item' rest =>
          simp only [readingItems, List.nil_append, List.append_assoc] at h
          exact ⟨[], item', rest, rfl, rfl, rfl, h⟩
  | cons item before ih =>
      cases items' with
      | nil =>
          obtain ⟨first, rest, hreading, hfirst⟩ := exists_reading_eq_cons item
          simp only [readingItems, hreading, List.nil_append, List.cons_append, List.cons.injEq] at h
          rw [h.1] at hfirst
          cases hfirst
      | cons item' rest =>
          simp only [readingItems, List.append_assoc] at h
          obtain ⟨hitem, h⟩ := delimited item item' _ _ h
          obtain ⟨before', value, after, rfl, hlength, hbefore, hZ⟩ := ih h
          refine ⟨item' :: before', value, after, rfl, by simp [hlength], ?_, hZ⟩
          simp only [readingItems, hitem, hbefore]

section Common

variable {common : List ReadEvent} {node node' : Node} {X X' : List ReadEvent}

theorem head_eq_of_common (hnode : common <+: reading node ++ X)
    (hnode' : common <+: reading node' ++ X') (hlength : 0 < common.length) :
    (reading node).head? = (reading node').head? := by
  obtain ⟨Y, hY⟩ := hnode
  obtain ⟨Y', hY'⟩ := hnode'
  cases common with
  | nil => cases hlength
  | cons event common =>
      obtain ⟨first, rest, hreading, -⟩ := exists_reading_eq_cons node
      obtain ⟨first', rest', hreading', -⟩ := exists_reading_eq_cons node'
      rw [hreading, List.cons_append, List.cons_append] at hY
      rw [hreading', List.cons_append, List.cons_append] at hY'
      rw [hreading, hreading', List.head?_cons, List.head?_cons, ← (List.cons.inj hY).1,
        ← (List.cons.inj hY').1]

/-- What both readings begin with ends behind a beginning of one of them that it is longer than. -/
theorem exists_rest_of_common {A L L' : List ReadEvent} (hL : common <+: A ++ L) (hL' : common <+: L')
    (hlength : A.length ≤ common.length) :
    ∃ rest Y, common = A ++ rest ∧ rest <+: L ∧ L' = A ++ Y ∧ rest <+: Y := by
  obtain ⟨rest, rfl⟩ := List.prefix_of_prefix_length_le (List.prefix_append A L) hL hlength
  obtain ⟨Y, rfl⟩ := hL'
  refine ⟨rest, rest ++ Y, rfl, (List.prefix_append_right_inj A).mp hL, by simp, ?_⟩
  exact List.prefix_append rest Y

theorem exists_table_of_head {span : Toml.Span} {entries : List (Key × Node)}
    (h : (reading (.table span entries)).head? = (reading node').head?) :
    ∃ span' entries', node' = .table span' entries' := by
  cases node' with
  | table span' entries' => exact ⟨span', entries', rfl⟩
  | _ => simp [reading] at h

theorem exists_array_of_head {span : Toml.Span} {items : List Node}
    (h : (reading (.array span items)).head? = (reading node').head?) :
    ∃ span' items', node' = .array span' items' := by
  cases node' with
  | array span' items' => exact ⟨span', items', rfl⟩
  | _ => simp [reading] at h

theorem exists_scalar_of_head {span : Toml.Span} {value : Toml.Scalar}
    (h : (reading (.scalar span value)).head? = (reading node').head?) :
    ∃ span', node' = .scalar span' value := by
  cases node' with
  | scalar span' value' =>
      simp only [reading, List.head?_cons, Option.some.injEq, ReadEvent.scalar.injEq] at h
      exact ⟨span', by rw [h]⟩
  | _ => simp [reading] at h

/-- Values that begin with the same event are of one kind. -/
theorem fits_eq_of_head (h : (reading node).head? = (reading node').head?) (shape : Shape) :
    shape.fits node = shape.fits node' ∧ ValueKind.ofNode node = ValueKind.ofNode node' := by
  cases node with
  | scalar span value =>
      obtain ⟨span', rfl⟩ := exists_scalar_of_head h
      cases shape <;> cases value <;> exact ⟨rfl, rfl⟩
  | array span items =>
      obtain ⟨span', items', rfl⟩ := exists_array_of_head h
      cases shape <;> exact ⟨rfl, rfl⟩
  | table span entries =>
      obtain ⟨span', entries', rfl⟩ := exists_table_of_head h
      cases shape <;> exact ⟨rfl, rfl⟩

/-- What reading has in common with another one up to a key leads to the entry of a key there. -/
theorem exists_entry_of_common {span : Toml.Span} {before after : List (Key × Node)} {key : Key}
    {value : Node}
    (hnode : common <+: reading (.table span (before ++ (key, value) :: after)) ++ X)
    (hnode' : common <+: reading node' ++ X')
    (hlength : 1 + (readingEntries before).length < common.length) :
    ∃ span' before' key' value' after',
      node' = .table span' (before' ++ (key', value') :: after') ∧ key'.name = key.name ∧
      readingEntries before = readingEntries before' ∧
      ∃ rest Y Y', common.length = 1 + (readingEntries before).length + 1 + rest.length ∧
        rest <+: reading value ++ Y ∧ rest <+: reading value' ++ Y' := by
  obtain ⟨span', entries', rfl⟩ :=
    exists_table_of_head (head_eq_of_common hnode hnode' (by omega))
  have hreading : reading (.table span (before ++ (key, value) :: after)) ++ X =
      (.openTable :: (readingEntries before ++ [.key key.name])) ++
        (reading value ++ (readingEntries after ++ .closeTable :: X)) := by
    simp [reading, readingEntries_append, readingEntries]
  rw [hreading] at hnode
  obtain ⟨rest, Y, rfl, hrest, hY, hrest'⟩ :=
    exists_rest_of_common hnode hnode' (by simp; omega)
  simp only [reading, List.cons_append, List.append_assoc, List.nil_append, List.cons.injEq,
    true_and] at hY
  obtain ⟨before', key', value', after', rfl, hname, hbefore, rfl⟩ :=
    exists_entries_of_append_eq hY.symm
  exact ⟨span', before', key', value', after', rfl, hname, hbefore, rest, _, _,
    by simp; omega, hrest, hrest'⟩

theorem exists_item_of_common {span : Toml.Span} {before after : List Node} {value : Node}
    (hnode : common <+: reading (.array span (before ++ value :: after)) ++ X)
    (hnode' : common <+: reading node' ++ X')
    (hlength : 1 + (readingItems before).length < common.length) :
    ∃ span' before' value' after', node' = .array span' (before' ++ value' :: after') ∧
      before.length = before'.length ∧ readingItems before = readingItems before' ∧
      ∃ rest Y Y', common.length = 1 + (readingItems before).length + rest.length ∧
        rest <+: reading value ++ Y ∧ rest <+: reading value' ++ Y' := by
  obtain ⟨span', items', rfl⟩ :=
    exists_array_of_head (head_eq_of_common hnode hnode' (by omega))
  have hreading : reading (.array span (before ++ value :: after)) ++ X =
      (.openArray :: readingItems before) ++
        (reading value ++ (readingItems after ++ .closeArray :: X)) := by
    simp [reading, readingItems_append, readingItems]
  rw [hreading] at hnode
  obtain ⟨rest, Y, rfl, hrest, hY, ⟨Z, rfl⟩⟩ :=
    exists_rest_of_common hnode hnode' (by simp; omega)
  -- What follows the items before it begins as a value does, so it is an item as well.
  obtain ⟨event, rest, rfl⟩ : ∃ event rest', rest = event :: rest' :=
    List.exists_cons_of_ne_nil fun hnil => by
      simp only [hnil, List.append_nil, List.length_cons] at hlength
      omega
  obtain ⟨first, others, hvalue, hopens⟩ := exists_reading_eq_cons value
  have hfirst : event = first := by
    obtain ⟨T, hT⟩ := hrest
    rw [hvalue, List.cons_append, List.cons_append] at hT
    exact (List.cons.inj hT).1
  rw [← hfirst] at hopens
  simp only [reading, List.cons_append, List.append_assoc, List.nil_append, List.cons.injEq,
    true_and] at hY
  obtain ⟨before', value', after', rfl, hcount, hbefore, hZ⟩ :=
    exists_items_of_append_eq hopens hY.symm
  have hrest' : event :: rest <+: reading value' ++ (readingItems after' ++ .closeArray :: X') := by
    rw [← hZ]
    exact List.prefix_append (event :: rest) Z
  exact ⟨span', before', value', after', rfl, hcount, hbefore, event :: rest, _, _,
    by simp; omega, hrest, hrest'⟩

end Common

/-- A violation is one in every reading that is the same up to and including it. -/
theorem Violates.transfer {shape : Shape} {node : Node} {n : ℕ} {e : SchemaError}
    (h : Violates shape node n e) {node' : Node} {common X X' : List ReadEvent}
    (hnode : common <+: reading node ++ X) (hnode' : common <+: reading node' ++ X')
    (hlength : n < common.length) :
    ∃ e', Violates shape node' n e' ∧ e'.violation = e.violation := by
  induction h generalizing node' common X X' with
  | @wrongType shape node h =>
      obtain ⟨hfits, hkind⟩ := fits_eq_of_head (head_eq_of_common hnode hnode' hlength) shape
      exact ⟨_, .wrongType (hfits ▸ h), by rw [hkind]⟩
  | dateTime record span value =>
      obtain ⟨span', rfl⟩ := exists_scalar_of_head (head_eq_of_common hnode hnode' hlength)
      exact ⟨_, .dateTime record span' value, rfl⟩
  | negative span h =>
      obtain ⟨span', rfl⟩ := exists_scalar_of_head (head_eq_of_common hnode hnode' hlength)
      exact ⟨_, .negative span' h, rfl⟩
  | unknownKey record span before value after unknown =>
      obtain ⟨span', before', key', value', after', rfl, hname, hbefore, -⟩ :=
        exists_entry_of_common hnode hnode' hlength
      rw [hbefore]
      exact ⟨_, .unknownKey record span' before' value' after' (hname ▸ unknown), by rw [hname]⟩
  | entry record span before after known h ih =>
      obtain ⟨span', before', key', value', after', rfl, hname, hbefore, rest, Y, Y', hcount,
        hrest, hrest'⟩ := exists_entry_of_common hnode hnode' (by omega)
      obtain ⟨e', h', hsame⟩ := ih hrest hrest' (by omega)
      rw [hbefore]
      exact ⟨e', .entry record span' before' after' (hname ▸ known) h', hsame⟩
  | item span after known h ih =>
      obtain ⟨span', before', value', after', rfl, hindex, hbefore, rest, Y, Y', hcount, hrest,
        hrest'⟩ := exists_item_of_common hnode hnode' (by omega)
      obtain ⟨e', h', hsame⟩ := ih hrest hrest' (by omega)
      rw [hbefore]
      exact ⟨e', .item span' after' (hindex ▸ known) h', hsame⟩

end BlockOutline
