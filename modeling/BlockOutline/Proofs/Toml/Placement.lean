import BlockOutline.Proofs.Toml.Cutting
import BlockOutline.Proofs.Toml.Drafts

/-! # Where keys and values stand

The spans of a document are places of its text: at the span of a key its name is written, at the span
of a value the value. In every table the keys stand one behind the other. -/

namespace BlockOutline.Toml

open Fallible Text

/-! ## Places -/

/-- An offset at which a character begins or the text ends. -/
def Cursor.Boundary (text : Cursor) (offset : ℕ) : Prop :=
  ∃ c, text.Reaches c ∧ c.offset = offset

structure Cursor.Covers (text : Cursor) (span : Span) : Prop where
  start : text.Boundary span.start
  stop : text.Boundary span.stop
  le : span.start ≤ span.stop

/-- A key with its span is what can be read somewhere in a text. -/
def Key.Stands (text : Cursor) (key : Key) : Prop :=
  ∃ c after, text.Reaches c ∧ Reads keyPart c key after

/-- A value with its spans is what can be read somewhere in a text. -/
def Node.Stands (text : Cursor) (node : Node) : Prop :=
  ∃ c after depth, text.Reaches c ∧ depth ≤ depthLimit ∧ Reads (valueWithin depth) c node after

theorem Cursor.Reaches.covers {text c after : Cursor} (h : text.Reaches c) (hafter : c.Reaches after) :
    text.Covers (c.upTo after) :=
  ⟨⟨c, h, rfl⟩, ⟨after, h.trans hafter, rfl⟩, hafter.offset_le⟩

theorem Key.Stands.covers {text : Cursor} {key : Key} (h : key.Stands text) :
    text.Covers key.span := by
  obtain ⟨c, after, hc, hkey⟩ := h
  rw [(reads_keyPart_iff.mp hkey).1]
  exact hc.covers hkey.reaches

theorem span_descend {offset : ℕ} {origin : Origin} {path : List Key}
    {f : Table → Except SyntaxError Table} (hf : ∀ t t', f t = .ok t' → t'.span = t.span)
    {t t' : Table} (h : Table.descend offset origin path f t = .ok t') : t'.span = t.span := by
  cases path with
  | nil => exact hf t t' h
  | cons key path =>
      rw [Table.descend, bind_eq_ok_iff] at h
      obtain ⟨entries, -, h⟩ := h
      cases h
      rfl

theorem span_assign {offset : ℕ} {name : Option (List String)} {path : KeyPath} {node : Node}
    {t t' : Table} (h : t.assign offset name path node = .ok t') : t'.span = t.span := by
  refine span_descend ?_ h
  intro t t' h
  split at h
  · cases h
  · split at h
    · cases h
    · cases h
      rfl

theorem span_inlineTable {as : List Assignment} {span : Span} {node : Node}
    (h : inlineTable as span = .ok node) : node.span = span := by
  obtain ⟨t, ht, rfl⟩ := map_eq_ok_iff.mp h
  refine foldlM_preserves (fun t : Table => t.span = span) ?_ rfl ht
  intro s s' a _ hs hstep
  exact (span_assign hstep).trans hs

/-- The span of a value reaches from where it is read to where the reader stops. -/
theorem span_of_reads_valueWith {inner : Option (Reader Node)} {c after : Cursor} {node : Node}
    (h : Reads (valueWith inner) c node after) : node.span = c.upTo after := by
  obtain ⟨head, -, h⟩ := reads_valueWith_iff.mp h
  rcases h with ⟨-, item, -, nodes, -, rfl⟩ | ⟨-, value, -, h⟩ | ⟨-, -, h⟩
  · rfl
  · rcases h with ⟨-, as, -, htable⟩ | ⟨-, -, rfl⟩
    · exact span_inlineTable htable
    · rfl
  · obtain ⟨scalar, rfl⟩ := exists_scalar_of_reads h
    rfl

theorem exists_valueWith (depth : ℕ) : ∃ inner, valueWithin depth = valueWith inner := by
  cases depth with
  | zero => exact ⟨none, rfl⟩
  | succ depth => exact ⟨some (valueWithin depth), rfl⟩

theorem span_of_reads_valueWithin {depth : ℕ} {c after : Cursor} {node : Node}
    (h : Reads (valueWithin depth) c node after) : node.span = c.upTo after := by
  obtain ⟨inner, hinner⟩ := exists_valueWith depth
  rw [hinner] at h
  exact span_of_reads_valueWith h

theorem Node.Stands.covers {text : Cursor} {node : Node} (h : node.Stands text) :
    text.Covers node.span := by
  obtain ⟨c, after, depth, hc, -, hnode⟩ := h
  rw [span_of_reads_valueWithin hnode]
  exact hc.covers hnode.reaches

/-- Keys that are written in a text one behind the other, and all before an offset. -/
structure KeysInOrder (text : Cursor) (stop : ℕ) (keys : List Key) : Prop where
  stands : ∀ key ∈ keys, key.Stands text
  ascending : keys.Pairwise fun key key' => key.span.stop ≤ key'.span.start
  within : ∀ key ∈ keys, key.span.stop ≤ stop

/-- A key that is written in a text between two offsets. -/
structure Key.Between (text : Cursor) (start stop : ℕ) (key : Key) : Prop where
  stands : key.Stands text
  start_le : start ≤ key.span.start
  le_stop : key.span.stop ≤ stop

namespace KeysInOrder

variable {text : Cursor} {start stop : ℕ} {keys : List Key}

theorem nil : KeysInOrder text stop [] :=
  ⟨by simp, .nil, by simp⟩

theorem mono (h : KeysInOrder text start keys) (hle : start ≤ stop) : KeysInOrder text stop keys :=
  ⟨h.stands, h.ascending, fun key hkey => Nat.le_trans (h.within key hkey) hle⟩

theorem sublist {keys' : List Key} (h : KeysInOrder text stop keys) (hsub : keys'.Sublist keys) :
    KeysInOrder text stop keys' :=
  ⟨fun key hkey => h.stands key (hsub.subset hkey), h.ascending.sublist hsub,
    fun key hkey => h.within key (hsub.subset hkey)⟩

theorem append (h : KeysInOrder text start keys) {key : Key} (hkey : key.Between text start stop) :
    KeysInOrder text stop (keys ++ [key]) := by
  have hle : start ≤ stop :=
    Nat.le_trans (Nat.le_trans hkey.start_le hkey.stands.covers.le) hkey.le_stop
  refine ⟨?_, ?_, ?_⟩
  · intro k hk
    rcases List.mem_append.mp hk with hk | hk
    · exact h.stands k hk
    · rw [List.mem_singleton.mp hk]
      exact hkey.stands
  · refine List.pairwise_append.mpr ⟨h.ascending, List.pairwise_singleton _ _, ?_⟩
    intro k hk k' hk'
    rw [List.mem_singleton.mp hk']
    exact Nat.le_trans (h.within k hk) hkey.start_le
  · intro k hk
    rcases List.mem_append.mp hk with hk | hk
    · exact Nat.le_trans (h.within k hk) hle
    · rw [List.mem_singleton.mp hk]
      exact hkey.le_stop

end KeysInOrder

/-! ## Values and drafts -/

/-- A value whose spans are places of a text. It is literal if it belongs to the value of a key; then
all of it is written out, but for the tables that come from dotted keys. -/
inductive Node.Placed (text : Cursor) : (literal : Bool) → Node → Prop where
  | scalar {literal span value} (h : (Node.scalar span value).Stands text) :
      Placed text literal (.scalar span value)
  | array {literal span items} (h : (Node.array span items).Stands text)
      (hitems : ∀ item ∈ items, Placed text true item) : Placed text literal (.array span items)
  | tables {span items} (h : text.Covers span) (hitems : ∀ item ∈ items, Placed text false item) :
      Placed text false (.array span items)
  | table {literal span entries} (h : text.Covers span)
      (hliteral : literal = true →
        (Node.table span entries).Stands text ∨ ∃ key : Key, key.Stands text ∧ key.span = span)
      (hkeys : ∃ stop, KeysInOrder text stop (entries.map (·.1)))
      (hentries : ∀ entry ∈ entries, Placed text literal entry.2) :
      Placed text literal (.table span entries)

/-- The same of what is still under construction, with all of it before an offset. -/
inductive Draft.Placed (text : Cursor) (literal : Bool) (stop : ℕ) : Draft → Prop where
  | value {node} (h : node.Placed text true) : Placed text literal stop (.value node)
  | table (origin) {span entries} (h : text.Covers span)
      (hliteral : literal = true → ∃ key : Key, key.Stands text ∧ key.span = span)
      (hkeys : KeysInOrder text stop (entries.map (·.1)))
      (hentries : ∀ entry ∈ entries, Placed text literal stop entry.2) :
      Placed text literal stop (.table origin span entries)
  | tables {finished span entries} (hdocument : literal = false) (h : text.Covers span)
      (hstart : span.start ≤ stop)
      (hfinished : ∀ node ∈ finished, node.Placed text false ∧ node.span.start ≤ span.start)
      (hkeys : KeysInOrder text stop (entries.map (·.1)))
      (hentries : ∀ entry ∈ entries, Placed text literal stop entry.2) :
      Placed text literal stop (.tables finished span entries)

/-- Entries of a table under construction, there and further down. -/
structure EntriesPlaced (text : Cursor) (literal : Bool) (stop : ℕ) (entries : List (Key × Draft)) :
    Prop where
  keys : KeysInOrder text stop (entries.map (·.1))
  below : ∀ entry ∈ entries, entry.2.Placed text literal stop

section Drafts

variable {text : Cursor} {literal : Bool} {start stop : ℕ}

theorem Node.Placed.of_literal {node : Node} (h : node.Placed text true) :
    node.Placed text literal := by
  cases literal with
  | true => exact h
  | false =>
      generalize hliteral : true = flag at h
      induction h with
      | scalar h => exact .scalar h
      | array h hitems => exact .array h hitems
      | tables => cases hliteral
      | table h _ hkeys _ ih =>
          exact .table h (fun hfalse => by cases hfalse) hkeys fun entry he => ih entry he hliteral

theorem Node.Placed.covers {node : Node} (h : node.Placed text literal) : text.Covers node.span := by
  cases h with
  | scalar h => exact h.covers
  | array h => exact h.covers
  | tables h => exact h
  | table h => exact h

theorem Draft.Placed.mono {draft : Draft} (h : draft.Placed text literal start)
    (hle : start ≤ stop) : draft.Placed text literal stop := by
  induction h with
  | value h => exact .value h
  | table origin h hliteral hkeys _ ih => exact .table origin h hliteral (hkeys.mono hle) ih
  | tables hdocument h hstart hfinished hkeys _ ih =>
      exact .tables hdocument h (Nat.le_trans hstart hle) hfinished (hkeys.mono hle) ih

theorem placed_closeEntries {span : Span} {entries : List (Key × Draft)} (h : text.Covers span)
    (hliteral : literal = true → (Node.table span (closeEntries entries)).Stands text ∨
      ∃ key : Key, key.Stands text ∧ key.span = span) (hkeys : KeysInOrder text stop (entries.map (·.1)))
    (hentries : ∀ entry ∈ entries, entry.2.close.Placed text literal) :
    (Node.table span (closeEntries entries)).Placed text literal := by
  refine .table h hliteral ⟨stop, ?_⟩ ?_
  · rwa [closeEntries_eq_map, List.map_map]
  · intro entry he
    rw [closeEntries_eq_map] at he
    obtain ⟨e, hmem, rfl⟩ := List.mem_map.mp he
    exact hentries e hmem

theorem Draft.Placed.close {draft : Draft} (h : draft.Placed text literal stop) :
    draft.close.Placed text literal := by
  induction h with
  | value h => exact h.of_literal
  | table origin h hliteral hkeys _ ih =>
      rw [Draft.close]
      exact placed_closeEntries h (fun hl => .inr (hliteral hl)) hkeys ih
  | @tables finished span entries hdocument h hstart hfinished hkeys _ ih =>
      subst hdocument
      rw [Draft.close]
      have hlast : (Node.table span (closeEntries entries)).Placed text false :=
        placed_closeEntries h (fun hfalse => by cases hfalse) hkeys ih
      refine .tables ?_ ?_
      · cases finished with
        | nil => exact h
        | cons first rest =>
            obtain ⟨hfirst, hle⟩ := hfinished first List.mem_cons_self
            exact ⟨hfirst.covers.start, h.stop, Nat.le_trans hle h.le⟩
      · intro item hi
        rcases List.mem_append.mp hi with hi | hi
        · exact (hfinished item hi).1
        · rwa [List.mem_singleton.mp hi]

namespace EntriesPlaced

theorem nil : EntriesPlaced text literal stop [] :=
  ⟨.nil, by simp⟩

theorem mono {entries : List (Key × Draft)} (h : EntriesPlaced text literal start entries)
    (hle : start ≤ stop) : EntriesPlaced text literal stop entries :=
  ⟨h.keys.mono hle, fun entry he => (h.below entry he).mono hle⟩

end EntriesPlaced

theorem Key.Between.le {key : Key} (h : key.Between text start stop) : start ≤ stop :=
  Nat.le_trans (Nat.le_trans h.start_le h.stands.covers.le) h.le_stop

/-! ## Changing tables -/

namespace Table

theorem find?_placed {t : Table} (ht : EntriesPlaced text literal stop t.entries) {name : String}
    {draft : Draft} (h : t.find? name = some draft) : draft.Placed text literal stop := by
  obtain ⟨entry, he, rfl⟩ := Option.map_eq_some_iff.mp h
  exact ht.below entry (List.mem_of_find?_eq_some he)

theorem put_placed {t : Table} (ht : EntriesPlaced text literal start t.entries) {key : Key}
    (hkey : key.Between text start stop) {draft : Draft} (hd : draft.Placed text literal stop) :
    EntriesPlaced text literal stop (t.put key draft).entries := by
  have hkept : (t.entries.filter (·.1.name ≠ key.name)).Sublist t.entries := List.filter_sublist
  refine ⟨?_, ?_⟩
  · simp only [put, List.map_append, List.map_cons, List.map_nil]
    exact (ht.keys.sublist (hkept.map _)).append hkey
  · intro entry he
    rcases List.mem_append.mp he with he | he
    · exact (ht.below entry (hkept.subset he)).mono hkey.le
    · rw [List.mem_singleton.mp he]
      exact hd

theorem change_placed {key : Key} (hkey : key.Between text start stop)
    {f : Option Draft → Except SyntaxError Draft} {entries changed : List (Key × Draft)}
    (he : EntriesPlaced text literal start entries)
    (hf : ∀ before after, (∀ draft ∈ before, draft.Placed text literal start) →
      f before = .ok after → after.Placed text literal stop)
    (h : change key f entries = .ok changed) : EntriesPlaced text literal stop changed := by
  refine ⟨?_, below_change (fun _ _ hd => Draft.Placed.mono hd hkey.le) he.below
    (fun after => hf none after (by simp))
    (fun _ before after hbefore => hf (some before) after (by simpa using hbefore)) h⟩
  rcases keys_change h with hsame | ⟨-, hadded⟩
  · rw [hsame]
    exact he.keys.mono hkey.le
  · rw [hadded]
    exact he.keys.append hkey

/-- If a change keeps all in place in a table, it does so at the end of every path. -/
theorem descend_placed {offset : ℕ} {origin : Origin} {path : List Key} (hle : start ≤ stop)
    (hpath : ∀ key ∈ path, key.Between text start stop) {f : Table → Except SyntaxError Table}
    (hf : ∀ t t', EntriesPlaced text literal start t.entries → f t = .ok t' →
      EntriesPlaced text literal stop t'.entries ∧ t'.span = t.span)
    {t t' : Table} (ht : EntriesPlaced text literal start t.entries)
    (h : descend offset origin path f t = .ok t') :
    EntriesPlaced text literal stop t'.entries ∧ t'.span = t.span := by
  induction path generalizing t t' with
  | nil => exact hf t t' ht h
  | cons key path ih =>
      have ih {t t' : Table} := @ih (fun k hk => hpath k (List.mem_cons_of_mem key hk)) t t'
      have hkey := hpath key List.mem_cons_self
      obtain ⟨entries, hentries, rfl⟩ := descend_cons_eq_ok_iff.mp h
      refine ⟨change_placed hkey ht ?_ hentries, rfl⟩
      intro before after hbefore hafter
      cases enterAt_eq_ok_iff.mp hafter with
      | new hentered =>
          obtain ⟨hplaced, hspan⟩ := ih .nil hentered
          refine .table _ ?_ ?_ hplaced.keys hplaced.below
          · rw [hspan]
            exact hkey.stands.covers
          · rw [hspan]
            exact fun _ => ⟨key, hkey.stands, rfl⟩
      | table _ hentered =>
          cases hbefore _ rfl with
          | table _ hcovers hliteral hkeys hbelow =>
              obtain ⟨hplaced, hspan⟩ := ih ⟨hkeys, hbelow⟩ hentered
              exact .table _ (hspan ▸ hcovers) (hspan ▸ hliteral) hplaced.keys hplaced.below
      | tables hentered =>
          cases hbefore _ rfl with
          | tables hdocument hcovers hstart hfinished hkeys hbelow =>
              obtain ⟨hplaced, hspan⟩ := ih ⟨hkeys, hbelow⟩ hentered
              refine .tables hdocument (hspan ▸ hcovers) ?_ (hspan ▸ hfinished) hplaced.keys
                hplaced.below
              rw [hspan]
              exact Nat.le_trans hstart hle

end Table

end Drafts

/-! ## Values that are read -/

/-- Things that are written in a text one behind the other, each between two offsets. -/
inductive Chain {α : Type} (Step : ℕ → α → ℕ → Prop) : ℕ → List α → ℕ → Prop where
  | nil {start stop} (h : start ≤ stop) : Chain Step start [] stop
  | cons {start first last stop x xs} (h : start ≤ first) (hx : Step first x last)
      (hxs : Chain Step last xs stop) : Chain Step start (x :: xs) stop

theorem Chain.of_le {α : Type} {Step : ℕ → α → ℕ → Prop} {start start' stop : ℕ} {xs : List α}
    (h : Chain Step start xs stop) (hle : start' ≤ start) : Chain Step start' xs stop := by
  cases h with
  | nil h => exact .nil (Nat.le_trans hle h)
  | cons h hx hxs => exact .cons (Nat.le_trans hle h) hx hxs

/-- What holds up to some offset when all before it has been taken in holds up to the end. -/
theorem Chain.foldlM {α σ ε : Type} {Step : ℕ → α → ℕ → Prop} (Good : ℕ → σ → Prop)
    {step : σ → α → Except ε σ}
    (hmono : ∀ start stop s, start ≤ stop → Good start s → Good stop s)
    (hstep : ∀ start x stop s s', Step start x stop → Good start s → step s x = .ok s' →
      Good stop s') {start stop : ℕ} {xs : List α} (hchain : Chain Step start xs stop) {s s' : σ}
    (hs : Good start s) (h : xs.foldlM step s = .ok s') : Good stop s' := by
  induction hchain generalizing s with
  | nil hle =>
      cases h
      exact hmono _ _ _ hle hs
  | cons hle hx _ ih =>
      rw [List.foldlM_cons, bind_eq_ok_iff] at h
      obtain ⟨next, hnext, h⟩ := h
      exact ih (hstep _ _ _ s next hx (hmono _ _ s hle hs) hnext) h

/-- A key and its value that are written in a text between two offsets. -/
structure Assignment.Between (text : Cursor) (start : ℕ) (a : Assignment) (stop : ℕ) : Prop where
  keys : ∀ key ∈ a.path.keys, key.Between text start stop
  node : a.node.Placed text true
  start_le : start ≤ a.node.span.stop
  le_stop : a.node.span.stop ≤ stop

section Values

variable {text : Cursor}

theorem Table.assign_placed {literal : Bool} {start stop : ℕ} {a : Assignment}
    (ha : a.Between text start stop) {offset : ℕ} {name : Option (List String)} {t t' : Table}
    (ht : EntriesPlaced text literal start t.entries)
    (h : t.assign offset name a.path a.node = .ok t') :
    EntriesPlaced text literal stop t'.entries ∧ t'.span = t.span := by
  have hle : start ≤ stop := Nat.le_trans ha.start_le ha.le_stop
  have hparents (key) (hkey : key ∈ a.path.parents) : key.Between text start stop :=
    ha.keys key (List.mem_append_left _ hkey)
  have hlast : a.path.last.Between text start stop :=
    ha.keys a.path.last (List.mem_append_right _ List.mem_cons_self)
  refine descend_placed hle hparents ?_ ht h
  intro t t' ht h
  obtain ⟨-, -, rfl⟩ := assignLast_eq_ok_iff.mp h
  exact ⟨put_placed ht hlast (.value ha.node), rfl⟩

theorem Key.Between.mono {start start' stop stop' : ℕ} {key : Key} (h : key.Between text start stop)
    (hstart : start' ≤ start) (hstop : stop ≤ stop') : key.Between text start' stop' :=
  ⟨h.stands, Nat.le_trans hstart h.start_le, Nat.le_trans h.le_stop hstop⟩

theorem between_of_reads_keyPart {c after : Cursor} {key : Key} (hc : text.Reaches c)
    (h : Reads keyPart c key after) : key.Between text c.offset after.offset := by
  have hspan := (reads_keyPart_iff.mp h).1
  refine ⟨⟨c, after, hc, h⟩, ?_, ?_⟩
  · rw [hspan]
    exact Nat.le_refl _
  · rw [hspan]
    exact Nat.le_refl _

theorem between_of_reads_keyParts {c after : Cursor} {path : KeyPath} (hc : text.Reaches c)
    (h : Reads keyParts c path after) :
    ∀ key ∈ path.keys, key.Between text c.offset after.offset := by
  induction h using keyParts_induction with
  | last c part stop hpart _ hafter _ =>
      intro key hkey
      rw [List.mem_singleton.mp hkey, ← hafter]
      have hblanks := (stop.reaches_skipWhile isBlank).offset_le
      exact (between_of_reads_keyPart hc hpart).mono (Nat.le_refl _) hblanks
  | more c part stop path hpart _ hpath ih _ =>
      have hnext := ((stop.reaches_skipWhile isBlank).skip 1).skipWhile isBlank
      have hreaches := hpart.reaches.trans hnext
      intro key hkey
      rcases List.mem_cons.mp hkey with rfl | hkey
      · exact (between_of_reads_keyPart hc hpart).mono (Nat.le_refl _)
          (hnext.trans hpath.reaches).offset_le
      · exact (ih (hc.trans hreaches) key hkey).mono hreaches.offset_le (Nat.le_refl _)

/-- A reader that finds nothing but values that stand in the text as they should. -/
def FindsPlaced (text : Cursor) (r : Reader Node) : Prop :=
  ∀ c node after, text.Reaches c → Reads r c node after →
    node.Placed text true ∧ node.span = c.upTo after

theorem between_of_reads_assignment {value : Reader Node} (hvalue : FindsPlaced text value)
    {c after : Cursor} {a : Assignment} (hc : text.Reaches c) (h : Reads (assignment value) c a after) :
    a.Between text c.offset after.offset := by
  obtain ⟨-, stop, hpath, -, stop', hnode, rfl⟩ := reads_assignment_iff.mp h
  have hstart := (stop.reaches_skip 1).skipWhile isBlank
  have hblanks := stop'.reaches_skipWhile isBlank
  have hreaches := hpath.reaches.trans hstart
  obtain ⟨hplaced, hspan⟩ := hvalue _ a.node stop' (hc.trans hreaches) hnode
  refine ⟨?_, hplaced, ?_, ?_⟩
  · intro key hkey
    have hbetween := between_of_reads_keyParts hc (reads_keyPath_iff.mp hpath).1 key hkey
    exact hbetween.mono (Nat.le_refl _) ((hstart.trans hnode.reaches).trans hblanks).offset_le
  · rw [hspan]
    exact (hreaches.trans hnode.reaches).offset_le
  · rw [hspan]
    exact hblanks.offset_le

theorem chain_of_reads_inlineEntries {value : Reader Node} (hvalue : FindsPlaced text value)
    {c after : Cursor} {as : List Assignment} (hc : text.Reaches c)
    (h : Reads (inlineEntries value) c as after) :
    Chain (Assignment.Between text) c.offset as after.offset := by
  induction h using inlineEntries_induction with
  | last c a stop ha _ hafter _ =>
      rw [← hafter]
      exact .cons (Nat.le_refl _) (between_of_reads_assignment hvalue hc ha)
        (.nil (stop.reaches_skip 1).offset_le)
  | more c a stop as ha _ _ has ih _ =>
      have hnext := (stop.reaches_skip 1).skipWhile isBlank
      have hrest := ih (hc.trans (ha.reaches.trans hnext))
      exact .cons (Nat.le_refl _) (between_of_reads_assignment hvalue hc ha)
        (hrest.of_le hnext.offset_le)

theorem placed_of_mem_reads_arrayItems {item : Reader Node} (hitem : FindsPlaced text item)
    {c after : Cursor} {nodes : List Node} (hc : text.Reaches c)
    (h : Reads (arrayItems item) c nodes after) : ∀ node ∈ nodes, node.Placed text true := by
  induction h using arrayItems_induction with
  | nil => simp
  | last c node stop _ hnode _ _ _ =>
      intro n hn
      rw [List.mem_singleton.mp hn]
      exact (hitem _ node stop (hc.trans (skipGap c).2) hnode).1
  | more c node stop nodes _ hnode _ hnodes ih _ =>
      have hfirst := hc.trans (skipGap c).2
      intro n hn
      rcases List.mem_cons.mp hn with rfl | hn
      · exact (hitem _ _ stop hfirst hnode).1
      · exact ih (((hfirst.trans hnode.reaches).trans (skipGap stop).2).skip 1) n hn

theorem placed_inlineTable {start stop : ℕ} {as : List Assignment}
    (has : Chain (Assignment.Between text) start as stop) {span : Span} {node : Node}
    (h : inlineTable as span = .ok node) (hstands : node.Stands text) : node.Placed text true := by
  obtain ⟨t, ht, rfl⟩ := map_eq_ok_iff.mp h
  have hplaced : EntriesPlaced text true stop t.entries := by
    refine Chain.foldlM (fun stop (t : Table) => EntriesPlaced text true stop t.entries) ?_ ?_ has
      .nil ht
    · intro start stop t hle ht
      exact ht.mono hle
    · intro start a stop t t' ha ht h
      exact (Table.assign_placed ha ht h).1
  exact placed_closeEntries hstands.covers (fun _ => .inl hstands) hplaced.keys
    fun entry he => (hplaced.below entry he).close

theorem placed_of_reads_valueWith {inner : Option (Reader Node)}
    (hinner : ∀ r ∈ inner, FindsPlaced text r) {c after : Cursor} {node : Node}
    (hc : text.Reaches c) (h : Reads (valueWith inner) c node after) (hstands : node.Stands text) :
    node.Placed text true := by
  obtain ⟨head, -, h⟩ := reads_valueWith_iff.mp h
  rcases h with ⟨-, item, hitem, nodes, hnodes, rfl⟩ | ⟨-, value, hvalue, h⟩ | ⟨-, -, h⟩
  · exact .array hstands
      (placed_of_mem_reads_arrayItems (hinner item hitem) (hc.trans (c.reaches_skip 1)) hnodes)
  · rcases h with ⟨-, as, has, htable⟩ | ⟨-, -, rfl⟩
    · exact placed_inlineTable (chain_of_reads_inlineEntries (hinner value hvalue)
        (hc.trans ((c.reaches_skip 1).skipWhile isBlank)) has) htable hstands
    · exact .table hstands.covers (fun _ => .inl hstands) ⟨0, .nil⟩ (by simp)
  · obtain ⟨scalar, rfl⟩ := exists_scalar_of_reads h
    exact .scalar hstands

/-- Every value stands where it was read, and so do its parts. -/
theorem findsPlaced_valueWithin {depth : ℕ} (hdepth : depth ≤ depthLimit) :
    FindsPlaced text (valueWithin depth) := by
  induction depth with
  | zero =>
      intro c node after hc h
      refine ⟨placed_of_reads_valueWith (by simp) hc h ⟨c, after, 0, hc, hdepth, h⟩, ?_⟩
      exact span_of_reads_valueWithin h
  | succ depth ih =>
      intro c node after hc h
      have hinner : ∀ r ∈ some (valueWithin depth), FindsPlaced text r := by
        simpa using ih (Nat.le_of_succ_le hdepth)
      refine ⟨placed_of_reads_valueWith hinner hc h ⟨c, after, depth + 1, hc, hdepth, h⟩, ?_⟩
      exact span_of_reads_valueWithin h

end Values

end BlockOutline.Toml
