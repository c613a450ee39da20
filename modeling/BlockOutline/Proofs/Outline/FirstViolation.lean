import Mathlib.Algebra.Ring.Nat
import BlockOutline.Proofs.Outline.Loading
import BlockOutline.Proofs.Outline.Violations

/-! # The first violation

Reading stops at the first violation of a document, and what it reports depends on nothing behind
that. -/

namespace BlockOutline

open Toml (Node Key)

/-! ## Reporting -/

/-- The violation of the least place; there is no other one at that place. -/
structure First (V : ℕ → SchemaError → Prop) (n : ℕ) (e : SchemaError) : Prop where
  violates : V n e
  le : ∀ n' e', V n' e' → n ≤ n'
  only : ∀ e', V n e' → e' = e

/-- A computation that fails with the first violation, and succeeds where there is none. -/
def Reports {α : Type} (V : ℕ → SchemaError → Prop) : Except SchemaError α → Prop
  | .ok _ => ∀ n e, ¬ V n e
  | .error e => ∃ n, First V n e

/-- Violations in a list, one element after the other: `size` is how many events an element has, and
`V` knows at which index it stands. -/
def Along {α : Type} (size : α → ℕ) (V : ℕ → α → ℕ → SchemaError → Prop) (xs : List α) (n : ℕ)
    (e : SchemaError) : Prop :=
  ∃ before x after m, xs = before ++ x :: after ∧ V before.length x m e ∧
    n = (before.map size).sum + m

section Reporting

variable {α β : Type} {V W : ℕ → SchemaError → Prop} {x : Except SchemaError α}

theorem First.unique {n n' : ℕ} {e e' : SchemaError} (h : First V n e) (h' : First V n' e') :
    n = n' ∧ e = e' := by
  have hplace : n = n' := Nat.le_antisymm (h.le n' e' h'.violates) (h'.le n e h.violates)
  subst hplace
  exact ⟨rfl, h'.only e h.violates⟩

theorem Reports.congr (h : Reports V x) (hiff : ∀ n e, V n e ↔ W n e) : Reports W x := by
  have hsame : V = W := by
    funext n e
    exact propext (hiff n e)
  rwa [← hsame]

theorem reports_error (n : ℕ) {e : SchemaError} (h : ∀ n' e', V n' e' ↔ n' = n ∧ e' = e) :
    Reports V (.error e : Except SchemaError α) := by
  refine ⟨n, (h n e).mpr ⟨rfl, rfl⟩, ?_, ?_⟩
  · intro n' e' hv
    exact Nat.le_of_eq ((h n' e').mp hv).1.symm
  · intro e' hv
    exact ((h n e').mp hv).2

theorem Reports.eq_error_iff (h : Reports V x) {e : SchemaError} :
    x = .error e ↔ ∃ n, First V n e := by
  cases x with
  | ok a =>
      constructor
      · rintro ⟨⟩
      · rintro ⟨n, hfirst⟩
        exact absurd hfirst.violates (h n e)
  | error e' =>
      obtain ⟨n', hfirst'⟩ := h
      constructor
      · rintro ⟨⟩
        exact ⟨n', hfirst'⟩
      · rintro ⟨n, hfirst⟩
        rw [(hfirst'.unique hfirst).2]

/-- The same violations, so many events further back. -/
theorem Reports.shift (h : Reports V x) (size : ℕ) :
    Reports (fun n e => ∃ m, n = size + m ∧ V m e) x := by
  cases x with
  | ok a =>
      rintro _ e ⟨m, -, hv⟩
      exact h m e hv
  | error e =>
      obtain ⟨n, hviolates, hle, honly⟩ := h
      refine ⟨size + n, ⟨n, rfl, hviolates⟩, ?_, ?_⟩
      · rintro _ e' ⟨m, rfl, hv⟩
        exact Nat.add_le_add_left (hle m e' hv) size
      · rintro e' ⟨m, hm, hv⟩
        rw [← Nat.add_left_cancel hm] at hv
        exact honly e' hv

/-- What cannot fail adds no violations. -/
theorem Reports.map (h : Reports V x) (f : α → β) : Reports V (x >>= fun a => pure (f a)) := by
  cases x with
  | ok a => exact h
  | error e => exact h

/-- One computation after the other, with all places of the second behind those of the first. -/
theorem Reports.bind {f : α → Except SchemaError β} {size : ℕ} (h : Reports V x)
    (hf : ∀ a, x = .ok a → Reports W (f a)) (hsize : ∀ n e, V n e → n < size) :
    Reports (fun n e => V n e ∨ ∃ m, n = size + m ∧ W m e) (x >>= f) := by
  cases x with
  | error e =>
      obtain ⟨n, hviolates, hle, honly⟩ := h
      have hn := hsize n e hviolates
      refine ⟨n, .inl hviolates, ?_, ?_⟩
      · rintro n' e' (hv | ⟨m, rfl, -⟩)
        · exact hle n' e' hv
        · omega
      · rintro e' (hv | ⟨m, rfl, -⟩)
        · exact honly e' hv
        · omega
  | ok a =>
      have hnone : ∀ n e, ¬ V n e := h
      have hrest := hf a rfl
      change Reports _ (f a)
      cases hfa : f a with
      | ok b =>
          rw [hfa] at hrest
          rintro n e (hv | ⟨m, -, hw⟩)
          · exact hnone n e hv
          · exact hrest m e hw
      | error e =>
          rw [hfa] at hrest
          obtain ⟨m, hviolates, hle, honly⟩ := hrest
          refine ⟨size + m, .inr ⟨m, rfl, hviolates⟩, ?_, ?_⟩
          · rintro n' e' (hv | ⟨m', rfl, hw⟩)
            · exact absurd hv (hnone n' e')
            · exact Nat.add_le_add_left (hle m' e' hw) size
          · rintro e' (hv | ⟨m', hm, hw⟩)
            · exact absurd hv (hnone _ e')
            · rw [← Nat.add_left_cancel hm] at hw
              exact honly e' hw

end Reporting

section Along

variable {α β σ : Type} (size : α → ℕ) (V : ℕ → α → ℕ → SchemaError → Prop)

theorem not_along_nil (n : ℕ) (e : SchemaError) : ¬ Along size V [] n e := by
  rintro ⟨before, x, after, m, h, -⟩
  simp at h

theorem along_cons_iff {x : α} {xs : List α} {n : ℕ} {e : SchemaError} :
    Along size V (x :: xs) n e ↔
      V 0 x n e ∨ ∃ m, n = size x + m ∧ Along size (fun i => V (i + 1)) xs m e := by
  constructor
  · rintro ⟨before, y, after, m, h, hv, rfl⟩
    cases before with
    | nil =>
        obtain ⟨rfl, rfl⟩ := List.cons.inj h
        exact .inl (by simpa using hv)
    | cons z before =>
        obtain ⟨rfl, rfl⟩ := List.cons.inj h
        refine .inr ⟨(before.map size).sum + m, ?_, before, y, after, m, rfl, hv, rfl⟩
        simp only [List.map_cons, List.sum_cons]
        omega
  · rintro (hv | ⟨_, rfl, before, y, after, m, rfl, hv, rfl⟩)
    · exact ⟨[], x, xs, n, rfl, hv, by simp⟩
    · refine ⟨x :: before, y, after, m, rfl, hv, ?_⟩
      simp only [List.map_cons, List.sum_cons]
      omega

theorem Along.lt_sum {xs : List α} {n : ℕ} {e : SchemaError} (h : Along size V xs n e)
    (hsize : ∀ i, ∀ x ∈ xs, ∀ n e, V i x n e → n < size x) : n < (xs.map size).sum := by
  obtain ⟨before, x, after, m, rfl, hv, rfl⟩ := h
  have hm := hsize _ x (by simp) m e hv
  simp only [List.map_append, List.map_cons, List.sum_append, List.sum_cons]
  omega

/-- A run reports the first violation along its list if every step reports that of its element. -/
theorem reports_foldlM {step : σ → α → Except SchemaError σ} {xs : List α}
    (hstep : ∀ s i, ∀ x ∈ xs, Reports (V i x) (step s x))
    (hsize : ∀ i, ∀ x ∈ xs, ∀ n e, V i x n e → n < size x) (s : σ) :
    Reports (Along size V xs) (xs.foldlM step s) := by
  induction xs generalizing s V with
  | nil => exact not_along_nil size V
  | cons x xs ih =>
      rw [List.foldlM_cons]
      have hrest (s) : Reports (Along size (fun i => V (i + 1)) xs) (xs.foldlM step s) :=
        ih _ (fun s i y hy => hstep s (i + 1) y (List.mem_cons_of_mem x hy))
          (fun i y hy => hsize (i + 1) y (List.mem_cons_of_mem x hy)) s
      have hboth := (hstep s 0 x List.mem_cons_self).bind (fun s _ => hrest s) (hsize 0 x List.mem_cons_self)
      exact hboth.congr fun n e => (along_cons_iff size V).symm

theorem reports_mapM {f : α → Except SchemaError β} {xs : List α}
    (hstep : ∀ i, ∀ x ∈ xs, Reports (V i x) (f x))
    (hsize : ∀ i, ∀ x ∈ xs, ∀ n e, V i x n e → n < size x) :
    Reports (Along size V xs) (xs.mapM f) := by
  induction xs generalizing V with
  | nil => exact not_along_nil size V
  | cons x xs ih =>
      rw [List.mapM_cons]
      have hrest : Reports (Along size (fun i => V (i + 1)) xs) (xs.mapM f) :=
        ih _ (fun i y hy => hstep (i + 1) y (List.mem_cons_of_mem x hy))
          (fun i y hy => hsize (i + 1) y (List.mem_cons_of_mem x hy))
      have hboth := (hstep 0 x List.mem_cons_self).bind (fun y _ => hrest.map (y :: ·))
        (hsize 0 x List.mem_cons_self)
      exact hboth.congr fun n e => (along_cons_iff size V).symm

end Along

/-! ## Violations within arrays and tables -/

theorem sum_map_readingItems (items : List Node) :
    (items.map fun item => (reading item).length).sum = (readingItems items).length := by
  induction items with
  | nil => rfl
  | cons item items ih => simp [readingItems, ih]

theorem sum_map_readingEntries (entries : List (Key × Node)) :
    (entries.map fun entry => 1 + (reading entry.2).length).sum =
      (readingEntries entries).length := by
  induction entries with
  | nil => rfl
  | cons entry entries ih =>
      simp [readingEntries, ih]
      omega

/-- Violations of an entry: at its key, or behind it. -/
def EntryViolates (shape : Shape) (r : Record) (entry : Key × Node) (n : ℕ) (e : SchemaError) :
    Prop :=
  (shape.field? entry.1.name = none ∧ n = 0 ∧
      e = ⟨.unknownField entry.1.name r.fields, entry.1.span⟩) ∨
    ∃ field m, shape.field? entry.1.name = some field ∧ n = 1 + m ∧ Violates field entry.2 m e

def ItemViolates (shape : Shape) (index : ℕ) (item : Node) (n : ℕ) (e : SchemaError) : Prop :=
  ∃ part, shape.item? index = some part ∧ Violates part item n e

section Parts

variable {shape : Shape} {r : Record} {n : ℕ} {e : SchemaError}

theorem violates_table_iff (record : shape.record? = some r) (span : Toml.Span)
    (entries : List (Key × Node)) :
    Violates shape (.table span entries) n e ↔ ∃ m, n = 1 + m ∧
      Along (fun entry => 1 + (reading entry.2).length) (fun _ => EntryViolates shape r) entries m
        e := by
  constructor
  · intro h
    cases h with
    | wrongType h => cases shape <;> simp [Shape.fits, Shape.record?] at h record
    | @unknownKey _ r' record' _ before key value after unknown =>
        cases record.symm.trans record'
        exact ⟨_, rfl, before, (key, value), after, 0, rfl, .inl ⟨unknown, rfl, rfl⟩,
          by rw [sum_map_readingEntries, Nat.add_zero]⟩
    | @entry _ r' record' _ before key value after field m _ known hv =>
        refine ⟨(readingEntries before).length + (1 + m), by omega, before, (key, value), after,
          1 + m, rfl, .inr ⟨field, m, known, rfl, hv⟩, ?_⟩
        rw [sum_map_readingEntries]
  · rintro ⟨_, rfl, before, ⟨key, value⟩, after, m, rfl, hv, rfl⟩
    rw [sum_map_readingEntries]
    rcases hv with ⟨unknown, rfl, rfl⟩ | ⟨field, m, known, rfl, hv⟩
    · exact .unknownKey record span before value after unknown
    · rw [← Nat.add_assoc]
      exact .entry record span before after known hv

theorem violates_array_iff (fits : ∀ span items, shape.fits (.array span items) = true)
    (span : Toml.Span) (items : List Node) :
    Violates shape (.array span items) n e ↔ ∃ m, n = 1 + m ∧
      Along (fun item => (reading item).length) (ItemViolates shape) items m e := by
  constructor
  · intro h
    cases h with
    | wrongType h => simp [fits] at h
    | @item _ _ before value after part m _ known hv =>
        refine ⟨(readingItems before).length + m, by omega, before, value, after, m, rfl,
          ⟨part, known, hv⟩, ?_⟩
        rw [sum_map_readingItems]
  · rintro ⟨_, rfl, before, value, after, m, rfl, ⟨part, known, hv⟩, rfl⟩
    rw [sum_map_readingItems, ← Nat.add_assoc]
    exact .item span after known hv

end Parts

/-! ## Strings, numbers and lists -/

/-- A reader of the values of a shape, which reports what is wrong with them. -/
def ReportsOf {α : Type} (shape : Shape) (read : Node → Except SchemaError α) (node : Node) : Prop :=
  Reports (Violates shape node) (read node)

theorem violates_iff_of_not_fits {shape : Shape} {node : Node} (h : shape.fits node = false)
    (n : ℕ) (e : SchemaError) :
    Violates shape node n e ↔ n = 0 ∧ e = ⟨.wrongType (.ofNode node) shape.wanted, node.span⟩ := by
  constructor
  · intro hv
    cases hv with
    | wrongType => exact ⟨rfl, rfl⟩
    | dateTime record => simp [Shape.fits, record] at h
    | negative => simp [Shape.fits] at h
    | unknownKey record => cases shape <;> simp [Shape.fits, Shape.record?] at h record
    | entry record => cases shape <;> simp [Shape.fits, Shape.record?] at h record
    | item span after known =>
        cases shape <;> simp [Shape.fits, Shape.item?, Shape.record?] at h known
  · rintro ⟨rfl, rfl⟩
    exact .wrongType h

theorem reports_wrongType {α : Type} {shape : Shape} {node : Node} (h : shape.fits node = false) :
    Reports (Violates shape node) (wrongType node shape.wanted : Except SchemaError α) :=
  reports_error 0 (violates_iff_of_not_fits h)

theorem reportsOf_readString (node : Node) : ReportsOf .string readString node := by
  unfold ReportsOf readString
  split
  · intro n e h
    cases h with
    | wrongType h => simp [Shape.fits] at h
  · next hstring =>
    refine reports_wrongType ?_
    unfold Shape.fits
    split <;> simp_all [Shape.record?]

theorem reportsOf_readNatural (node : Node) : ReportsOf .natural readNatural node := by
  unfold ReportsOf readNatural
  split
  · next span value =>
    split
    · next hnegative =>
      refine reports_error 0 ?_
      intro n e
      constructor
      · intro h
        cases h with
        | wrongType h => simp [Shape.fits] at h
        | negative => exact ⟨rfl, rfl⟩
      · rintro ⟨rfl, rfl⟩
        exact .negative span hnegative
    · next hnegative =>
      intro n e h
      cases h with
      | wrongType h => simp [Shape.fits] at h
      | negative _ h => exact hnegative h
  · next hinteger =>
    refine reports_wrongType ?_
    unfold Shape.fits
    split <;> simp_all [Shape.record?]

/-- The items of a list are read one after the other. -/
theorem reports_items {α : Type} {shape part : Shape} {read : Node → Except SchemaError α}
    (fits : ∀ span items, shape.fits (.array span items) = true)
    (known : ∀ index, shape.item? index = some part) (span : Toml.Span) {items : List Node}
    (hitems : ∀ item ∈ items, ReportsOf part read item) :
    Reports (Violates shape (.array span items)) (items.mapM read) := by
  have hitem (i item n e) : ItemViolates shape i item n e ↔ Violates part item n e := by
    simp [ItemViolates, known]
  have halong := reports_mapM (fun item => (reading item).length) (ItemViolates shape)
    (fun i item hi => (hitems item hi).congr fun n e => (hitem i item n e).symm)
    fun i item hi n e h => ((hitem i item n e).mp h).lt_length
  exact (halong.shift 1).congr fun n e => (violates_array_iff fits span items).symm

theorem reportsOf_readStrings (node : Node) : ReportsOf .strings readStrings node := by
  unfold ReportsOf readStrings
  split
  · next span items =>
    exact reports_items (fun _ _ => rfl) (fun _ => rfl) span fun item _ => reportsOf_readString item
  · next harray =>
    refine reports_wrongType ?_
    unfold Shape.fits
    split <;> simp_all [Shape.record?]

/-! ## Records -/

/-- The entries of a record are read as the shapes of its fields ask for, and no other entries. -/
structure ReadsFields {σ : Type} (shape : Shape) (r : Record)
    (readEntry : σ → Key × Node → Except SchemaError σ) (node : Node) : Prop where
  known : ∀ s entry field, entry.2 ∈ node.parts → shape.field? entry.1.name = some field →
    Reports (Violates field entry.2) (readEntry s entry)
  unknown : ∀ s entry, shape.field? entry.1.name = none → readEntry s entry = r.unknown entry.1
  fields : ∀ name ∈ r.fields, (shape.field? name).isSome = true

section Records

variable {σ : Type} {shape : Shape} {r : Record}
  {readEntry : σ → Key × Node → Except SchemaError σ} {start : σ}

theorem wanted_eq_of_record (record : shape.record? = some r) : shape.wanted = .record r.name := by
  cases shape <;> cases record <;> rfl

theorem reports_entry {node : Node} (hread : ReadsFields shape r readEntry node) (s : σ)
    {entry : Key × Node} (hpart : entry.2 ∈ node.parts) :
    Reports (EntryViolates shape r entry) (readEntry s entry) := by
  cases hfield : shape.field? entry.1.name with
  | none =>
      rw [hread.unknown s entry hfield]
      refine reports_error 0 fun n e => ?_
      simp [EntryViolates, hfield]
  | some field =>
      refine ((hread.known s entry field hpart hfield).shift 1).congr fun n e => ?_
      simp [EntryViolates, hfield]

theorem EntryViolates.lt_length {entry : Key × Node} {n : ℕ} {e : SchemaError}
    (h : EntryViolates shape r entry n e) : n < 1 + (reading entry.2).length := by
  rcases h with ⟨-, rfl, -⟩ | ⟨field, m, -, rfl, hv⟩
  · omega
  · have := hv.lt_length
    omega

/-- The items of a record are read one after the other, as far as there are fields for them. -/
theorem reports_positional {items : List Node} {names : List String}
    (hitems : ∀ item ∈ items, ∀ s name span field, shape.field? name = some field →
      Reports (Violates field item) (readEntry s (⟨name, span⟩, item)))
    (hnames : ∀ name ∈ names, (shape.field? name).isSome = true) (s : σ) :
    Reports (Along (fun item => (reading item).length) (fun i item n e =>
        ∃ part, names[i]?.bind shape.field? = some part ∧ Violates part item n e) items)
      (((names.zip items).map fun m => (⟨m.1, m.2.span⟩, m.2)).foldlM readEntry s) := by
  induction items generalizing names s with
  | nil =>
      rw [List.zip_nil_right]
      exact not_along_nil _ _
  | cons item items ih =>
      cases names with
      | nil =>
          rintro n e ⟨before, value, after, m, -, ⟨part, hpart, -⟩, -⟩
          simp at hpart
      | cons name names =>
          rw [List.zip_cons_cons, List.map_cons, List.foldlM_cons]
          obtain ⟨field, hfield⟩ := Option.isSome_iff_exists.mp (hnames name List.mem_cons_self)
          have hfirst := hitems item List.mem_cons_self s name item.span field hfield
          have hrest := ih (fun i hi => hitems i (List.mem_cons_of_mem item hi))
            fun n hn => hnames n (List.mem_cons_of_mem name hn)
          refine (hfirst.bind (fun s _ => hrest s) fun n e hv => hv.lt_length).congr fun n e => ?_
          rw [along_cons_iff]
          simp [hfield]

theorem item?_of_record (record : shape.record? = some r) (index : ℕ) :
    shape.item? index = r.fields[index]?.bind shape.field? := by
  cases shape <;> cases record <;> rfl

theorem reports_mismatch {α : Type} (record : shape.record? = some r) (span : Toml.Span)
    (value : Toml.Scalar) :
    Reports (Violates shape (.scalar span value))
      (r.mismatch span value : Except SchemaError α) := by
  by_cases hdate : ∃ date, value = .dateTime date
  · obtain ⟨date, rfl⟩ := hdate
    refine reports_error 0 fun n e => ?_
    constructor
    · intro h
      cases h with
      | wrongType h => simp [Shape.fits, record] at h
      | dateTime record' =>
          cases record.symm.trans record'
          exact ⟨rfl, rfl⟩
    · rintro ⟨rfl, rfl⟩
      exact .dateTime record span date
  · have hfits : shape.fits (.scalar span value) = false := by
      cases shape <;> cases record <;> cases value <;> simp_all [Shape.fits]
    have hwrong : (r.mismatch span value : Except SchemaError α) =
        wrongType (.scalar span value) shape.wanted := by
      rw [wanted_eq_of_record record]
      cases value with
      | dateTime date => exact absurd ⟨date, rfl⟩ hdate
      | _ => rfl
    rw [hwrong]
    exact reports_wrongType hfits

/-- A record reports its first violation in either notation. -/
theorem reports_readFields (record : shape.record? = some r) {node : Node}
    (hread : ReadsFields shape r readEntry node) :
    Reports (Violates shape node) (r.readFields readEntry start node) := by
  cases node with
  | scalar span value =>
      have hmismatch : Reports (Violates shape (.scalar span value))
          (r.mismatch span value : Except SchemaError σ) := reports_mismatch record span value
      cases value <;> exact hmismatch
  | array span items =>
      have hfits (span items) : shape.fits (.array span items) = true := by
        cases shape <;> cases record <;> rfl
      have hitems (item) (hi : item ∈ items) (s name span field)
          (hfield : shape.field? name = some field) :
          Reports (Violates field item) (readEntry s (⟨name, span⟩, item)) :=
        hread.known s (⟨name, span⟩, item) field hi hfield
      rw [Record.readFields_array]
      refine ((reports_positional hitems hread.fields start).shift 1).congr fun n e => ?_
      rw [violates_array_iff hfits]
      unfold ItemViolates
      simp only [item?_of_record record]
  | table span entries =>
      have halong := reports_foldlM (fun entry => 1 + (reading entry.2).length)
        (fun _ => EntryViolates shape r)
        (fun s i entry he => reports_entry hread s (List.mem_map_of_mem he))
        (fun i entry he n e h => h.lt_length) start
      exact (halong.shift 1).congr fun n e => (violates_table_iff record span entries).symm

end Records

/-! ## Outlines -/

theorem readsFields_expectations (node : Node) :
    ReadsFields .expectations .expectations Expectations.readEntry node := by
  refine ⟨?_, ?_, by decide⟩
  · rintro s ⟨⟨name, span⟩, value⟩ field - hfield
    simp only [Shape.field?] at hfield
    split at hfield <;> cases hfield
    · exact (reportsOf_readNatural value).map _
    · exact (reportsOf_readNatural value).map _
    · exact (reportsOf_readStrings value).map _
    · exact (reportsOf_readStrings value).map _
    · exact (reportsOf_readString value).map _
  · rintro s ⟨⟨name, span⟩, value⟩ hfield
    simp only [Shape.field?] at hfield
    split at hfield <;> cases hfield
    next hheight hcount hprototypes hstatements herror =>
      simp only [Expectations.readEntry]

theorem reportsOf_expectations (node : Node) : ReportsOf .expectations Expectations.read node :=
  reports_readFields rfl (readsFields_expectations node)

theorem reportsOf_block_and_blocks (node : Node) :
    ReportsOf .block OutlineNode.read node ∧ ReportsOf .blocks OutlineNode.readChildren node := by
  induction node with
  | step node ih =>
      constructor
      · have hfields : ReadsFields .block .node OutlineNode.readEntry node := by
          refine ⟨?_, ?_, by decide⟩
          · rintro s ⟨⟨name, span⟩, value⟩ field hpart hfield
            simp only [Shape.field?] at hfield
            split at hfield <;> cases hfield
            · exact (reportsOf_readString value).map _
            · exact (reportsOf_readStrings value).map _
            · exact (ih value hpart).2.map _
          · rintro s ⟨⟨name, span⟩, value⟩ hfield
            simp only [Shape.field?] at hfield
            split at hfield <;> cases hfield
            next hprototype hstatements hchildren =>
              simp only [OutlineNode.readEntry]
        unfold ReportsOf
        rw [OutlineNode.read_eq_readFields]
        exact reports_readFields rfl hfields
      · cases node with
        | array span items =>
            unfold ReportsOf
            rw [OutlineNode.readChildren, OutlineNode.readAll_eq_mapM]
            exact reports_items (fun _ _ => rfl) (fun _ => rfl) span fun item hi => (ih item hi).1
        | scalar span value => exact reports_wrongType (by cases value <;> rfl)
        | table span entries => exact reports_wrongType rfl

theorem readsFields_outline (document : Node) :
    ReadsFields .outline .outline Outline.readEntry document := by
  refine ⟨?_, ?_, by decide⟩
  · rintro s ⟨⟨name, span⟩, value⟩ field - hfield
    simp only [Shape.field?] at hfield
    split at hfield <;> cases hfield
    · exact (reportsOf_readString value).map _
    · exact (reportsOf_block_and_blocks value).1.map _
    · exact (reportsOf_expectations value).map _
  · rintro s ⟨⟨name, span⟩, value⟩ hfield
    simp only [Shape.field?] at hfield
    split at hfield <;> cases hfield
    next hdescription hroot hexpect =>
      simp only [Outline.readEntry]

/-! ## Documents -/

namespace Outline

section Document

variable {span : Toml.Span} {entries : List (Key × Node)} {n : ℕ} {e : SchemaError}

theorem lt_of_violates (h : Violates .outline (.table span entries) n e) :
    n < 1 + (readingEntries entries).length := by
  obtain ⟨m, rfl, halong⟩ := (violates_table_iff rfl span entries).mp h
  have hm := halong.lt_sum _ _ fun i entry _ n e hv => hv.lt_length
  rw [sum_map_readingEntries] at hm
  omega

/-- A root that is missing shows behind all entries. -/
def RootMissing (span : Toml.Span) (entries : List (Key × Node)) (n : ℕ) (e : SchemaError) : Prop :=
  n = 0 ∧ (∀ entry ∈ entries, entry.1.name ≠ "root") ∧ e = ⟨.missingField "root", span⟩

theorem documentViolates_table_iff :
    DocumentViolates (.table span entries) n e ↔ Violates .outline (.table span entries) n e ∨
      ∃ m, n = 1 + (readingEntries entries).length + m ∧ RootMissing span entries m e := by
  constructor
  · intro h
    cases h with
    | inside h => exact .inl h
    | missingRoot _ h => exact .inr ⟨0, rfl, rfl, h, rfl⟩
  · rintro (h | ⟨_, rfl, rfl, h, rfl⟩)
    · exact .inside h
    · exact .missingRoot span h

theorem root_eq_none_iff (hkeys : (Node.table span entries).DistinctKeys) {p : Parts}
    (h : Record.outline.readFields readEntry {} (.table span entries) = .ok p) :
    p.root = none ↔ ∀ entry ∈ entries, entry.1.name ≠ "root" := by
  have hroot : ((entries.map member).lookup "root").isSome = p.root.isSome :=
    isSome_eq_of_rel (given_of_readFields hkeys rfl h).root
  rw [← Option.not_isSome_iff_eq_none, ← hroot, Record.isSome_lookup_iff, Record.mem_names_iff]
  simp only [not_exists, not_and, ne_eq]

/-- Reading a document reports the first of its violations. -/
theorem reports_read (hkeys : (Node.table span entries).DistinctKeys) :
    Reports (DocumentViolates (.table span entries)) (read (.table span entries)) := by
  have hparts : Reports (Violates .outline (.table span entries))
      (Record.outline.readFields readEntry {} (.table span entries)) :=
    reports_readFields rfl (readsFields_outline _)
  refine Reports.congr (hparts.bind (W := RootMissing span entries) (fun p hp => ?_)
    fun n e => lt_of_violates) fun n e => documentViolates_table_iff.symm
  have hmissing := root_eq_none_iff hkeys hp
  cases hroot : p.root with
  | some root =>
      rintro n e ⟨-, habsent, -⟩
      rw [hmissing.mpr habsent] at hroot
      cases hroot
  | none =>
      have habsent := hmissing.mp hroot
      exact reports_error 0 fun n e =>
        ⟨fun h => ⟨h.1, h.2.2⟩, fun h => ⟨h.1, habsent, h.2⟩⟩

end Document

theorem names_of_reading_eq {entries entries' : List (Key × Node)}
    (h : readingEntries entries = readingEntries entries') {entry : Key × Node}
    (he : entry ∈ entries') : ∃ entry' ∈ entries, entry'.1.name = entry.1.name := by
  obtain ⟨before, after, rfl⟩ := List.append_of_mem he
  have hsplit : readingEntries before ++ .key entry.1.name ::
      (reading entry.2 ++ (readingEntries after ++ [.closeTable])) =
        readingEntries entries ++ [.closeTable] := by
    simp [h, readingEntries_append, readingEntries]
  obtain ⟨before', key, value, after', rfl, hname, -⟩ := exists_entries_of_append_eq hsplit
  exact ⟨(key, value), by simp, hname⟩

/-- Loading a document fails with its first violation. -/
theorem load_eq_error_iff {source : String} {document : Node}
    (h : Toml.parse source = .ok document) (file : ℕ) (e : LoadError) :
    load source file = .error e ↔ ∃ n v, First (DocumentViolates document) n v ∧
      e = ⟨.schema v.violation, some v.span, file⟩ := by
  obtain ⟨span, entries, rfl, hkeys⟩ := Toml.distinctKeys_parse h
  have hload : load source file = (read (.table span entries)).mapError fun v =>
      ⟨.schema v.violation, some v.span, file⟩ := by
    unfold load parseDocument
    rw [h]
    rfl
  rw [hload, Fallible.mapError_eq_error_iff]
  constructor
  · rintro ⟨v, hv, rfl⟩
    obtain ⟨n, hfirst⟩ := (reports_read hkeys).eq_error_iff.mp hv
    exact ⟨n, v, hfirst, rfl⟩
  · rintro ⟨n, v, hfirst, rfl⟩
    exact ⟨v, (reports_read hkeys).eq_error_iff.mpr ⟨n, hfirst⟩, rfl⟩

/-- A violation of a document is one of every document that reads the same up to and including it. -/
theorem transfer_document {document document' : Node} {n : ℕ} {e : SchemaError}
    (h : DocumentViolates document n e) (htable : ∃ span entries, document' = .table span entries)
    {common : List ReadEvent} (hcommon : common <+: reading document)
    (hcommon' : common <+: reading document') (hlength : n < common.length) :
    ∃ e', DocumentViolates document' n e' ∧ e'.violation = e.violation := by
  cases h with
  | inside h =>
      rw [← List.append_nil (reading document)] at hcommon
      rw [← List.append_nil (reading document')] at hcommon'
      obtain ⟨e', h', hsame⟩ := h.transfer hcommon hcommon' hlength
      exact ⟨e', .inside h', hsame⟩
  | @missingRoot span entries absent =>
      -- That the root is missing shows with the last event, so the readings agree to the end.
      obtain ⟨span', entries', rfl⟩ := htable
      have hwhole : common = reading (.table span entries) := by
        refine hcommon.eq_of_length_le ?_
        simp [reading]
        omega
      obtain ⟨Y, hY⟩ := hcommon'
      rw [hwhole, ← List.append_nil (reading (.table span' entries'))] at hY
      obtain ⟨hsame, -⟩ := delimited _ _ _ _ hY
      simp only [reading, List.cons.injEq, true_and, List.append_cancel_right_eq] at hsame
      rw [hsame]
      refine ⟨_, .missingRoot span' ?_, rfl⟩
      intro entry he hname
      obtain ⟨entry', he', hname'⟩ := names_of_reading_eq hsame he
      exact absent entry' he' (hname'.trans hname)

/-- Only a document without any other violation can lack its root. -/
theorem eq_of_first_missing {document : Node} {n : ℕ} {name : String} {span : Toml.Span}
    (h : First (DocumentViolates document) n ⟨.missingField name, span⟩) {n' : ℕ} {e : SchemaError}
    (h' : DocumentViolates document n' e) : n' = n ∧ e = ⟨.missingField name, span⟩ := by
  cases h.violates with
  | inside hinside => exact absurd rfl (hinside.ne_missingField name)
  | missingRoot span absent =>
      cases h' with
      | inside hinside =>
          have hlt := lt_of_violates hinside
          have hle := h.le n' e (.inside hinside)
          omega
      | missingRoot => exact ⟨rfl, rfl⟩

/-- Documents that read the same up to and including the first violation of one of them have the same
first violation, but for where it is written. -/
theorem first_of_common {document document' : Node} {n : ℕ} {e : SchemaError}
    (h : First (DocumentViolates document) n e)
    (htable : ∃ span entries, document = .table span entries)
    (htable' : ∃ span entries, document' = .table span entries)
    {common : List ReadEvent} (hcommon : common <+: reading document)
    (hcommon' : common <+: reading document') (hlength : n < common.length) {n' : ℕ}
    {e' : SchemaError} (h' : First (DocumentViolates document') n' e') :
    e'.violation = e.violation := by
  obtain ⟨f, hf, hsame⟩ := transfer_document h.violates htable' hcommon hcommon' hlength
  have hle : n' ≤ n := h'.le n f hf
  obtain ⟨g, hg, -⟩ := transfer_document h'.violates htable hcommon' hcommon (by omega)
  have hplace : n' = n := Nat.le_antisymm hle (h.le n' g hg)
  subst hplace
  rw [← h'.only f hf, hsame]

end Outline

end BlockOutline
