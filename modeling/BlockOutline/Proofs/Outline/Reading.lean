import BlockOutline.Proofs.Outline.Records

/-! # Reading outlines

Which values are read, and what they are read as: each record by what one of its entries can do. -/

namespace BlockOutline

open Fallible
open Toml (Node Key)

/-! ## Strings, numbers and lists -/

theorem readString_eq_ok_iff {node : Node} {text : String} :
    readString node = .ok text ↔ WritesString node text := by
  constructor
  · intro h
    unfold readString at h
    split at h
    · cases h
      exact .intro _ _
    · cases h
  · rintro ⟨⟩
    rfl

theorem readNatural_eq_ok_iff {node : Node} {value : ℕ} :
    readNatural node = .ok value ↔ WritesNatural node value := by
  constructor
  · intro h
    unfold readNatural at h
    split at h
    · next span written =>
      split at h
      · cases h
      · next hnonneg =>
        cases h
        obtain ⟨n, rfl⟩ := Int.eq_ofNat_of_zero_le (Int.not_lt.mp hnonneg)
        exact .intro span n
    · cases h
  · rintro ⟨span⟩
    simp [readNatural]

theorem readStrings_eq_ok_iff {node : Node} {texts : List String} :
    readStrings node = .ok texts ↔ WritesArray WritesString node texts := by
  constructor
  · intro h
    unfold readStrings at h
    split at h
    · next span items =>
      rw [mapM_eq_ok_iff] at h
      exact .intro span (h.imp fun _ _ => readString_eq_ok_iff.mp)
    · cases h
  · rintro ⟨span, h⟩
    exact mapM_eq_ok_iff.mpr (h.imp fun _ _ => readString_eq_ok_iff.mpr)

theorem isString_iff {node : Node} : IsString node ↔ ∃ text, WritesString node text := by
  constructor
  · rintro ⟨span, text, rfl⟩
    exact ⟨text, .intro span text⟩
  · rintro ⟨text, ⟨span, text⟩⟩
    exact ⟨span, text, rfl⟩

theorem isNatural_iff {node : Node} : IsNatural node ↔ ∃ value, WritesNatural node value := by
  constructor
  · rintro ⟨span, value, rfl⟩
    exact ⟨value, .intro span value⟩
  · rintro ⟨value, ⟨span, value⟩⟩
    exact ⟨span, value, rfl⟩

theorem exists_forall₂_iff {α β : Type} {R : α → β → Prop} {xs : List α} :
    (∃ ys, List.Forall₂ R xs ys) ↔ ∀ x ∈ xs, ∃ y, R x y := by
  induction xs with
  | nil => simp
  | cons x xs ih =>
      simp only [List.forall₂_cons_left_iff, List.mem_cons, forall_eq_or_imp, ← ih]
      constructor
      · rintro ⟨_, y, ys, hy, hys, -⟩
        exact ⟨⟨y, hy⟩, ys, hys⟩
      · rintro ⟨⟨y, hy⟩, ys, hys⟩
        exact ⟨y :: ys, y, ys, hy, hys, rfl⟩

/-- An array is of a shape exactly if it writes values, one for every item of that shape. -/
theorem isArrayOf_iff {β : Type} {Shape : Node → Prop} {Writes : Node → β → Prop} {node : Node}
    (hitem : ∀ item ∈ node.parts, (Shape item ↔ ∃ value, Writes item value)) :
    IsArrayOf Shape node ↔ ∃ values, WritesArray Writes node values := by
  constructor
  · rintro ⟨span, h⟩
    have hvalues := fun item hi => (hitem item hi).mp (h item hi)
    obtain ⟨values, hvalues⟩ := exists_forall₂_iff.mpr hvalues
    exact ⟨values, .intro span hvalues⟩
  · rintro ⟨values, ⟨span, h⟩⟩
    have hvalues := exists_forall₂_iff.mp ⟨values, h⟩
    exact .intro span fun item hi => (hitem item hi).mpr (hvalues item hi)

theorem isStrings_iff {node : Node} :
    IsArrayOf IsString node ↔ ∃ texts, WritesArray WritesString node texts :=
  isArrayOf_iff fun _ _ => isString_iff

/-! ## Expectations -/

namespace Expectations

/-- What an entry can change. -/
inductive Enters (e : Expectations) : String → Node → Expectations → Prop where
  | height {value n} (h : WritesNatural value n) :
      Enters e "height" value { e with height := some n }
  | blockCount {value n} (h : WritesNatural value n) :
      Enters e "total_blocks" value { e with blockCount := some n }
  | prototypes {value texts} (h : WritesArray WritesString value texts) :
      Enters e "prototypes" value { e with prototypes := some texts }
  | statements {value texts} (h : WritesArray WritesString value texts) :
      Enters e "statements" value { e with statements := some texts }
  | error {value text} (h : WritesString value text) :
      Enters e "error" value { e with error := some text }

theorem readEntry_eq_ok_iff (e e' : Expectations) (entry : Key × Node) :
    e.readEntry entry = .ok e' ↔ e.Enters entry.1.name entry.2 e' := by
  obtain ⟨⟨name, span⟩, value⟩ := entry
  constructor
  · intro h
    simp only [readEntry] at h
    split at h
    · obtain ⟨n, hn, ⟨⟩⟩ := bind_eq_ok_iff.mp h
      exact .height (readNatural_eq_ok_iff.mp hn)
    · obtain ⟨n, hn, ⟨⟩⟩ := bind_eq_ok_iff.mp h
      exact .blockCount (readNatural_eq_ok_iff.mp hn)
    · obtain ⟨texts, ht, ⟨⟩⟩ := bind_eq_ok_iff.mp h
      exact .prototypes (readStrings_eq_ok_iff.mp ht)
    · obtain ⟨texts, ht, ⟨⟩⟩ := bind_eq_ok_iff.mp h
      exact .statements (readStrings_eq_ok_iff.mp ht)
    · obtain ⟨text, ht, ⟨⟩⟩ := bind_eq_ok_iff.mp h
      exact .error (readString_eq_ok_iff.mp ht)
    · cases h
  · intro h
    cases h with
    | height h => simp [readEntry, readNatural_eq_ok_iff.mpr h]
    | blockCount h => simp [readEntry, readNatural_eq_ok_iff.mpr h]
    | prototypes h => simp [readEntry, readStrings_eq_ok_iff.mpr h]
    | statements h => simp [readEntry, readStrings_eq_ok_iff.mpr h]
    | error h => simp [readEntry, readString_eq_ok_iff.mpr h]

theorem readEntry_isOk_iff (e : Expectations) (entry : Key × Node) :
    (∃ e', e.readEntry entry = .ok e') ↔ IsExpectation entry.1.name entry.2 := by
  obtain ⟨⟨name, span⟩, value⟩ := entry
  simp only [readEntry_eq_ok_iff]
  constructor
  · rintro ⟨e', h⟩
    cases h with
    | height h => exact .height (isNatural_iff.mpr ⟨_, h⟩)
    | blockCount h => exact .blockCount (isNatural_iff.mpr ⟨_, h⟩)
    | prototypes h => exact .prototypes (isStrings_iff.mpr ⟨_, h⟩)
    | statements h => exact .statements (isStrings_iff.mpr ⟨_, h⟩)
    | error h => exact .error (isString_iff.mpr ⟨_, h⟩)
  · rintro (h | h | h | h | h)
    · obtain ⟨n, h⟩ := isNatural_iff.mp h
      exact ⟨_, .height h⟩
    · obtain ⟨n, h⟩ := isNatural_iff.mp h
      exact ⟨_, .blockCount h⟩
    · obtain ⟨texts, h⟩ := isStrings_iff.mp h
      exact ⟨_, .prototypes h⟩
    · obtain ⟨texts, h⟩ := isStrings_iff.mp h
      exact ⟨_, .statements h⟩
    · obtain ⟨text, h⟩ := isString_iff.mp h
      exact ⟨_, .error h⟩

theorem read_isOk_iff {node : Node} : (∃ e, read node = .ok e) ↔ IsExpectations node := by
  refine (Record.readFields_isOk_iff _ fun e entry _ => readEntry_isOk_iff e entry).trans ?_
  constructor
  · rintro ⟨members, record, fields⟩
    exact .intro record fields
  · rintro ⟨record, fields⟩
    exact ⟨_, record, fields⟩

theorem mem_fields {name : String} {value : Node} (h : IsExpectation name value) :
    name ∈ Record.expectations.fields := by
  cases h <;> decide

/-- Expectations are read as they are written. -/
theorem writes_of_read {node : Node} (hn : node.DistinctKeys) {e : Expectations}
    (h : read node = .ok e) : WritesExpectations node e := by
  obtain ⟨record, fields⟩ := read_isOk_iff.mp ⟨e, h⟩
  have hread := fun e e' entry => (readEntry_eq_ok_iff e e' entry).mp
  have hfield {γ : Type} (get : Expectations → γ) :=
    Record.readFields_field hread h (by decide) hn record get
  refine .intro record (fun m hm => mem_fields (fields m hm)) ?_ ?_ ?_ ?_ ?_
  · refine hfield (·.height) "height" .none fun _ h => ?_
    cases h <;> simp [*]
  · refine hfield (·.blockCount) "total_blocks" .none fun _ h => ?_
    cases h <;> simp [*]
  · refine hfield (·.prototypes) "prototypes" .none fun _ h => ?_
    cases h <;> simp [*]
  · refine hfield (·.statements) "statements" .none fun _ h => ?_
    cases h <;> simp [*]
  · refine hfield (·.error) "error" .none fun _ h => ?_
    cases h <;> simp [*]

end Expectations

end BlockOutline
