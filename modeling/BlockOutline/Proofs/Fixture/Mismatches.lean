import Mathlib.Data.List.Sort
import BlockOutline.Proofs.Fixture.Verdict
import BlockOutline.Proofs.Text.Dump

/-! # Reports of mismatches

A report has one section for each expectation that a tree does not meet. Whatever the texts in it hold, a
section keeps to its lines, so the mismatches can be told from the report. -/

namespace BlockOutline

namespace Mismatch

/-! ## The lines of a section -/

def listLines (what : String) (expected actual : List String) : List String :=
  [what ++ " mismatch", "  expected: " ++ (Text.dump expected).compact,
    "  actual:   " ++ (Text.dump actual).compact]

def lines : Mismatch → List String
  | height expected actual => [numbers "height" expected actual]
  | blockCount expected actual => [numbers "total_blocks" expected actual]
  | prototypes expected actual => listLines "prototypes" expected actual
  | statements expected actual => listLines "statements" expected actual

theorem lines_ne_nil (m : Mismatch) : m.lines ≠ [] := by
  cases m <;> simp [lines, listLines]

theorem joined_listLines (what : String) (expected actual : List String) :
    Text.joined "\n" (listLines what expected actual) = lists what expected actual := by
  rw [← String.toList_inj]
  simp [listLines, lists, Text.joined]

theorem joined_lines (m : Mismatch) : Text.joined "\n" m.lines = m.message := by
  cases m with
  | height expected actual => rfl
  | blockCount expected actual => rfl
  | prototypes expected actual => exact joined_listLines _ expected actual
  | statements expected actual => exact joined_listLines _ expected actual

/-! ## Lines stay lines -/

/-- A line that is read as it is written, wherever it stands. -/
structure IsLine (text : String) : Prop where
  nonempty : text ≠ ""
  unbroken : Text.Unbroken text

theorem isLine_numbers {what : String} (h : IsLine what) (expected actual : ℕ) :
    IsLine (numbers what expected actual) := by
  have hexpected : Text.Unbroken ": expected " := by decide
  have hgot : Text.Unbroken ", got " := by decide
  refine ⟨by simp [numbers], ?_⟩
  exact (((h.unbroken.append hexpected).append (Text.unbroken_number expected)).append hgot).append
    (Text.unbroken_number actual)

theorem unbroken_texts (texts : List String) : Text.Unbroken (Text.dump texts).compact :=
  Text.unbroken_compact_list fun text _ => Text.Quoted.unbroken_encode text

theorem isLine_of_mem_listLines {what : String} (h : IsLine what) {expected actual : List String}
    {line : String} (hline : line ∈ listLines what expected actual) : IsLine line := by
  have hmismatch : Text.Unbroken " mismatch" := by decide
  have hexpected : Text.Unbroken "  expected: " := by decide
  have hactual : Text.Unbroken "  actual:   " := by decide
  simp only [listLines, List.mem_cons, List.not_mem_nil, or_false] at hline
  rcases hline with rfl | rfl | rfl
  · exact ⟨by simp, h.unbroken.append hmismatch⟩
  · exact ⟨by simp, hexpected.append (unbroken_texts expected)⟩
  · exact ⟨by simp, hactual.append (unbroken_texts actual)⟩

theorem isLine_of_mem_lines {m : Mismatch} {line : String} (h : line ∈ m.lines) : IsLine line := by
  cases m with
  | height expected actual =>
      rw [List.mem_singleton.mp h]
      exact isLine_numbers ⟨by decide, by decide⟩ expected actual
  | blockCount expected actual =>
      rw [List.mem_singleton.mp h]
      exact isLine_numbers ⟨by decide, by decide⟩ expected actual
  | prototypes expected actual => exact isLine_of_mem_listLines ⟨by decide, by decide⟩ h
  | statements expected actual => exact isLine_of_mem_listLines ⟨by decide, by decide⟩ h

/-- The lines of some sections that are joined are the lines of all of them. -/
theorem lines_joined_messages (ms : List Mismatch) :
    Text.lines (Text.joined "\n" (ms.map message)) = ms.flatMap lines := by
  have hmessages : ms.map message = ms.map fun m => Text.joined "\n" m.lines := by
    simp only [joined_lines]
  rw [hmessages, Text.joined_flatMap _ fun m _ => m.lines_ne_nil]
  refine Text.lines_joined ?_ ?_
  · intro line hline
    obtain ⟨m, -, hm⟩ := List.mem_flatMap.mp hline
    exact (isLine_of_mem_lines hm).nonempty
  · intro line hline
    obtain ⟨m, -, hm⟩ := List.mem_flatMap.mp hline
    exact (isLine_of_mem_lines hm).unbroken

theorem lines_message (m : Mismatch) : Text.lines m.message = m.lines := by
  have h := lines_joined_messages [m]
  rwa [List.map_singleton, List.flatMap_singleton] at h

/-! ## Mismatches told from lines -/

theorem numbers_inj {what : String} {expected expected' actual actual' : ℕ}
    (h : numbers what expected actual = numbers what expected' actual') :
    expected = expected' ∧ actual = actual' := by
  have hnumber : Text.SelfDelimiting fun n : ℕ => toString n ++ ", got " :=
    Text.selfDelimiting_number (c := ',') (by decide) fun n => by simp
  simp only [numbers, String.append_assoc, String.append_right_inj] at h
  rw [← String.append_assoc, ← String.append_assoc] at h
  obtain ⟨rfl, hactual⟩ := (hnumber _).split h
  exact ⟨rfl, Text.number_inj hactual⟩

theorem listLines_append_inj {what : String} {expected expected' actual actual' : List String}
    {xs ys : List String}
    (h : listLines what expected actual ++ xs = listLines what expected' actual' ++ ys) :
    expected = expected' ∧ actual = actual' ∧ xs = ys := by
  have hdump : Function.Injective fun texts : List String => (Text.dump texts).compact :=
    Text.Legible.compact.injective
  simp only [listLines, List.cons_append, List.nil_append, List.cons.injEq, String.append_right_inj,
    true_and] at h
  obtain ⟨hexpected, hactual, hrest⟩ := h
  exact ⟨hdump hexpected, hdump hactual, hrest⟩

/-- The first letter of a section. -/
def initial : Mismatch → Char
  | height _ _ => 'h'
  | blockCount _ _ => 't'
  | prototypes _ _ => 'p'
  | statements _ _ => 's'

theorem head?_lines (m : Mismatch) : m.lines.head?.bind (·.toList.head?) = some m.initial := by
  cases m <;> simp [lines, listLines, numbers, initial]

theorem initial_eq_of_lines {m m' : Mismatch} {xs ys : List String}
    (h : m.lines ++ xs = m'.lines ++ ys) : m.initial = m'.initial := by
  have hhead := congrArg List.head? h
  rw [List.head?_append_of_ne_nil _ m.lines_ne_nil,
    List.head?_append_of_ne_nil _ m'.lines_ne_nil] at hhead
  have hinitial := congrArg (Option.bind · (·.toList.head?)) hhead
  simpa only [head?_lines, Option.some.injEq] using hinitial

/-- A section can be told from its lines and whatever lines follow. -/
theorem lines_append_inj {m m' : Mismatch} {xs ys : List String}
    (h : m.lines ++ xs = m'.lines ++ ys) : m = m' ∧ xs = ys := by
  -- Sections of different kinds differ in their first letters.
  have hinitial := initial_eq_of_lines h
  cases m with
  | height expected actual =>
      cases m' with
      | height expected' actual' =>
          obtain ⟨hline, hrest⟩ := List.cons.inj h
          obtain ⟨rfl, rfl⟩ := numbers_inj hline
          exact ⟨rfl, hrest⟩
      | _ => exact absurd hinitial (by simp [initial])
  | blockCount expected actual =>
      cases m' with
      | blockCount expected' actual' =>
          obtain ⟨hline, hrest⟩ := List.cons.inj h
          obtain ⟨rfl, rfl⟩ := numbers_inj hline
          exact ⟨rfl, hrest⟩
      | _ => exact absurd hinitial (by simp [initial])
  | prototypes expected actual =>
      cases m' with
      | prototypes expected' actual' =>
          obtain ⟨rfl, rfl, hrest⟩ := listLines_append_inj h
          exact ⟨rfl, hrest⟩
      | _ => exact absurd hinitial (by simp [initial])
  | statements expected actual =>
      cases m' with
      | statements expected' actual' =>
          obtain ⟨rfl, rfl, hrest⟩ := listLines_append_inj h
          exact ⟨rfl, hrest⟩
      | _ => exact absurd hinitial (by simp [initial])

theorem flatMap_lines_injective : Function.Injective fun ms : List Mismatch => ms.flatMap lines := by
  intro ms ms' h
  dsimp only at h
  induction ms generalizing ms' with
  | nil =>
      cases ms' with
      | nil => rfl
      | cons m ms' => exact absurd (List.append_eq_nil_iff.mp h.symm).1 m.lines_ne_nil
  | cons m ms ih =>
      cases ms' with
      | nil => exact absurd (List.append_eq_nil_iff.mp h).1 m.lines_ne_nil
      | cons m' ms' =>
          rw [List.flatMap_cons, List.flatMap_cons] at h
          obtain ⟨rfl, hrest⟩ := lines_append_inj h
          rw [ih hrest]

/-- Mismatches can be told from their sections joined. -/
theorem joined_messages_injective :
    Function.Injective fun ms : List Mismatch => Text.joined "\n" (ms.map message) := by
  intro ms ms' h
  apply flatMap_lines_injective
  dsimp only at h ⊢
  rw [← lines_joined_messages, ← lines_joined_messages, h]

/-! ## The order of the sections -/

/-- The place of the section among those of a report. -/
def position : Mismatch → ℕ
  | height _ _ => 0
  | blockCount _ _ => 1
  | prototypes _ _ => 2
  | statements _ _ => 3

/-- How many lines the section has. -/
def lineCount : Mismatch → ℕ
  | height _ _ | blockCount _ _ => 1
  | prototypes _ _ | statements _ _ => 3

/-- The section of one mismatch stands before that of another. -/
def Before (m m' : Mismatch) : Prop :=
  m.position < m'.position

instance : Std.Irrefl Before :=
  ⟨fun m => Nat.lt_irrefl m.position⟩

instance : Std.Antisymm Before :=
  ⟨fun _ _ h h' => absurd h' (Nat.lt_asymm h)⟩

theorem length_lines (m : Mismatch) : m.lines.length = m.lineCount := by
  cases m <;> rfl

end Mismatch

/-! ## Expectations that are not met -/

/-- How a tree differs from what is expected of it, where something is expected. -/
inductive Differs (e : Expectations) (tree : Block String) : Mismatch → Prop where
  | height {n} (expected : e.height = some n) (differs : tree.levels ≠ n) :
      Differs e tree (.height n tree.levels)
  | blockCount {n} (expected : e.blockCount = some n) (differs : tree.size ≠ n) :
      Differs e tree (.blockCount n tree.size)
  | prototypes {names} (expected : e.prototypes = some names)
      (differs : tree.prototypesBelow.map Block.displayName ≠ names) :
      Differs e tree (.prototypes names (tree.prototypesBelow.map Block.displayName))
  | statements {texts} (expected : e.statements = some texts)
      (differs : tree.statementsBelow ≠ texts) :
      Differs e tree (.statements texts tree.statementsBelow)

/-- A report in sections: one for each difference and no others, in their order, each on lines of its
own. No other mismatches give the same text. -/
structure Sections (e : Expectations) (tree : Block String) (ms : List Mismatch) (text : String) :
    Prop where
  mem_iff : ∀ m, m ∈ ms ↔ Differs e tree m
  ordered : ms.Pairwise Mismatch.Before
  text_eq : text = Text.joined "\n" (ms.map Mismatch.message)
  lines_eq : Text.lines text = ms.flatMap fun m => Text.lines m.message
  lineCount_eq : ∀ m ∈ ms, (Text.lines m.message).length = m.lineCount
  only : ∀ ms', text = Text.joined "\n" (ms'.map Mismatch.message) → ms' = ms

namespace Expectations

theorem compare?_eq_some_iff {α : Type} [DecidableEq α] {mismatch : α → α → Mismatch}
    {expected : Option α} {actual : α} {m : Mismatch} :
    compare? mismatch expected actual = some m ↔
      ∃ x, expected = some x ∧ actual ≠ x ∧ mismatch x actual = m := by
  cases expected with
  | none => simp [compare?]
  | some x => by_cases h : actual = x <;> simp [compare?, h]

section Comparing

variable (e : Expectations) (tree : Block String)

theorem mem_mismatches_iff {m : Mismatch} : m ∈ e.mismatches tree ↔ Differs e tree m := by
  simp only [mismatches, List.mem_filterMap, List.mem_cons, List.not_mem_nil, or_false, id,
    exists_eq_or_imp, exists_eq_left, compare?_eq_some_iff, Block.displayNames,
    Block.height_eq_levels, Block.blockCount_eq_size, Block.allPrototypes_eq,
    Block.allStatements_eq]
  constructor
  · intro h
    rcases h with ⟨n, expected, differs, rfl⟩ | ⟨n, expected, differs, rfl⟩ |
      ⟨names, expected, differs, rfl⟩ | ⟨texts, expected, differs, rfl⟩
    · exact .height expected differs
    · exact .blockCount expected differs
    · exact .prototypes expected differs
    · exact .statements expected differs
  · intro h
    cases h with
    | height expected differs => exact .inl ⟨_, expected, differs, rfl⟩
    | blockCount expected differs => exact .inr (.inl ⟨_, expected, differs, rfl⟩)
    | prototypes expected differs => exact .inr (.inr (.inl ⟨_, expected, differs, rfl⟩))
    | statements expected differs => exact .inr (.inr (.inr ⟨_, expected, differs, rfl⟩))

/-- A comparison that comes before another one has its section before that of the other. -/
theorem before_of_compare? {α β : Type} [DecidableEq α] [DecidableEq β] {first : α → α → Mismatch}
    {second : β → β → Mismatch} (h : ∀ a a' b b', (first a a').Before (second b b'))
    {expected : Option α} {actual : α} {expected' : Option β} {actual' : β} {m m' : Mismatch}
    (hm : compare? first expected actual = some m)
    (hm' : compare? second expected' actual' = some m') : m.Before m' := by
  obtain ⟨a, -, -, rfl⟩ := compare?_eq_some_iff.mp hm
  obtain ⟨b, -, -, rfl⟩ := compare?_eq_some_iff.mp hm'
  exact h a actual b actual'

theorem pairwise_mismatches : (e.mismatches tree).Pairwise Mismatch.Before := by
  rw [mismatches, List.pairwise_filterMap]
  simp only [List.pairwise_cons, List.forall_mem_cons, List.not_mem_nil, false_implies, implies_true,
    and_true, List.Pairwise.nil, id]
  -- The six pairs of comparisons, each in the order in which they are made.
  refine ⟨⟨?_, ?_, ?_⟩, ⟨?_, ?_⟩, ?_⟩ <;>
    exact fun m hm m' hm' =>
      before_of_compare? (by simp [Mismatch.Before, Mismatch.position]) hm hm'

theorem report?_eq_some_iff {text : String} : e.report? tree = some text ↔
    e.mismatches tree ≠ [] ∧ text = Text.joined "\n" ((e.mismatches tree).map Mismatch.message) := by
  unfold report?
  cases h : e.mismatches tree with
  | nil => simp
  | cons m ms => simp [eq_comm]

theorem sections_of_report? {text : String} (h : e.report? tree = some text) :
    Sections e tree (e.mismatches tree) text := by
  obtain ⟨-, rfl⟩ := (report?_eq_some_iff e tree).mp h
  refine ⟨fun m => mem_mismatches_iff e tree, pairwise_mismatches e tree, rfl, ?_, ?_, ?_⟩
  · simp only [Mismatch.lines_joined_messages, Mismatch.lines_message]
  · intro m _
    rw [Mismatch.lines_message, Mismatch.length_lines]
  · intro ms' htext
    exact (Mismatch.joined_messages_injective htext).symm

theorem report?_eq_report?_iff {e' : Expectations} {tree' : Block String} :
    e.report? tree = e'.report? tree' ↔ e.mismatches tree = e'.mismatches tree' := by
  constructor
  · intro h
    cases hreport : e.report? tree with
    | none =>
        rw [hreport] at h
        rw [report?_eq_none.mp hreport, report?_eq_none.mp h.symm]
    | some text =>
        rw [hreport] at h
        obtain ⟨-, htext⟩ := (report?_eq_some_iff e' tree').mp h.symm
        exact ((sections_of_report? e tree hreport).only _ htext).symm
  · intro h
    unfold report?
    rw [h]

/-- There is a report exactly if an expectation is not met. It has one section for each expectation that
the tree differs from, in a fixed order, each on lines of its own; so reports that read the same tell the
same differences. -/
theorem report?_sections :
    (e.report? tree = none ↔ Meets e tree) ∧
      (∀ text, e.report? tree = some text → ∃ ms, ms ≠ [] ∧ Sections e tree ms text) ∧
      ∀ (e' : Expectations) (tree' : Block String), e.report? tree = e'.report? tree' ↔
        ∀ m, Differs e tree m ↔ Differs e' tree' m := by
  refine ⟨report?_eq_none_iff, ?_, ?_⟩
  · intro text h
    exact ⟨e.mismatches tree, ((report?_eq_some_iff e tree).mp h).1, sections_of_report? e tree h⟩
  · intro e' tree'
    simp only [← mem_mismatches_iff]
    rw [report?_eq_report?_iff]
    constructor
    · intro h m
      rw [h]
    · exact (pairwise_mismatches e tree).eq_of_mem_iff (pairwise_mismatches e' tree')

end Comparing

/-- Texts with line breaks and quotes that imitate another section, and an item that reads like two. -/
theorem report?_sections_of_imitations :
    let tree : Block String := ⟨some "m", ["", "\r\nheight: expected 1, got 2"], []⟩
    let e : Expectations :=
      ⟨some 1, none, some ["m\n  actual:   []"], some ["\", \""], none⟩
    let e' : Expectations := ⟨some 1, none, some ["m\n  actual:   []"], some ["", ""], none⟩
    ∃ text ms, e.report? tree = some text ∧ ms ≠ [] ∧ Sections e tree ms text ∧
      (Text.lines text).length = 6 ∧ e.report? tree ≠ e'.report? tree := by
  intro tree e e'
  have htext : e.report? tree = some
      ("prototypes mismatch\n  expected: [\"m\\n  actual:   []\"]\n  actual:   [\"m\"]\n" ++
        "statements mismatch\n  expected: [\"\\\", \\\"\"]\n" ++
        "  actual:   [\"\", \"\\r\\nheight: expected 1, got 2\"]") := by
    decide +kernel
  obtain ⟨-, hsections, hsame⟩ := report?_sections e tree
  obtain ⟨ms, hne, sections⟩ := hsections _ htext
  refine ⟨_, ms, htext, hne, sections, by decide +kernel, ?_⟩
  intro hreport
  have hdiffers : Differs e tree (.statements ["\", \""] tree.statementsBelow) :=
    .statements rfl (by decide +kernel)
  cases ((hsame e' tree).mp hreport _).mp hdiffers with
  | statements expected => exact absurd expected (by decide)

end Expectations

end BlockOutline
