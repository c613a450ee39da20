import BlockOutline.Proofs.Text.Quoted
import BlockOutline.Text.Dump

/-! # Reading dumps

A dump is self-delimiting on one line as well as over several lines, as long as the dumps of the
smallest values in it are. -/

namespace BlockOutline.Text

variable {α : Type}

namespace Dump

/-! ## Lists and options -/

theorem parted_comma : Parted ", " "]" :=
  parted_of_toList (by simp)

/-- An item at a level has more blanks before it than the bracket that ends the list. -/
theorem parted_indentation (level : ℕ) :
    Parted (indentation (level + 1)) (indentation level ++ "]") := by
  have hdeeper : indentation (level + 1) = indentation level ++ indentation 1 := by
    rw [indentation, Nat.mul_add, List.replicate_add, String.ofList_append, indentation, indentation]
  rw [hdeeper]
  exact parted_of_toList (by simp [indentation, List.replicate_succ])

end Dump

open Dump

/-- Values whose dumps can be told from what follows, in both forms; on one line they do not begin
like the end of a list. -/
class Legible (α : Type) [ToDump α] : Prop where
  compact : SelfDelimiting fun a : α => (dump a).compact
  pretty (level : ℕ) : SelfDelimiting fun a : α => (dump a).pretty level
  opens (a : α) : Parted "]" (dump a).compact

section Lists

variable [ToDump α]

theorem compactAll_map (items : List α) :
    compactAll (items.map dump) = items.map fun a => (dump a).compact := by
  induction items with
  | nil => rfl
  | cons a items ih => rw [List.map_cons, compactAll, ih, List.map_cons]

theorem joined_append_eq_rows (a : α) (items : List α) (closing : String) :
    joined ", " ((a :: items).map fun a => (dump a).compact) ++ closing =
      (dump a).compact ++ rows ", " closing (fun a => (dump a).compact) items := by
  induction items generalizing a with
  | nil => rfl
  | cons b items ih =>
      have hrest := ih b
      rw [List.map_cons] at hrest
      rw [List.map_cons, List.map_cons, joined, String.append_assoc, String.append_assoc, hrest, rows]
      simp

theorem compact_list (items : List α) :
    (dump items).compact = bracketed "[]" "[" ", " "]" (fun a => (dump a).compact) items := by
  change (Dump.list (items.map dump)).compact = _
  rw [Dump.compact, compactAll_map]
  cases items with
  | nil => rfl
  | cons a items => rw [String.append_assoc, joined_append_eq_rows, bracketed]

theorem unbroken_compact_list {items : List α} (h : ∀ a ∈ items, Unbroken (dump a).compact) :
    Unbroken (dump items).compact := by
  have hopening : Unbroken "[" := by decide
  have hcomma : Unbroken ", " := by decide
  have hclosing : Unbroken "]" := by decide
  change Unbroken (Dump.list (items.map dump)).compact
  rw [Dump.compact, compactAll_map]
  refine (hopening.append (unbroken_joined hcomma ?_)).append hclosing
  intro text htext
  obtain ⟨a, ha, rfl⟩ := List.mem_map.mp htext
  exact h a ha

theorem prettyAll_map (level : ℕ) (items : List α) (closing : String) :
    prettyAll level (items.map dump) ++ closing =
      rows (indentation level) closing (fun a => (dump a).pretty level ++ ",\n") items := by
  induction items with
  | nil => simp [prettyAll, rows]
  | cons a items ih => simp only [List.map_cons, prettyAll, rows, String.append_assoc, ← ih]

theorem pretty_list (level : ℕ) (items : List α) :
    (dump items).pretty level = bracketed "[]" ("[\n" ++ indentation (level + 1))
      (indentation (level + 1)) (indentation level ++ "]")
      (fun a => (dump a).pretty (level + 1) ++ ",\n") items := by
  change (Dump.list (items.map dump)).pretty level = _
  cases items with
  | nil => rfl
  | cons a items =>
      simp only [List.map_cons, Dump.pretty, bracketed, ← prettyAll_map, String.append_assoc]

theorem selfDelimitingAt_compact_list {items : List α} (hopens : ∀ a : α, Parted "]" (dump a).compact)
    (h : ∀ a ∈ items, SelfDelimitingAt (fun a : α => (dump a).compact) a) :
    SelfDelimitingAt (fun items : List α => (dump items).compact) items := by
  simp only [compact_list]
  refine selfDelimitingAt_bracketed ?_ parted_comma h
  intro a x y heq
  have hsplit : "[]" ++ x = "[" ++ ("]" ++ x) := by rw [← String.append_assoc]; rfl
  rw [hsplit, String.append_assoc, String.append_right_inj] at heq
  exact hopens a x y heq

theorem selfDelimitingAt_pretty_list {items : List α} (level : ℕ)
    (h : ∀ a ∈ items, SelfDelimitingAt (fun a : α => (dump a).pretty (level + 1)) a) :
    SelfDelimitingAt (fun items : List α => (dump items).pretty level) items := by
  simp only [pretty_list]
  exact selfDelimitingAt_bracketed (fun a => parted_of_toList (by simp)) (parted_indentation level)
    fun a ha => (h a ha).append ",\n"

end Lists

/-! ## Legible values -/

instance : Legible String where
  compact := Quoted.selfDelimiting_encode
  pretty _ := Quoted.selfDelimiting_encode
  opens text := parted_of_toList (by simp [dump, Dump.compact, Quoted.encode])

section Legible

variable [ToDump α]

theorem compact_option :
    (fun o : Option α => (dump o).compact) =
      optional "None" "Some(" ")" fun a => (dump a).compact := by
  funext o
  cases o <;> rfl

theorem pretty_option (level : ℕ) :
    (fun o : Option α => (dump o).pretty level) =
      optional "None" ("Some(\n" ++ indentation (level + 1)) (",\n" ++ indentation level ++ ")")
        fun a => (dump a).pretty (level + 1) := by
  funext o
  cases o with
  | none => rfl
  | some a =>
      change (Dump.applied "Some" (dump a)).pretty level = _
      simp only [Dump.pretty, optional, ← String.append_assoc]
      rfl

variable [Legible α]

instance : Legible (Option α) where
  compact := by
    rw [compact_option]
    exact selfDelimiting_optional (parted_of_toList (by simp)) Legible.compact
  pretty level := by
    rw [pretty_option]
    exact selfDelimiting_optional (parted_of_toList (by simp)) (Legible.pretty (level + 1))
  opens o := by
    refine parted_of_toList ?_
    cases o <;> simp [dump, Dump.compact]

instance : Legible (List α) where
  compact _ := selfDelimitingAt_compact_list Legible.opens fun a _ => Legible.compact a
  pretty level _ := selfDelimitingAt_pretty_list level fun a _ => Legible.pretty (level + 1) a
  opens items := parted_of_toList (by simp [dump, Dump.compact])

end Legible

end BlockOutline.Text
