import BlockOutline.Block.Listing
import BlockOutline.Proofs.Text.Dump

/-! # Dumps of trees

A tree can be read from its dump: whatever its texts hold, no other tree has the same dump. -/

namespace BlockOutline.Block

open Text

variable {α : Type} [ToDump α]

/-! ## The fields in a dump -/

theorem toDumpAll_eq_map (bs : List (Block α)) : toDumpAll bs = bs.map dump := by
  induction bs with
  | nil => rfl
  | cons b bs ih =>
      rw [toDumpAll, ih]
      rfl

theorem dump_mk (p : Option String) (ss : List α) (children : List (Block α)) :
    dump (⟨p, ss, children⟩ : Block α) = .record "CodeBlock"
      [("prototype", dump p), ("statements", dump ss), ("children", dump children)] := by
  change toDump _ = _
  rw [toDump, toDumpAll_eq_map]
  rfl

theorem compact_mk (p : Option String) (ss : List α) (children : List (Block α)) :
    (dump (⟨p, ss, children⟩ : Block α)).compact =
      "CodeBlock \x7b prototype: " ++ (dump p).compact ++ ", statements: " ++ (dump ss).compact ++
        ", children: " ++ (dump children).compact ++ " \x7d" := by
  rw [dump_mk, Dump.compact]
  simp [Dump.compactFields, joined, ← String.toList_inj]

theorem pretty_mk (level : ℕ) (p : Option String) (ss : List α) (children : List (Block α)) :
    (dump (⟨p, ss, children⟩ : Block α)).pretty level =
      ("CodeBlock \x7b\n" ++ Dump.indentation (level + 1) ++ "prototype: ") ++
          (dump p).pretty (level + 1) ++
        (",\n" ++ Dump.indentation (level + 1) ++ "statements: ") ++
          (dump ss).pretty (level + 1) ++
        (",\n" ++ Dump.indentation (level + 1) ++ "children: ") ++
          (dump children).pretty (level + 1) ++
        (",\n" ++ Dump.indentation level ++ "\x7d") := by
  rw [dump_mk, Dump.pretty]
  simp [Dump.prettyFields, ← String.toList_inj]

/-! ## Reading a tree -/

theorem opens_compact (b : Block α) : Parted "]" (dump b).compact := by
  obtain ⟨p, ss, children⟩ := b
  exact parted_of_toList (by simp [compact_mk])

variable [Legible α]

theorem selfDelimitingAt_compact (b : Block α) :
    SelfDelimitingAt (fun b : Block α => (dump b).compact) b := by
  induction b with
  | mk p ss children ih =>
      intro c x y h
      obtain ⟨q, ts, others⟩ := c
      simp only [compact_mk] at h
      have hchildren := selfDelimitingAt_compact_list opens_compact ih
      obtain ⟨rfl, rfl, rfl⟩ := append_three_inj (Legible.compact p) (Legible.compact ss) hchildren h
      rfl

/-- The items of a list lie two levels below the block that has the list in it. -/
theorem selfDelimitingAt_pretty (b : Block α) (level : ℕ) :
    SelfDelimitingAt (fun b : Block α => (dump b).pretty level) b := by
  induction b generalizing level with
  | mk p ss children ih =>
      intro c x y h
      obtain ⟨q, ts, others⟩ := c
      simp only [pretty_mk] at h
      have hchildren := selfDelimitingAt_pretty_list (level + 1) fun c hc => ih c hc (level + 2)
      obtain ⟨rfl, rfl, rfl⟩ := append_three_inj (Legible.pretty (level + 1) p)
        (Legible.pretty (level + 1) ss) hchildren h
      rfl

instance : Legible (Block α) where
  compact := selfDelimitingAt_compact
  pretty level b := selfDelimitingAt_pretty b level
  opens := opens_compact

theorem compactDump_injective : Function.Injective (compactDump : Block α → String) :=
  SelfDelimiting.injective Legible.compact

theorem prettyDump_injective : Function.Injective (prettyDump : Block α → String) :=
  SelfDelimiting.injective (Legible.pretty 0)

/-- Two trees have the same dump, on one line or over several, exactly if they are equal, and so have
the listings that show the dump. -/
theorem dumps_eq_iff (t u : Block String) :
    (t.compactDump = u.compactDump ↔ t = u) ∧ (t.prettyDump = u.prettyDump ↔ t = u) ∧
      ∀ l : Listing, ({ l with dump := true }.text t = { l with dump := true }.text u ↔ t = u) := by
  have hpretty : t.prettyDump = u.prettyDump ↔ t = u := prettyDump_injective.eq_iff
  refine ⟨compactDump_injective.eq_iff, hpretty, ?_⟩
  intro l
  simp only [Listing.text, if_true, listed, List.map_cons, List.map_nil, String.join_cons,
    String.append_left_inj, hpretty]

end BlockOutline.Block
