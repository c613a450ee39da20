import Mathlib.Data.List.Nodup
import BlockOutline.Proofs.CommandLine.Inspecting
import BlockOutline.Proofs.Log.Verbosity
import BlockOutline.Proofs.Outline.Blocks
import BlockOutline.Proofs.Terminal.Controls

/-! # A file without a command

A file alone is inspected as if the word for the command stood before it. With switches around the file
this is so only if the program itself knows all those that stand before it. -/

namespace BlockOutline

open CommandLine Switch Terminal

/-! ## What refusals look like -/

namespace CommandLine.Misuse

/-- A report begins with the fault. -/
theorem report_eq (m : Misuse) :
    ∃ more, m.report = ⟨.problem, "error:"⟩ :: .plain " " :: m.fault.message ++ more := by
  rw [report]
  simp only [List.cons_append, List.nil_append, List.append_assoc]
  generalize List.map _ m.tip.toList ++ _ = parts
  cases parts <;> simp [List.intercalate]

/-- A switch that comes again. -/
def repetition (c : Command) (s : Switch) : Misuse where
  command := c
  fault := .repeated s

theorem repetition_inj {c c' : Command} {s s' : Switch} :
    repetition c s = repetition c' s' ↔ c = c' ∧ s = s' := by
  simp [repetition]

/-- What can come again before the word for the command, and behind it. -/
def repetitions : List Misuse :=
  repetition .top .noColour ::
    (Command.inspect.own ++ [Switch.noColour]).map (repetition .inspect)

theorem mem_repetitions {s : Switch} (hs : s ∈ Command.inspect.own ++ Command.top.own)
    (honce : s.repeats = false) : repetition .inspect s ∈ repetitions := by
  revert s
  decide

theorem printable_repetitions : ∀ m ∈ repetitions, Printable m.report := by
  decide

theorem nodup_text_repetitions : (repetitions.map fun m => text m.report).Nodup := by
  decide

end CommandLine.Misuse

namespace Environment

variable {e : Environment}

theorem write_ne {pieces pieces' : List Piece}
    (h : withoutControls (render true pieces) ≠ withoutControls (render true pieces')) :
    e.write pieces ≠ e.write pieces' := by
  intro hwrite
  simp only [write] at hwrite
  split at hwrite
  · exact h (congrArg withoutControls hwrite)
  · exact h hwrite

/-- Two texts about switches that come again are different, with colours or without. -/
theorem eq_of_write_eq {m m' : Misuse} (hm : m ∈ Misuse.repetitions) (hm' : m' ∈ Misuse.repetitions)
    (h : e.write m.report = e.write m'.report) : m = m' := by
  by_contra hne
  refine write_ne ?_ h
  rw [withoutControls_render (Misuse.printable_repetitions m hm),
    withoutControls_render (Misuse.printable_repetitions m' hm')]
  exact fun htext => hne (List.inj_on_of_nodup_map Misuse.nodup_text_repetitions hm hm' htext)

theorem write_top_ne {s : Switch} (hmem : Misuse.repetition .inspect s ∈ Misuse.repetitions) :
    e.write (Misuse.repetition .top .noColour).report ≠ e.write (Misuse.repetition .inspect s).report := by
  intro hwrite
  obtain ⟨hcommand, -⟩ := Misuse.repetition_inj.mp (eq_of_write_eq List.mem_cons_self hmem hwrite)
  cases hcommand

/-- An unknown switch and one that comes again are reported in different words. -/
theorem write_unexpected_ne (c c' : Command) (argument : String) (tip : Option Tip)
    (usage : Option UsageLine) (s : Switch) :
    e.write (Misuse.report ⟨c, .unexpectedArgument argument, tip, usage⟩) ≠
      e.write (Misuse.repetition c' s).report := by
  obtain ⟨more, hmore⟩ := Misuse.report_eq ⟨c, .unexpectedArgument argument, tip, usage⟩
  obtain ⟨more', hmore'⟩ := Misuse.report_eq (.repetition c' s)
  rw [hmore, hmore']
  have hunexpected : Printable [⟨.problem, "error:"⟩, .plain " ", .plain "unexpected argument "] := by
    decide
  have hrepeated : Printable [⟨.problem, "error:"⟩, .plain " ", .plain "the argument "] := by
    decide
  exact write_ne (withoutControls_append_ne hunexpected hrepeated (by decide) _ _)

end Environment

/-! ## Reading and running -/

namespace CommandLine

variable {before after : List Switch} {file : String}

theorem verbosity_inspection_eq_zero_iff (outer inner : List Switch) (file : String) :
    (inspection outer inner file).verbosity = 0 ↔ .verbose ∉ outer ++ inner := by
  rw [List.mem_append, not_or, inspection]
  by_cases hinner : Switch.verbose ∈ inner
  · simp [hinner, List.count_eq_zero]
  · simp [hinner, List.count_eq_zero]

/-- Where the switches of inspections stand behind the word for the command, the switches before that
word might as well stand behind it, but that the verbosities would be added up. -/
theorem inspection_append (hbefore : ∀ s ∈ before, s ∉ Command.inspect.own) :
    inspection [] (before ++ after) file =
      { inspection before after file with
        verbosity := (inspection [] (before ++ after) file).verbosity } := by
  have hmem {s : Switch} (hs : s ∈ Command.inspect.own) : s ∈ before ++ after ↔ s ∈ after := by
    rw [List.mem_append, or_iff_right fun h => hbefore s h hs]
  have hprototypes := hmem (s := .prototypes) (by decide)
  have hstatements := hmem (s := .statements) (by decide)
  have htree := hmem (s := .tree) (by decide)
  have hdump := hmem (s := .dump) (by decide)
  simp only [inspection, hprototypes, hstatements, htree, hdump, List.nil_append]

end CommandLine

namespace Program

variable {before after : List Switch} {front back : List String} {file : String} {lookup : Lookup}
  {environment : Environment}

theorem run_of_misuse {arguments : List String} {m : Misuse}
    (h : CommandLine.read arguments = .error (.misuse m)) :
    run lookup environment arguments = ⟨2, "", environment.write m.report⟩ := by
  rw [run, h]
  rfl

variable (lookup environment)

/-- An inspection that is understood fails with code 1, if at all. -/
theorem code_of_inspection {arguments : List String} {outer inner : List Switch}
    (h : CommandLine.read arguments = .ok (inspection outer inner file)) :
    (run lookup environment arguments).code ≠ 2 := by
  simp only [run, h, inspection, perform, inspect]
  split
  · simp
  · split <;> simp

/-- What is said if a switch comes again behind the word for the command. -/
theorem run_inspect_of_repeated (hfront : Gives before front) (h : IsFile file)
    (hback : Gives after back) {s : Switch} (hs : repeated? (before ++ after) = some s) :
    run lookup environment (Command.inspect.name :: (front ++ file :: back)) =
        ⟨2, "", environment.write (Misuse.repetition .inspect s).report⟩ ∧
      Misuse.repetition .inspect s ∈ Misuse.repetitions := by
  obtain ⟨hmem, honce⟩ := mem_of_repeatedBehind? hs
  have hbeside : s ∈ Command.inspect.own ++ Command.top.own := by
    rcases List.mem_append.mp hmem with hs | hs
    · exact hfront.beside s hs
    · exact hback.beside s hs
  refine ⟨run_of_misuse ?_, Misuse.mem_repetitions hbeside honce⟩
  rw [read_inspect hfront h hback, hs]
  rfl

theorem code_inspect_of_not_repeated (hfront : Gives before front) (h : IsFile file)
    (hback : Gives after back) (honce : repeated? (before ++ after) = none) :
    (run lookup environment (Command.inspect.name :: (front ++ file :: back))).code ≠ 2 := by
  have hread := read_inspect hfront h hback
  rw [honce] at hread
  exact code_of_inspection lookup environment hread

/-! ## Agreement -/

/-- A switch of inspections before the file is refused, which it would not be behind the word for the
command. -/
theorem run_ne_of_own (hfront : Gives before front) (hown : ∃ s ∈ before, s ∈ Command.inspect.own)
    (h : IsFile file) (hback : Gives after back) :
    (run lookup environment (front ++ file :: back)).code = 2 ∧
      run lookup environment (front ++ file :: back) ≠
        run lookup environment (Command.inspect.name :: (front ++ file :: back)) := by
  obtain ⟨refusal, hread, hbefore⟩ := read_shorthand_eq_error hfront hown h back
  have hmisuse : ∃ m, refusal = .misuse m := by
    rcases hbefore with hrefusal | ⟨_, _, _, hrefusal⟩
    · exact ⟨_, hrefusal⟩
    · exact ⟨_, hrefusal⟩
  obtain ⟨m, rfl⟩ := hmisuse
  rw [run_of_misuse hread]
  refine ⟨rfl, ?_⟩
  intro hrun
  cases hrepeated : repeated? (before ++ after) with
  | none =>
      have hcode := code_inspect_of_not_repeated lookup environment hfront h hback hrepeated
      rw [← hrun] at hcode
      exact hcode rfl
  | some s =>
      obtain ⟨hinspect, hmem⟩ :=
        run_inspect_of_repeated lookup environment hfront h hback hrepeated
      rw [hinspect, Output.mk.injEq] at hrun
      obtain ⟨-, -, hwrite⟩ := hrun
      rcases hbefore with hm | ⟨argument, tip, usage, hm⟩
      · cases hm
        exact Environment.write_top_ne hmem hwrite
      · cases hm
        exact Environment.write_unexpected_ne _ _ _ _ _ _ hwrite

/-- Nothing comes again: the verbosities may differ, but not in whether more output is wanted. -/
theorem run_eq_of_not_repeated (hfront : Gives before front)
    (htop : ∀ s ∈ before, s ∈ Command.top.own) (h : IsFile file) (hback : Gives after back)
    (honce : repeated? (before ++ after) = none) :
    run lookup environment (front ++ file :: back) =
      run lookup environment (Command.inspect.name :: (front ++ file :: back)) := by
  obtain ⟨hbefore, hafter⟩ := repeated?_of_append honce
  have hshort := read_shorthand hfront htop h hback
  have hlong := read_inspect hfront h hback
  simp only [hbefore, hafter] at hshort
  rw [honce, inspection_append fun s hs => not_mem_own (htop s hs)] at hlong
  refine run_congr_verbosity hshort hlong rfl ?_
  rw [verbosity_inspection_eq_zero_iff, verbosity_inspection_eq_zero_iff, List.nil_append]

/-- Something comes again: both say so exactly if it comes again among the switches behind the file. -/
theorem run_eq_iff_of_repeated (hfront : Gives before front)
    (htop : ∀ s ∈ before, s ∈ Command.top.own) (h : IsFile file) (hback : Gives after back)
    {s : Switch} (hs : repeated? (before ++ after) = some s) :
    run lookup environment (front ++ file :: back) =
        run lookup environment (Command.inspect.name :: (front ++ file :: back)) ↔
      repeated? before = none ∧ repeated? after = some s := by
  obtain ⟨hlong, hmem⟩ := run_inspect_of_repeated lookup environment hfront h hback hs
  have hread := read_shorthand hfront htop h hback
  rw [hlong]
  cases hbefore : repeated? before with
  | some t =>
      obtain ⟨ht, honce⟩ := mem_of_repeatedBehind? hbefore
      simp only [hbefore, eq_noColour (htop t ht) honce] at hread
      rw [run_of_misuse (m := .repetition .top .noColour) hread, Output.mk.injEq]
      refine iff_of_false ?_ (by simp)
      rintro ⟨-, -, hwrite⟩
      exact Environment.write_top_ne hmem hwrite
  | none =>
      cases hafter : repeated? after with
      | none =>
          simp only [hbefore, hafter] at hread
          refine iff_of_false ?_ (by simp)
          intro hrun
          have hcode := code_of_inspection lookup environment hread
          rw [hrun] at hcode
          exact hcode rfl
      | some t =>
          obtain ⟨ht, honce⟩ := mem_of_repeatedBehind? hafter
          simp only [hbefore, hafter] at hread
          rw [run_of_misuse (m := .repetition .inspect t) hread, Output.mk.injEq]
          simp only [true_and, Option.some.injEq]
          constructor
          · intro hwrite
            exact (Misuse.repetition_inj.mp (Environment.eq_of_write_eq
              (Misuse.mem_repetitions (hback.beside t ht) honce) hmem hwrite)).2
          · rintro rfl
            rfl

theorem run_eq_iff_of_top (hfront : Gives before front) (htop : ∀ s ∈ before, s ∈ Command.top.own)
    (h : IsFile file) (hback : Gives after back) :
    run lookup environment (front ++ file :: back) =
        run lookup environment (Command.inspect.name :: (front ++ file :: back)) ↔
      repeated? before = none ∧ repeated? (before ++ after) = repeated? after := by
  cases hrepeated : repeated? (before ++ after) with
  | some s =>
      rw [run_eq_iff_of_repeated lookup environment hfront htop h hback hrepeated,
        eq_comm (a := some s)]
  | none =>
      have hrun := run_eq_of_not_repeated lookup environment hfront htop h hback hrepeated
      obtain ⟨hbefore, hafter⟩ := repeated?_of_append hrepeated
      exact iff_of_true hrun ⟨hbefore, hafter.symm⟩

/-- A file alone is inspected as if the word for the command stood before it exactly if no switch of
inspections stands before the file, nothing comes again before it, and what comes again behind it does
so without the switches before it. If nothing comes again, then a switch of inspections is understood
behind the word for the command and refused before the file. -/
theorem shorthand_agrees_iff (hfront : Gives before front) (h : IsFile file) (hback : Gives after back) :
    (run lookup environment (front ++ file :: back) =
        run lookup environment (Command.inspect.name :: (front ++ file :: back)) ↔
      (∀ s ∈ before, s ∉ Command.inspect.own) ∧ repeated? before = none ∧
        repeated? (before ++ after) = repeated? after) ∧
    (repeated? (before ++ after) = none →
      (run lookup environment (front ++ file :: back) =
          run lookup environment (Command.inspect.name :: (front ++ file :: back)) ↔
        ∀ s ∈ before, s ∉ Command.inspect.own) ∧
      (run lookup environment (Command.inspect.name :: (front ++ file :: back))).code ≠ 2 ∧
      ((∃ s ∈ before, s ∈ Command.inspect.own) →
        (run lookup environment (front ++ file :: back)).code = 2)) := by
  have hiff : run lookup environment (front ++ file :: back) =
        run lookup environment (Command.inspect.name :: (front ++ file :: back)) ↔
      (∀ s ∈ before, s ∉ Command.inspect.own) ∧ repeated? before = none ∧
        repeated? (before ++ after) = repeated? after := by
    by_cases hnone : ∀ s ∈ before, s ∉ Command.inspect.own
    · have htop : ∀ s ∈ before, s ∈ Command.top.own := fun s hs =>
        (List.mem_append.mp (hfront.beside s hs)).resolve_left (hnone s hs)
      rw [run_eq_iff_of_top lookup environment hfront htop h hback, and_iff_right hnone]
    · -- Whatever is wrong behind the word for the command is said in other words.
      refine iff_of_false ?_ fun hagree => hnone hagree.1
      push Not at hnone
      exact (run_ne_of_own lookup environment hfront hnone h hback).2
  refine ⟨hiff, ?_⟩
  intro honce
  obtain ⟨hbefore, hafter⟩ := repeated?_of_append honce
  refine ⟨?_, code_inspect_of_not_repeated lookup environment hfront h hback honce, ?_⟩
  · rw [hiff, hbefore, honce, hafter]
    simp
  · intro hown
    exact (run_ne_of_own lookup environment hfront hown h hback).1

theorem shorthand_agrees_iff_verbose :
    let files : Lookup := fun _ => .ok (.file (.ok "[root]\n"))
    let environment : Environment := ⟨fun _ => none, ""⟩
    Gives [.verbose, .verbose] ["-vv"] ∧ IsFile "f.toml" ∧
      Gives [.tree, .verbose] ["--tree", "--verbose"] ∧
      run files environment ["-vv", "f.toml", "--tree", "--verbose"] =
        run files environment ["show", "-vv", "f.toml", "--tree", "--verbose"] := by
  intro files environment
  have hletters : List.Forall₂ (fun s letter => Switch.letter? s = some letter)
      [.verbose, .verbose] ['v', 'v'] := .cons rfl (.cons rfl .nil)
  have hspells : Spells [.verbose, .verbose] "-vv" := .letters (by decide) hletters
  have hfront : Gives [.verbose, .verbose] ["-vv"] := ⟨.cons hspells .nil, by decide⟩
  have hback : Gives [.tree, .verbose] ["--tree", "--verbose"] :=
    ⟨.cons (.name .tree) (.cons (.name .verbose) .nil), by decide⟩
  have hfile : IsFile "f.toml" := ⟨by decide, by decide⟩
  refine ⟨hfront, hfile, hback, ?_⟩
  exact (shorthand_agrees_iff files environment hfront hfile hback).1.mpr
    ⟨by decide, by decide, by decide⟩

/-- The tree is printed behind the word for the command. Without the word its switch is unknown, unless
it stands behind the file. -/
theorem tree_before_file_refused :
    let files : Lookup := fun path =>
      if path = "o.toml" then .ok (.file (.ok "[root]\n")) else .error .notFound
    let environment : Environment := ⟨fun _ => none, ""⟩
    (run files environment ["--tree", "o.toml"]).code = 2 ∧
      run files environment ["show", "--tree", "o.toml"] = ⟨0, "<anonymous> (0 statements)\n", ""⟩ ∧
      run files environment ["o.toml", "--tree"] = ⟨0, "<anonymous> (0 statements)\n", ""⟩ := by
  intro files environment
  have hfront : Gives [.tree] ["--tree"] := ⟨.cons (.name .tree) .nil, by decide⟩
  have hfile : IsFile "o.toml" := ⟨by decide, by decide⟩
  have hload : Outline.load "[root]\n" 0 = .ok ⟨none, ⟨none, [], []⟩, none⟩ := by decide +kernel
  have hread : CommandLine.read ["show", "--tree", "o.toml"] =
      .ok ⟨true, 0, .inspect "o.toml" ⟨false, false, true, false⟩⟩ := by decide +kernel
  have hread' : CommandLine.read ["o.toml", "--tree"] =
      .ok ⟨true, 0, .inspect "o.toml" ⟨false, false, true, false⟩⟩ := by decide +kernel
  have htext : Listing.text ⟨false, false, true, false⟩ (Outline.tree ⟨none, ⟨none, [], []⟩, none⟩) =
      "<anonymous> (0 statements)\n" := by decide +kernel
  refine ⟨(run_ne_of_own files environment hfront ⟨.tree, by decide⟩ hfile ⟨.nil, by simp⟩).1, ?_, ?_⟩
  · rw [run_of_quiet rfl rfl hread rfl hload, htext]
  · rw [run_of_quiet rfl rfl hread' rfl hload, htext]

end Program

end BlockOutline
