import BlockOutline.Proofs.CommandLine.Switches
import BlockOutline.Proofs.Text.Pieces

/-! # Command lines about one file

A file that stands between switches is inspected. What is read depends only on the switches before the
file and behind it, and on which of them stand before the word for the command. -/

namespace BlockOutline.CommandLine

open Argument Switch

/-- A word that names a file: it does not begin with a dash and is no command. -/
def IsFile (word : String) : Prop :=
  word.toList.head? ≠ some '-' ∧ word ∉ Command.top.subcommands.map Command.name

/-- Arguments that give switches which can stand beside a file: those for all commands, and those for
inspections alone. -/
structure Gives (switches : List Switch) (arguments : List String) : Prop where
  spelled : Spelled switches arguments
  beside : ∀ s ∈ switches, s ∈ Command.inspect.own ++ Command.top.own

namespace IsFile

variable {file : String}

theorem beginsWith_eq_false (h : IsFile file) : Text.beginsWith file "-" = false := by
  obtain ⟨hhead, -⟩ := h
  rw [Bool.eq_false_iff]
  intro hdash
  obtain ⟨rest, hrest⟩ := Text.beginsWith_iff.mp hdash
  exact hhead (by simp [hrest])

theorem form_eq (h : IsFile file) : Form.of file = .word := by
  obtain ⟨hhead, -⟩ := h
  unfold Form.of
  split <;> simp_all

theorem subcommand?_eq_none (h : IsFile file) : Command.top.subcommand? file = none := by
  obtain ⟨-, hname⟩ := h
  rw [Command.subcommand?, List.find?_eq_none]
  intro c hc hfile
  exact hname (List.mem_map.mpr ⟨c, hc, of_decide_eq_true hfile⟩)

end IsFile

namespace Switch

variable {s : Switch}

theorem isNoted_of_beside (h : s ∈ Command.inspect.own ++ Command.top.own) :
    s ∈ Command.inspect.switches ∧ s.IsNoted := by
  cases s <;> revert h <;> simp [Command.own, Command.switches, IsNoted, takesValue, valueName?]

theorem isNoted_of_mem_own (h : s ∈ Command.top.own) : s ∈ Command.top.switches ∧ s.IsNoted :=
  ⟨List.mem_append_left _ h, (isNoted_of_beside (List.mem_append_right _ h)).2⟩

/-- The program itself does not know the switches of inspections. -/
theorem unknown_of_mem_own (h : s ∈ Command.inspect.own) :
    Command.top.named? s.name = none ∧ s.letter? = none := by
  revert s
  decide

theorem not_mem_own (h : s ∈ Command.top.own) : s ∉ Command.inspect.own := by
  revert s
  decide

theorem eq_noColour (h : s ∈ Command.top.own) (honce : s.repeats = false) : s = .noColour := by
  revert s
  decide

end Switch

/-! ## The word for the command -/

section WithCommand

variable {switches : List Switch} {arguments : List String}

theorem beginsWith_of_spells {argument : String} (h : Spells switches argument) :
    Text.beginsWith argument "-" = true := by
  rw [Text.beginsWith_iff]
  have hdashes : "--" = "-" ++ "-" := rfl
  cases h with
  | name s => exact ⟨"-" ++ s.name, by rw [hdashes, String.append_assoc]⟩
  | letters _ _ => exact ⟨_, rfl⟩

theorem withCommand_append (h : Spelled switches arguments) (rest : List String) :
    withCommand (arguments ++ rest) = arguments ++ withCommand rest := by
  induction h with
  | nil => rfl
  | cons hspells _ ih =>
      rw [List.cons_append, withCommand, if_pos (beginsWith_of_spells hspells), ih, List.cons_append]

theorem withCommand_file {file : String} (h : IsFile file) (rest : List String) :
    withCommand (file :: rest) = Command.inspect.name :: file :: rest := by
  rw [withCommand, h.beginsWith_eq_false, h.subcommand?_eq_none]
  rfl

theorem withCommand_inspect (rest : List String) :
    withCommand (Command.inspect.name :: rest) = Command.inspect.name :: rest := by
  have hdash : Text.beginsWith Command.inspect.name "-" = false := rfl
  rw [withCommand, hdash]
  rfl

end WithCommand

/-! ## Reading -/

/-- What is refused before the word for the command: a switch that comes again, or one that the program
itself does not know. -/
def Refusal.BeforeCommand (refusal : Refusal) : Prop :=
  refusal = .misuse ⟨.top, .repeated .noColour, none, some .whole⟩ ∨ ∃ argument tip usage,
    refusal = .misuse ⟨.top, .unexpectedArgument argument, tip, usage⟩

namespace Command

theorem readArguments_inspect_name {p : Progress} (hp : p.waiting = none) (rest : List String) :
    top.readArguments p (inspect.name :: rest) = .ok (p, some (.inspect, rest)) := by
  have hform : Form.of inspect.name = .word := rfl
  have hsub : top.subcommand? inspect.name = some .inspect := by decide
  rw [readArguments, hform]
  simp only [hp, hsub]
  rfl

theorem readArguments_file {file : String} (h : IsFile file) {p : Progress} (hp : p.waiting = none)
    (hnone : Argument.operand? p.all = none) (rest : List String) :
    inspect.readArguments p (file :: rest) =
      inspect.readArguments (p.takeOpen (.operand file)) rest := by
  have hsub : inspect.subcommand? file = none := rfl
  rw [readArguments, h.form_eq]
  simp only [hp, hsub, takeWord, hnone, settle]
  rfl

/-- What is known of an inspection when its arguments are read. -/
def inspecting (before : List Switch) (file : String) (after : List Switch) : Progress :=
  ((Progress.takeSwitches {} before).takeOpen (.operand file)).takeSwitches after

theorem all_inspecting (before : List Switch) (file : String) (after : List Switch) :
    (inspecting before file after).all =
      before.map .switch ++ [.operand file] ++ after.map .switch := by
  rw [inspecting, Progress.all_takeSwitches, Progress.all_takeOpen, Progress.all_takeSwitches]
  rfl

theorem readArguments_inspect {before after : List Switch} {front back : List String} {file : String}
    (hfront : Gives before front) (h : IsFile file) (hback : Gives after back) :
    inspect.readArguments {} (front ++ file :: back) =
      match repeated? (before ++ after) with
      | some s => inspect.refuse (.repeated s) none (some .whole)
      | none => .ok (inspecting before file after, none) := by
  have noted {ss : List Switch} {arguments : List String} (h : Gives ss arguments) :=
    fun s hs => isNoted_of_beside (h.beside s hs)
  have hbefore := readArguments_switches hfront.spelled (noted hfront) (p := {}) rfl (file :: back)
  have hnil : flags ({} : Progress).all = [] := rfl
  rw [hbefore, hnil, repeated?_append, repeated?]
  cases repeatedBehind? [] before with
  | some s => rfl
  | none =>
      have hall : (Progress.takeSwitches {} before).all = before.map .switch :=
        Progress.all_takeSwitches {} before
      have hp := Progress.waiting_takeSwitches (p := {}) rfl before
      have hnone : Argument.operand? (Progress.takeSwitches {} before).all = none := by
        rw [hall, operand?_map_switch]
      have hflags : flags ((Progress.takeSwitches {} before).takeOpen (.operand file)).all = before := by
        simp [Progress.all_takeOpen, hall]
      have hafter := readArguments_switches hback.spelled (noted hback)
        (p := (Progress.takeSwitches {} before).takeOpen (.operand file)) rfl []
      rw [List.append_nil, hflags] at hafter
      simp only [Option.none_or]
      rw [readArguments_file h hp hnone, hafter]
      rfl

theorem refuseName_eq_error (c : Command) (p : Progress) (name : String) (later : List String) :
    ∃ tip usage, c.refuseName p name later =
      (.error (.misuse ⟨c, .unexpectedArgument ("--" ++ name), tip, usage⟩) : Except Refusal Progress) := by
  rw [refuseName]
  cases c.similarSwitch? name with
  | some s => exact ⟨_, _, rfl⟩
  | none => exact ⟨_, _, rfl⟩

/-- No letter gives a switch of inspections, so such a switch stands in an argument by itself. -/
theorem readArguments_own {switches : List Switch} {argument : String} (h : Spells switches argument)
    {s : Switch} (hs : s ∈ switches) (hown : s ∈ inspect.own) (p : Progress) (rest : List String) :
    ∃ refusal, top.readArguments p (argument :: rest) = .error refusal ∧ refusal.BeforeCommand := by
  cases h with
  | name t =>
      obtain rfl := List.mem_singleton.mp hs
      obtain ⟨tip, usage, hrefuse⟩ := refuseName_eq_error top p s.name rest
      refine ⟨_, ?_, .inr ⟨"--" ++ s.name, tip, usage, rfl⟩⟩
      rw [readArguments, form_name]
      simp only [takeLong, (unknown_of_mem_own hown).1, hrefuse]
      rfl
  | letters _ h =>
      obtain ⟨i, rfl⟩ := List.get_of_mem hs
      have hletter := h.get i.isLt (h.length_eq ▸ i.isLt)
      cases (unknown_of_mem_own hown).2.symm.trans hletter

/-- A switch of inspections before the word for the command is refused, unless a switch before it is. -/
theorem readArguments_top_eq_error {before : List Switch} {front : List String}
    (hfront : Gives before front) (hown : ∃ s ∈ before, s ∈ inspect.own) {p : Progress}
    (hp : p.waiting = none) (rest : List String) :
    ∃ refusal, top.readArguments p (front ++ rest) = .error refusal ∧ refusal.BeforeCommand := by
  obtain ⟨hspelled, hbeside⟩ := hfront
  induction hspelled generalizing p with
  | nil =>
      obtain ⟨s, hs, -⟩ := hown
      cases hs
  | @cons switches before argument front hspells _ ih =>
      obtain ⟨hbeside, hmore⟩ := List.forall_mem_append.mp hbeside
      by_cases hfirst : ∃ s ∈ switches, s ∈ inspect.own
      · obtain ⟨s, hs, hsown⟩ := hfirst
        exact readArguments_own hspells hs hsown p (front ++ rest)
      · have htop : ∀ s ∈ switches, s ∈ top.own := fun s hs =>
          (List.mem_append.mp (hbeside s hs)).resolve_left fun hsown => hfirst ⟨s, hs, hsown⟩
        have hrest : ∃ s ∈ before, s ∈ inspect.own := by
          obtain ⟨s, hs, hsown⟩ := hown
          exact ⟨s, (List.mem_append.mp hs).resolve_left fun hs => hfirst ⟨s, hs, hsown⟩, hsown⟩
        have hnoted := fun s hs => isNoted_of_mem_own (htop s hs)
        rw [List.cons_append, readArguments_cons hspells hnoted,
          foldlM_takeSwitch (fun s hs => (hnoted s hs).2) hp]
        cases hagain : repeatedBehind? (flags p.all) switches with
        | some s =>
            obtain ⟨hs, honce⟩ := mem_of_repeatedBehind? hagain
            exact ⟨_, rfl, .inl (by rw [eq_noColour (htop s hs) honce])⟩
        | none => exact ih hrest (Progress.waiting_takeSwitches hp switches) hmore

end Command

/-- An inspection as it is understood. Some switches stand before the word for the command and others
behind it; of the verbosities the latter counts, if it is given. -/
def inspection (outer inner : List Switch) (file : String) : Invocation where
  colours := decide (.noColour ∉ outer ++ inner)
  verbosity := if .verbose ∈ inner then inner.count .verbose else outer.count .verbose
  task := .inspect file ⟨decide (.prototypes ∈ inner), decide (.statements ∈ inner),
    decide (.tree ∈ inner), decide (.dump ∈ inner)⟩

section Read

variable {before after : List Switch} {front back : List String} {file : String}

theorem read_eq_of_readArguments {arguments rest : List String} {outer : Progress}
    (houter : Command.top.readArguments {} (withCommand arguments) =
      .ok (outer, some (.inspect, rest)))
    (hinner : Command.inspect.readArguments {} rest =
      match repeated? (before ++ after) with
      | some s => Command.inspect.refuse (.repeated s) none (some .whole)
      | none => .ok (Command.inspecting before file after, none)) :
    read arguments =
      match repeated? (before ++ after) with
      | some s => Command.inspect.refuse (.repeated s) none (some .whole)
      | none => .ok (inspection (flags outer.all) (before ++ after) file) := by
  have hwaiting : (Command.inspecting before file after).waiting = none :=
    Progress.waiting_takeSwitches rfl after
  have hall := Command.all_inspecting before file after
  have hoperand : Argument.operand? (Command.inspecting before file after).all = some file := by
    rw [hall, operand?_append, operand?_append, operand?_map_switch]
    rfl
  have hflags : flags (Command.inspecting before file after).all = before ++ after := by
    simp [hall]
  rw [read, houter]
  simp only [bind, Except.bind]
  rw [hinner]
  cases repeated? (before ++ after) with
  | some s => rfl
  | none =>
      simp only [Command.settle, hwaiting, hoperand, Task.of, occurrences_eq_count, switch_mem_iff,
        flags_append, hflags, gt_iff_lt, List.count_pos_iff]
      rfl

/-- A file and its switches behind the word for the command. -/
theorem read_inspect (hfront : Gives before front) (h : IsFile file) (hback : Gives after back) :
    read (Command.inspect.name :: (front ++ file :: back)) =
      match repeated? (before ++ after) with
      | some s => Command.inspect.refuse (.repeated s) none (some .whole)
      | none => .ok (inspection [] (before ++ after) file) := by
  have houter : Command.top.readArguments {}
      (withCommand (Command.inspect.name :: (front ++ file :: back))) =
        .ok ({}, some (.inspect, front ++ file :: back)) := by
    rw [withCommand_inspect, Command.readArguments_inspect_name rfl]
  exact read_eq_of_readArguments houter (Command.readArguments_inspect hfront h hback)

/-- A file and its switches without the word for the command, which is put before the file. Only
switches for all commands can stand before it. -/
theorem read_shorthand (hfront : Gives before front) (htop : ∀ s ∈ before, s ∈ Command.top.own)
    (h : IsFile file) (hback : Gives after back) :
    read (front ++ file :: back) =
      match repeated? before with
      | some s => Command.top.refuse (.repeated s) none (some .whole)
      | none =>
        match repeated? after with
        | some s => Command.inspect.refuse (.repeated s) none (some .whole)
        | none => .ok (inspection before after file) := by
  have hline : withCommand (front ++ file :: back) =
      front ++ Command.inspect.name :: file :: back := by
    rw [withCommand_append hfront.spelled, withCommand_file h]
  have hbefore := Command.readArguments_switches hfront.spelled
    (fun s hs => isNoted_of_mem_own (htop s hs)) (p := {}) rfl (Command.inspect.name :: file :: back)
  have hnil : flags ({} : Progress).all = [] := rfl
  rw [hnil, ← repeated?] at hbefore
  cases hrepeated : repeated? before with
  | some s =>
      rw [hrepeated] at hbefore
      rw [read, hline, hbefore]
      rfl
  | none =>
      rw [hrepeated] at hbefore
      have hp := Progress.waiting_takeSwitches (p := {}) rfl before
      have hflags : flags (Progress.takeSwitches {} before).all = before := by
        rw [Progress.all_takeSwitches]
        simp [Progress.all]
      have houter : Command.top.readArguments {} (withCommand (front ++ file :: back)) =
          .ok (Progress.takeSwitches {} before, some (.inspect, file :: back)) := by
        rw [hline, hbefore]
        exact Command.readArguments_inspect_name hp _
      have hnothing : Gives [] [] := ⟨.nil, by simp⟩
      have hread := read_eq_of_readArguments houter (Command.readArguments_inspect hnothing h hback)
      rw [hflags] at hread
      exact hread

theorem read_shorthand_eq_error (hfront : Gives before front)
    (hown : ∃ s ∈ before, s ∈ Command.inspect.own) (h : IsFile file) (back : List String) :
    ∃ refusal, read (front ++ file :: back) = .error refusal ∧ refusal.BeforeCommand := by
  obtain ⟨refusal, herror, hbefore⟩ := Command.readArguments_top_eq_error hfront hown (p := {}) rfl
    (Command.inspect.name :: file :: back)
  refine ⟨refusal, ?_, hbefore⟩
  rw [read, withCommand_append hfront.spelled, withCommand_file h, herror]
  rfl

end Read

end BlockOutline.CommandLine
