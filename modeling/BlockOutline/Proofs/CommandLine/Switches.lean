import BlockOutline.CommandLine.Reading
import Mathlib.Data.List.Forall2

/-! # Switches on a command line

A command takes the switches that it is given one after the other. It refuses them exactly if one that
may stand only once comes again, and then it names the first such one. -/

namespace BlockOutline.CommandLine

/-! ## Switches that come again -/

namespace Switch

/-- An argument that gives switches: the name of one behind two dashes, or letters behind one dash. -/
inductive Spells : List Switch → String → Prop where
  | name (s : Switch) : Spells [s] ("--" ++ s.name)
  | letters {switches : List Switch} {letters : List Char} (hne : switches ≠ [])
      (h : List.Forall₂ (fun s letter => s.letter? = some letter) switches letters) :
      Spells switches ("-" ++ String.ofList letters)

/-- Switches that only have to be noted: they have no value, and print no text. -/
def IsNoted (s : Switch) : Prop :=
  s.takesValue = false ∧ s ≠ .help ∧ s ≠ .version

/-- The first switch that comes again though it may stand only once, if some were given before. -/
def repeatedBehind? (given : List Switch) : List Switch → Option Switch
  | [] => none
  | s :: rest =>
    if s ∈ given ∧ ¬s.repeats then some s else repeatedBehind? (given ++ [s]) rest

def repeated? (switches : List Switch) : Option Switch :=
  repeatedBehind? [] switches

theorem repeatedBehind?_append (given xs ys : List Switch) :
    repeatedBehind? given (xs ++ ys) =
      (repeatedBehind? given xs).or (repeatedBehind? (given ++ xs) ys) := by
  induction xs generalizing given with
  | nil => simp [repeatedBehind?]
  | cons s xs ih =>
      rw [List.cons_append, repeatedBehind?, repeatedBehind?]
      split
      · rfl
      · rw [ih, List.append_assoc, List.singleton_append]

theorem repeated?_append (xs ys : List Switch) :
    repeated? (xs ++ ys) = (repeated? xs).or (repeatedBehind? xs ys) :=
  repeatedBehind?_append [] xs ys

/-- What comes only once behind some switches comes only once behind fewer of them. -/
theorem repeatedBehind?_eq_none_of_subset {given given' : List Switch} (hsub : given ⊆ given')
    {switches : List Switch} (h : repeatedBehind? given' switches = none) :
    repeatedBehind? given switches = none := by
  induction switches generalizing given given' with
  | nil => rfl
  | cons s switches ih =>
      rw [repeatedBehind?] at h ⊢
      by_cases hs : s ∈ given' ∧ ¬s.repeats
      · rw [if_pos hs] at h
        cases h
      · rw [if_neg hs] at h
        rw [if_neg fun hgiven => hs ⟨hsub hgiven.1, hgiven.2⟩]
        have hmore : given ++ [s] ⊆ given' ++ [s] :=
          List.append_subset.mpr
            ⟨List.Subset.trans hsub (List.subset_append_left _ _), List.subset_append_right _ _⟩
        exact ih hmore h

theorem repeated?_of_append {xs ys : List Switch} (h : repeated? (xs ++ ys) = none) :
    repeated? xs = none ∧ repeated? ys = none := by
  rw [repeated?_append, Option.or_eq_none_iff] at h
  exact ⟨h.1, repeatedBehind?_eq_none_of_subset (List.nil_subset xs) h.2⟩

theorem mem_of_repeatedBehind? {given switches : List Switch} {s : Switch}
    (h : repeatedBehind? given switches = some s) : s ∈ switches ∧ s.repeats = false := by
  induction switches generalizing given with
  | nil => cases h
  | cons t switches ih =>
      rw [repeatedBehind?] at h
      by_cases ht : t ∈ given ∧ ¬t.repeats
      · rw [if_pos ht] at h
        cases h
        exact ⟨List.mem_cons_self, by simpa using ht.2⟩
      · rw [if_neg ht] at h
        obtain ⟨hs, hrepeats⟩ := ih h
        exact ⟨List.mem_cons_of_mem t hs, hrepeats⟩

end Switch

open Switch

/-! ## What was given -/

namespace Argument

/-- The switches without value among arguments, as often as they stand there. -/
def flags (given : List Argument) : List Switch :=
  given.filterMap fun
    | .switch s => some s
    | _ => none

@[simp] theorem flags_nil : flags [] = [] :=
  rfl

@[simp] theorem flags_append (xs ys : List Argument) : flags (xs ++ ys) = flags xs ++ flags ys := by
  simp [flags]

@[simp] theorem flags_cons_switch (s : Switch) (given : List Argument) :
    flags (.switch s :: given) = s :: flags given :=
  rfl

@[simp] theorem flags_cons_operand (word : String) (given : List Argument) :
    flags (.operand word :: given) = flags given :=
  rfl

@[simp] theorem flags_map_switch (switches : List Switch) : flags (switches.map .switch) = switches := by
  rw [flags, List.filterMap_map]
  exact List.filterMap_some

theorem switch_mem_iff {given : List Argument} {s : Switch} : .switch s ∈ given ↔ s ∈ flags given := by
  simp only [flags, List.mem_filterMap]
  constructor
  · intro h
    exact ⟨_, h, rfl⟩
  · rintro ⟨argument, h, hs⟩
    cases argument <;> cases hs
    exact h

theorem occurrences_eq_count (given : List Argument) (s : Switch) :
    occurrences given s = (flags given).count s := by
  induction given with
  | nil => rfl
  | cons argument given ih =>
      rw [occurrences] at ih
      rw [occurrences, List.count_cons, ih]
      cases argument <;> simp [flags, List.count_cons]

theorem operand?_append (xs ys : List Argument) :
    operand? (xs ++ ys) = (operand? xs).or (operand? ys) := by
  simp [operand?, List.findSome?_append]

theorem operand?_map_switch (switches : List Switch) : operand? (switches.map .switch) = none := by
  simp [operand?]

end Argument

open Argument

namespace Progress

theorem all_take (p : Progress) (argument : Argument) : (p.take argument).all = p.all ++ [argument] := by
  simp [take, all]

theorem all_takeOpen (p : Progress) (argument : Argument) :
    (p.takeOpen argument).all = p.all ++ [argument] := by
  simp [takeOpen, all]

def takeSwitches (p : Progress) (switches : List Switch) : Progress :=
  switches.foldl (fun p s => p.take (.switch s)) p

theorem all_takeSwitches (p : Progress) (switches : List Switch) :
    (p.takeSwitches switches).all = p.all ++ switches.map .switch := by
  induction switches generalizing p with
  | nil => simp [takeSwitches]
  | cons s switches ih =>
      have h := ih (p.take (.switch s))
      rw [all_take, List.append_assoc] at h
      exact h

theorem waiting_takeSwitches {p : Progress} (hp : p.waiting = none) (switches : List Switch) :
    (p.takeSwitches switches).waiting = none := by
  induction switches generalizing p with
  | nil => exact hp
  | cons s switches ih => exact ih (p := p.take (.switch s)) rfl

end Progress

/-! ## Reading switches -/

/-- Arguments that give switches, in their order. -/
inductive Spelled : List Switch → List String → Prop where
  | nil : Spelled [] []
  | cons {switches rest argument arguments} (h : Spells switches argument)
      (hrest : Spelled rest arguments) : Spelled (switches ++ rest) (argument :: arguments)

namespace Command

theorem form_name (s : Switch) : Form.of ("--" ++ s.name) = .long s.name none := by
  cases s <;> rfl

theorem ne_dash_of_letter {s : Switch} {letter : Char} (h : s.letter? = some letter) : letter ≠ '-' := by
  cases s <;> cases h <;> decide

theorem form_letters {switches : List Switch} {letters : List Char} (hne : switches ≠ [])
    (h : List.Forall₂ (fun s letter => s.letter? = some letter) switches letters) :
    Form.of ("-" ++ String.ofList letters) = .letters letters := by
  cases h with
  | nil => exact absurd rfl hne
  | @cons s letter switches letters hletter _ =>
      have hdash := ne_dash_of_letter hletter
      have hchars : ("-" ++ String.ofList (letter :: letters)).toList = '-' :: letter :: letters := by
        simp
      unfold Form.of
      rw [hchars]
      split <;> simp_all

theorem named?_name {c : Command} {s : Switch} (h : s ∈ c.switches) : c.named? s.name = some s := by
  revert s
  cases c <;> decide

theorem lettered?_letter {c : Command} {s : Switch} {letter : Char} (hs : s ∈ c.switches)
    (h : s.letter? = some letter) : c.lettered? letter = some s := by
  cases c <;> cases s <;> cases h <;> revert hs <;> decide

theorem takeSwitch_eq {c : Command} {p : Progress} {s : Switch} (hp : p.waiting = none)
    (hs : s.IsNoted) :
    c.takeSwitch p s =
      if s ∈ flags p.all ∧ ¬s.repeats then c.refuse (.repeated s) none (some .whole)
      else .ok (p.take (.switch s)) := by
  obtain ⟨-, hhelp, hversion⟩ := hs
  simp only [← switch_mem_iff]
  cases s <;> simp [takeSwitch, settle, hp, pure, Except.pure, bind, Except.bind] at *

/-- Switches are all taken, or the first of them that comes again is refused. -/
theorem foldlM_takeSwitch {c : Command} {switches : List Switch} (hs : ∀ s ∈ switches, s.IsNoted)
    {p : Progress} (hp : p.waiting = none) :
    switches.foldlM c.takeSwitch p =
      match repeatedBehind? (flags p.all) switches with
      | some s => c.refuse (.repeated s) none (some .whole)
      | none => .ok (p.takeSwitches switches) := by
  induction switches generalizing p with
  | nil => rfl
  | cons s switches ih =>
      have hrest := ih (fun t ht => hs t (List.mem_cons_of_mem s ht)) (p := p.take (.switch s)) rfl
      rw [Progress.all_take, flags_append, flags_cons_switch, flags_nil] at hrest
      rw [List.foldlM_cons, takeSwitch_eq hp (hs s List.mem_cons_self), repeatedBehind?]
      split
      · rfl
      · exact hrest

section Read

variable {c : Command} {switches : List Switch}

theorem takeLetters_eq {letters : List Char}
    (h : List.Forall₂ (fun s letter => s.letter? = some letter) switches letters)
    (hs : ∀ s ∈ switches, s ∈ c.switches ∧ s.IsNoted) (p : Progress) :
    c.takeLetters p letters = switches.foldlM c.takeSwitch p := by
  induction h generalizing p with
  | nil => rfl
  | @cons s letter switches letters hletter _ ih =>
      obtain ⟨hmem, hnoted⟩ := hs s List.mem_cons_self
      have hrest := ih fun t ht => hs t (List.mem_cons_of_mem s ht)
      rw [takeLetters, lettered?_letter hmem hletter, List.foldlM_cons]
      simp only [hnoted.1, Bool.false_eq_true, if_false, hrest]

/-- An argument that gives switches is read by taking them. -/
theorem readArguments_cons {argument : String} (h : Spells switches argument)
    (hs : ∀ s ∈ switches, s ∈ c.switches ∧ s.IsNoted) (p : Progress) (rest : List String) :
    c.readArguments p (argument :: rest) =
      switches.foldlM c.takeSwitch p >>= (c.readArguments · rest) := by
  cases h with
  | name s =>
      obtain ⟨hmem, hnoted⟩ := hs s List.mem_cons_self
      rw [readArguments, form_name]
      simp only [takeLong, named?_name hmem, hnoted.1, List.foldlM_cons, List.foldlM_nil, bind_pure]
      rfl
  | letters hne h =>
      rw [readArguments, form_letters hne h]
      simp only [takeLetters_eq h hs]

theorem readArguments_spelled {arguments : List String} (h : Spelled switches arguments)
    (hs : ∀ s ∈ switches, s ∈ c.switches ∧ s.IsNoted) (p : Progress) (rest : List String) :
    c.readArguments p (arguments ++ rest) =
      switches.foldlM c.takeSwitch p >>= (c.readArguments · rest) := by
  induction h generalizing p with
  | nil => rfl
  | cons hspells _ ih =>
      obtain ⟨hfirst, hmore⟩ := List.forall_mem_append.mp hs
      rw [List.cons_append, readArguments_cons hspells hfirst, List.foldlM_append, bind_assoc]
      simp only [ih hmore]

/-- Behind switches a command goes on with its arguments, or has refused the first switch that comes
again. -/
theorem readArguments_switches {arguments : List String} (h : Spelled switches arguments)
    (hs : ∀ s ∈ switches, s ∈ c.switches ∧ s.IsNoted) {p : Progress} (hp : p.waiting = none)
    (rest : List String) :
    c.readArguments p (arguments ++ rest) =
      match repeatedBehind? (flags p.all) switches with
      | some s => c.refuse (.repeated s) none (some .whole)
      | none => c.readArguments (p.takeSwitches switches) rest := by
  rw [readArguments_spelled h hs, foldlM_takeSwitch (fun s hmem => (hs s hmem).2) hp]
  cases repeatedBehind? (flags p.all) switches with
  | some s => rfl
  | none => rfl

end Read

end Command

end BlockOutline.CommandLine
