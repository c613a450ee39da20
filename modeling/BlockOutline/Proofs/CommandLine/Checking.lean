import BlockOutline.Proofs.CommandLine.Switches

/-! # Command lines about fixtures

What stands behind the letter for categories is a request if it is a word. Otherwise it is taken for a
switch, and the request is missing. -/

namespace BlockOutline.CommandLine

open Argument

/-- An argument that does not begin with a dash, or is nothing else. -/
def IsWord (argument : String) : Prop :=
  argument.toList.head? ≠ some '-' ∨ argument = "-"

instance (argument : String) : Decidable (IsWord argument) :=
  inferInstanceAs (Decidable (argument.toList.head? ≠ some '-' ∨ argument = "-"))

theorem form_eq_word_iff {argument : String} : Form.of argument = .word ↔ IsWord argument := by
  have hdash : argument = "-" ↔ argument.toList = ['-'] := by
    rw [← String.toList_inj]
    rfl
  rw [IsWord, hdash]
  unfold Form.of
  split
  · next h => simp [h]
  · next h => simp [h]
  · next h => simp [h]
  · next h =>
    refine iff_of_true rfl ?_
    match hchars : argument.toList with
    | [] => exact .inl (by simp)
    | [c] => simpa using ne_or_eq c '-'
    | c :: d :: cs =>
        refine .inl fun hhead => h d cs ?_
        rw [hchars, Option.some.inj hhead]

/-- The arguments that make requests. -/
def requesting (requests : List String) : List String :=
  requests.flatMap fun request => ["-c", request]

namespace Command

/-- The letter waits for the word behind it. -/
theorem readArguments_category {p : Progress} (hp : p.waiting = none) (rest : List String) :
    check.readArguments p ("-c" :: rest) =
      check.readArguments ⟨p.all, none, some .category⟩ rest := by
  have hform : Form.of "-c" = .letters ['c'] := rfl
  have hletter : check.lettered? 'c' = some .category := by decide
  have htakes : Switch.category.takesValue = true := rfl
  have htake : check.takeLetters p ['c'] = .ok ⟨p.all, none, some .category⟩ := by
    simp only [takeLetters, hletter, htakes, takeValue, settle, hp]
    rfl
  rw [readArguments, hform]
  simp only [htake]
  rfl

theorem readArguments_value {p : Progress} {s : Switch} (hp : p.waiting = some s) {word : String}
    (h : IsWord word) (c : Command) (rest : List String) :
    c.readArguments p (word :: rest) = c.readArguments (p.takeOpen (.value s word)) rest := by
  rw [readArguments, form_eq_word_iff.mpr h]
  simp only [hp]

theorem readArguments_operand {p : Progress} (hp : p.waiting = none)
    (hnone : Argument.operand? p.all = none) {word : String} (h : IsWord word) (rest : List String) :
    check.readArguments p (word :: rest) =
      check.readArguments (p.takeOpen (.operand word)) rest := by
  have hsub : check.subcommand? word = none := rfl
  rw [readArguments, form_eq_word_iff.mpr h]
  simp only [hp, hsub, takeWord, hnone, settle]
  rfl

theorem readArguments_requesting {requests : List String} (h : ∀ request ∈ requests, IsWord request)
    {p : Progress} (hp : p.waiting = none) :
    ∃ p', check.readArguments p (requesting requests) = .ok (p', none) ∧ p'.waiting = none ∧
      p'.all = p.all ++ requests.map (.value .category) := by
  induction requests generalizing p with
  | nil => exact ⟨p, rfl, hp, (List.append_nil _).symm⟩
  | cons request requests ih =>
      have hrest := fun r hr => h r (List.mem_cons_of_mem request hr)
      let q : Progress := (Progress.mk p.all none (some .category)).takeOpen (.value .category request)
      have hq : q.all = p.all ++ [.value .category request] := by
        simp [q, Progress.all, Progress.takeOpen]
      obtain ⟨p', hread, hp', hall⟩ := ih hrest (p := q) rfl
      refine ⟨p', ?_, hp', ?_⟩
      · rw [requesting, List.flatMap_cons, ← requesting]
        exact (readArguments_category hp _).trans
          ((readArguments_value rfl (h request List.mem_cons_self) check _).trans hread)
      · rw [hall, hq, List.append_assoc]
        rfl

/-! ## Where a request is missing -/

section Waiting

variable {p : Progress} {s : Switch} (hp : p.waiting = some s) (c : Command)

include hp

theorem settle_of_waiting : c.settle p = c.refuse (.missingValue s) none none := by
  simp only [settle, hp]

theorem takeSwitch_of_waiting (t : Switch) : ∃ refusal, c.takeSwitch p t = .error refusal := by
  unfold takeSwitch
  rw [settle_of_waiting hp]
  exact ⟨_, rfl⟩

theorem takeValue_of_waiting (t : Switch) (value : Option String) :
    ∃ refusal, c.takeValue p t value = .error refusal := by
  unfold takeValue
  rw [settle_of_waiting hp]
  exact ⟨_, rfl⟩

theorem takeLong_of_waiting (name : String) (value : Option String) (later : List String) :
    ∃ refusal, c.takeLong p name value later = .error refusal := by
  unfold takeLong
  split
  · unfold refuseName
    split <;> exact ⟨_, rfl⟩
  · split
    · exact takeValue_of_waiting hp c _ _
    · split
      · exact ⟨_, rfl⟩
      · exact takeSwitch_of_waiting hp c _

theorem takeLetters_of_waiting {letters : List Char} (hne : letters ≠ []) :
    ∃ refusal, c.takeLetters p letters = .error refusal := by
  obtain ⟨letter, more, rfl⟩ := List.exists_cons_of_ne_nil hne
  unfold takeLetters
  split
  · exact ⟨_, rfl⟩
  · next t _ =>
    split
    · exact takeValue_of_waiting hp c t _
    · obtain ⟨refusal, hrefusal⟩ := takeSwitch_of_waiting hp c t
      rw [hrefusal]
      exact ⟨refusal, rfl⟩

/-- What is no word gives no value, so the switch is refused, or still waits at the end. -/
theorem readArguments_of_waiting {argument : String} (h : ¬IsWord argument) :
    (∃ refusal, c.readArguments p [argument] = .error refusal) ∨
      c.readArguments p [argument] = .ok (p, none) := by
  rw [readArguments]
  cases hform : Form.of argument with
  | word => exact absurd (form_eq_word_iff.mp hform) h
  | dashes => exact .inr rfl
  | long name value =>
      obtain ⟨refusal, hrefusal⟩ := takeLong_of_waiting hp c name value []
      simp only [hrefusal]
      exact .inl ⟨refusal, rfl⟩
  | letters letters =>
      by_cases hne : letters = []
      · subst hne
        exact .inr rfl
      · obtain ⟨refusal, hrefusal⟩ := takeLetters_of_waiting hp c hne
        simp only [hrefusal]
        exact .inl ⟨refusal, rfl⟩

end Waiting

end Command

/-! ## Checks -/

namespace Argument

variable (path : String) (requests : List String)

/-- What is given with a check: the path, and then the requests. -/
def checking : List Argument :=
  .operand path :: requests.map (.value .category)

theorem occurrences_checking (s : Switch) : occurrences (checking path requests) s = 0 := by
  simp [occurrences, checking, List.count_eq_zero]

theorem values_checking : values (checking path requests) .category = requests := by
  simp [values, checking, List.filterMap_map]

end Argument

section Read

variable {path : String} (hpath : IsWord path)

theorem withCommand_test (rest : List String) : withCommand ("test" :: rest) = "test" :: rest := by
  have hsub : Command.top.subcommand? "test" = some .check := by decide
  have hdash : Text.beginsWith "test" "-" = false := by decide
  rw [withCommand, hdash, hsub]
  rfl

theorem readArguments_test (rest : List String) :
    Command.top.readArguments {} ("test" :: rest) = .ok ({}, some (.check, rest)) := by
  have hform : Form.of "test" = .word := rfl
  have hsub : Command.top.subcommand? "test" = some .check := by decide
  rw [Command.readArguments, hform]
  simp only [hsub]
  rfl

include hpath

/-- A check of a path with some requests is read as that. -/
theorem read_check {requests : List String} (hrequests : ∀ request ∈ requests, IsWord request) :
    read ("test" :: path :: requesting requests) = .ok ⟨true, 0, .check path requests⟩ := by
  obtain ⟨p, hread, hwaiting, hall⟩ := Command.readArguments_requesting hrequests
    (p := ({} : Progress).takeOpen (.operand path)) rfl
  have hinner : Command.check.readArguments {} (path :: requesting requests) = .ok (p, none) :=
    (Command.readArguments_operand rfl rfl hpath _).trans hread
  have hgiven : p.all = checking path requests := hall
  have hbefore : ({} : Progress).all = [] := rfl
  have hcolour : Argument.switch .noColour ∉ checking path requests := by simp [checking]
  have hoperand : Argument.operand? (checking path requests) = some path := rfl
  unfold read
  rw [withCommand_test, readArguments_test]
  simp only [bind, Except.bind, hinner, Command.settle, hwaiting, hgiven, hoperand,
    occurrences_checking, Task.of, values_checking]
  simp only [hbefore, List.nil_append, hcolour, not_false_eq_true, decide_true]
  rfl

/-- What is no word is no request. -/
theorem read_check_eq_error {request : String} (h : ¬IsWord request) :
    ∃ refusal, read ["test", path, "-c", request] = .error refusal := by
  let q : Progress := ⟨[.operand path], none, some .category⟩
  have hinner : Command.check.readArguments {} [path, "-c", request] =
      Command.check.readArguments q [request] :=
    (Command.readArguments_operand rfl rfl hpath _).trans (Command.readArguments_category rfl _)
  unfold read
  rw [withCommand_test, readArguments_test]
  simp only [bind, Except.bind, hinner]
  rcases Command.readArguments_of_waiting (p := q) rfl .check h with ⟨refusal, hq⟩ | hq
  · simp only [hq]
    exact ⟨refusal, rfl⟩
  · simp only [hq, Command.settle_of_waiting (p := q) rfl]
    exact ⟨_, rfl⟩

end Read

end BlockOutline.CommandLine
