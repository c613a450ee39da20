import Mathlib.Data.Nat.Notation
import BlockOutline.Program

/-! # Verbosity

All that is logged about a single file is for debugging. A verbosity of more than one lets nothing
else through, so for a single file it only matters whether more output is wanted at all. -/

namespace BlockOutline

open Terminal Log

namespace Log.Filter

/-- What is logged of debugging by a filter for everything and one for this program alone. -/
theorem allows_debug_iff (level : Level) (target : String) (fields : List String) :
    allows [⟨"", [], .warn⟩, ⟨"codeblock", [], level⟩] .debug target fields = true ↔
      Text.beginsWith target "codeblock" = true ∧ Level.debug.rank ≤ level.rank := by
  have hall : Directive.covers ⟨"", [], .warn⟩ target fields = true := by
    simp [Directive.covers, Text.beginsWith]
  have hown : Directive.covers ⟨"codeblock", [], level⟩ target fields =
      Text.beginsWith target "codeblock" := by
    simp [Directive.covers]
  cases hbegins : Text.beginsWith target "codeblock" with
  | false =>
      rw [hbegins] at hown
      simp [allows, deciding?, hall, hown, Level.rank]
  | true =>
      rw [hbegins] at hown
      have hlonger : "".length < "codeblock".length := by decide
      have hmore : Directive.atMost ⟨"", [], .warn⟩ ⟨"codeblock", [], level⟩ = true :=
        Bool.or_eq_true_iff.mpr (.inl (decide_eq_true hlonger))
      simp [allows, deciding?, hall, hown, hmore]

/-- The filter that a verbosity asks for lets through what this program logs for debugging, if more
output is wanted at all. -/
theorem ofText_requested (verbosity : ℕ) :
    ∃ level, (Level.debug.rank ≤ level.rank ↔ verbosity ≠ 0) ∧
      ofText (requested none none verbosity) =
        ([⟨"", [], .warn⟩, ⟨"codeblock", [], level⟩], []) := by
  match verbosity with
  | 0 => exact ⟨.warn, by decide, rfl⟩
  | 1 => exact ⟨.debug, by decide, rfl⟩
  | verbosity + 2 =>
      have htwo : ofText (requested none none 2) =
          ([⟨"", [], .warn⟩, ⟨"codeblock", [], .trace⟩], []) := rfl
      exact ⟨.trace, by simp [Level.rank], htwo⟩

end Log.Filter

namespace Environment

theorem logFilter_of_unset {e : Environment} (hown : e.find? "CODEBLOCK_LOG" = none)
    (hgeneral : e.find? "RUST_LOG" = none) (verbosity : ℕ) :
    (e.logFilter verbosity).2 = [] ∧ ∀ target fields,
      ((e.logFilter verbosity).1.allows .debug target fields = true ↔
        Text.beginsWith target "codeblock" = true ∧ verbosity ≠ 0) := by
  obtain ⟨level, hlevel, hfilter⟩ := Filter.ofText_requested verbosity
  rw [logFilter, hown, hgeneral, hfilter]
  refine ⟨rfl, ?_⟩
  intro target fields
  rw [Filter.allows_debug_iff, hlevel]

/-- Whether more output is wanted decides what is logged for debugging, and all complaints. -/
theorem logFilter_congr (e : Environment) {v w : ℕ} (h : v = 0 ↔ w = 0) :
    (e.logFilter v).2 = (e.logFilter w).2 ∧ ∀ target fields,
      (e.logFilter v).1.allows .debug target fields = (e.logFilter w).1.allows .debug target fields := by
  cases hown : e.find? "CODEBLOCK_LOG" with
  | some own => simp [logFilter, hown, Filter.requested]
  | none =>
      cases hgeneral : e.find? "RUST_LOG" with
      | some general => simp [logFilter, hown, hgeneral, Filter.requested]
      | none =>
          obtain ⟨hcomplaints, hallows⟩ := logFilter_of_unset hown hgeneral v
          obtain ⟨hcomplaints', hallows'⟩ := logFilter_of_unset hown hgeneral w
          refine ⟨hcomplaints.trans hcomplaints'.symm, ?_⟩
          intro target fields
          rw [Bool.eq_iff_iff, hallows, hallows', ne_eq, ne_eq, h]

end Environment

namespace Program

/-- All that is logged about a single file is for debugging. -/
theorem level_of_event_inspect {lookup : Lookup} {file : String} {listing : Listing} {e : Event}
    (h : .event e ∈ (inspect lookup file listing).messages) : e.level = .debug := by
  unfold inspect at h
  split at h
  · simp [Message.line] at h
  · split at h
    · simp at h
    · simp only [List.mem_cons, Message.event.injEq, List.not_mem_nil, or_false] at h
      rcases h with rfl | rfl <;> rfl

theorem run_congr_verbosity {lookup : Lookup} {environment : Environment} {first second : List String}
    {i : CommandLine.Invocation} {verbosity : ℕ} {file : String} {listing : Listing}
    (hfirst : CommandLine.read first = .ok i)
    (hsecond : CommandLine.read second = .ok { i with verbosity := verbosity })
    (htask : i.task = .inspect file listing) (h : i.verbosity = 0 ↔ verbosity = 0) :
    run lookup environment first = run lookup environment second := by
  obtain ⟨hcomplaints, hallows⟩ := environment.logFilter_congr h
  have hrender : ∀ m ∈ (inspect lookup file listing).messages,
      m.render (environment.settings i) =
        m.render (environment.settings { i with verbosity := verbosity }) := by
    intro m hm
    cases m with
    | text pieces => rfl
    | event e =>
        have hevent := hallows e.target e.fields
        simp only [Message.render, Environment.settings, level_of_event_inspect hm, hevent]
  simp only [run, hfirst, hsecond, htask, perform, hcomplaints, Message.renderAll,
    List.map_congr_left hrender]

/-- Unless more output is wanted, nothing is written about a file but what is listed. -/
theorem run_of_quiet {lookup : Lookup} {environment : Environment} {arguments : List String}
    {colours : Bool} {file source : String} {listing : Listing} {o : Outline}
    (hown : environment.find? "CODEBLOCK_LOG" = none)
    (hgeneral : environment.find? "RUST_LOG" = none)
    (hread : CommandLine.read arguments = .ok ⟨colours, 0, .inspect file listing⟩)
    (hentry : (lookup file).bind Entry.read = .ok source) (hload : Outline.load source 0 = .ok o) :
    run lookup environment arguments = ⟨0, listing.text o.tree, ""⟩ := by
  obtain ⟨hcomplaints, hallows⟩ := Environment.logFilter_of_unset hown hgeneral 0
  have hquiet (target : String) (fields : List String) :
      (environment.logFilter 0).1.allows .debug target fields = false := by
    rw [Bool.eq_false_iff, ne_eq, hallows]
    exact fun h => h.2 rfl
  simp only [run, hread, perform, inspect, hentry, hload, hcomplaints, Message.renderAll, List.map_cons,
    List.map_nil, Message.render, Environment.settings, Outline.loadedEvent, builtEvent, hquiet]
  rfl

end Program

end BlockOutline
