import BlockOutline.Proofs.Fixture.Selection

/-! # Requests

Requests can be answered one after the other: what they select together depends neither on their order
nor on how often one of them is made, and the ones that nothing answers are told in their order. -/

namespace BlockOutline

namespace Category

variable {α : Type}

/-! ## The name in a request -/

/-- A name is what is left of a request without the slashes at its ends. -/
structure Strips (request name : String) : Prop where
  around : ∃ m n, request = slashes m ++ name ++ slashes n
  first : name.toList.head? ≠ some '/'
  last : name.toList.getLast? ≠ some '/'

theorem strips_plain (request : String) : Strips request (plain request) := by
  obtain ⟨around, first, last⟩ := Text.exists_trim '/' request
  exact ⟨around, first, last⟩

theorem slashes_append (m n : ℕ) : slashes m ++ slashes n = slashes (m + n) := by
  rw [slashes, slashes, slashes, ← String.ofList_append, List.replicate_add]

theorem plain_slashes_only (n : ℕ) : plain (slashes n) = "" := by
  simp [plain, Text.trim, slashes]

theorem strips_iff {request name : String} : Strips request name ↔ plain request = name := by
  constructor
  · intro h
    obtain ⟨⟨m, n, rfl⟩, first, last⟩ := h
    by_cases hempty : name = ""
    · subst hempty
      rw [String.append_empty, slashes_append, plain_slashes_only]
    · exact Text.trim_between hempty first last m n
  · intro h
    exact h ▸ strips_plain request

/-- A request is answered by the category of its name and by every category below that. -/
def Answers (category request : String) : Prop :=
  ∃ name, Strips request name ∧ (category = name ∨ ∃ rest, category = name ++ "/" ++ rest)

theorem answers_iff {category request : String} :
    Answers category request ↔ selects (plain request) category = true := by
  simp only [Answers, strips_iff, selects_iff, exists_eq_left']

instance (category request : String) : Decidable (Answers category request) :=
  decidable_of_iff _ answers_iff.symm

/-- A name answers no request that it only goes on from. -/
theorem answers_append_iff {request name : String} (h : Strips request name) (rest : String) :
    Answers (name ++ rest) request ↔ rest = "" ∨ ∃ below, rest = "/" ++ below := by
  rw [answers_iff, strips_iff.mp h, selects_iff]
  simp only [String.append_assoc, String.append_right_inj]
  simp

/-! ## One request after the other -/

/-- What has been chosen for the requests so far, and the names that nothing has answered. -/
structure Choice (α : Type) where
  chosen : NameMap α
  missed : List String

namespace Choice

/-- Puts an entry among the chosen ones if a name selects its category, and notes that there was one. -/
def visit (name : String) (s : NameMap α × Bool) (entry : String × α) : NameMap α × Bool :=
  if selects name entry.1 then (s.1.insert entry.1 entry.2, true) else s

def answer (all : NameMap α) (c : Choice α) (request : String) : Choice α :=
  let name := plain request
  let (chosen, found) := all.entries.foldl (visit name) (c.chosen, false)
  ⟨chosen, if found then c.missed else c.missed ++ [name]⟩

def answerAll (all : NameMap α) (requests : List String) : Choice α :=
  requests.foldl (answer all) ⟨.empty, []⟩

/-- What is chosen from a map for some requests, without regard to their order. -/
def ofRequests (all : NameMap α) (requests : List String) : Choice α :=
  ⟨all.filter fun category _ => requests.any fun request => selects (plain request) category,
    unknown all requests⟩

theorem answer_eq (all : NameMap α) (c : Choice α) (request : String) :
    answer all c request =
      let visited := all.entries.foldl (visit (plain request)) (c.chosen, false)
      ⟨visited.1, if visited.2 then c.missed else c.missed ++ [plain request]⟩ :=
  rfl

theorem find?_foldl_visit (name : String) {entries : List (String × α)}
    (hnodup : (entries.map (·.1)).Nodup) (s : NameMap α × Bool) (k : String) :
    (entries.foldl (visit name) s).1.find? k =
      if selects name k then ((entries.find? (·.1 = k)).map (·.2)).or (s.1.find? k)
      else s.1.find? k := by
  induction entries generalizing s with
  | nil => simp
  | cons entry entries ih =>
      obtain ⟨c, v⟩ := entry
      rw [List.map_cons, List.nodup_cons] at hnodup
      rw [List.foldl_cons, ih hnodup.2, visit]
      by_cases hk : k = c
      · -- A name stands only once in a map, so nothing later is put over the entry.
        subst hk
        have hlater : entries.find? (·.1 = k) = none := by
          rw [List.find?_eq_none]
          intro e he heq
          obtain rfl : e.1 = k := of_decide_eq_true heq
          exact hnodup.1 (List.mem_map.mpr ⟨e, he, rfl⟩)
        by_cases hselects : selects name k = true
        · simp [hselects, hlater, NameMap.find?_insert]
        · simp [hselects]
      · by_cases hselects : selects name c = true
        · simp [hselects, NameMap.find?_insert, hk, Ne.symm hk]
        · simp [hselects, Ne.symm hk]

theorem found_foldl_visit (name : String) (entries : List (String × α)) (s : NameMap α × Bool) :
    (entries.foldl (visit name) s).2 = (s.2 || entries.any fun e => selects name e.1) := by
  induction entries generalizing s with
  | nil => simp
  | cons entry entries ih =>
      rw [List.foldl_cons, ih, visit]
      by_cases hselects : selects name entry.1 = true
      · simp [hselects]
      · simp [hselects]

/-- One more request adds what it selects, whatever of it has been chosen before. -/
theorem answer_ofRequests (all : NameMap α) (answered : List String) (request : String) :
    answer all (ofRequests all answered) request = ofRequests all (answered ++ [request]) := by
  have hchosen : (all.entries.foldl (visit (plain request))
      ((ofRequests all answered).chosen, false)).1 =
        (ofRequests all (answered ++ [request])).chosen := by
    refine NameMap.ext_find? fun k => ?_
    rw [find?_foldl_visit _ all.nodup_names, ofRequests, ofRequests, NameMap.find?_filter,
      NameMap.find?_filter, List.any_append, ← NameMap.find?]
    by_cases hselects : selects (plain request) k = true
    · by_cases hany : (answered.any fun request => selects (plain request) k) = true
      · simp [hselects, hany]
      · simp [hselects, hany]
    · simp [hselects]
  have hfound : (all.entries.foldl (visit (plain request))
      ((ofRequests all answered).chosen, false)).2 = all.names.any (selects (plain request)) := by
    rw [found_foldl_visit, NameMap.names, List.any_map]
    rfl
  rw [answer_eq]
  simp only [hchosen, hfound]
  by_cases hany : all.names.any (selects (plain request)) = true
  · simp [ofRequests, unknown, hany]
  · simp [ofRequests, unknown, hany]

theorem foldl_answer (all : NameMap α) (answered requests : List String) :
    requests.foldl (answer all) (ofRequests all answered) =
      ofRequests all (answered ++ requests) := by
  induction requests generalizing answered with
  | nil => simp
  | cons request requests ih =>
      rw [List.foldl_cons, answer_ofRequests, ih, List.append_assoc, List.singleton_append]

theorem answerAll_eq (all : NameMap α) {requests : List String} (hne : requests ≠ []) :
    answerAll all requests = ⟨select all requests, unknown all requests⟩ := by
  have hstart : (⟨.empty, []⟩ : Choice α) = ofRequests all [] := by
    have hempty : (.empty : NameMap α) = all.filter fun _ _ => false :=
      NameMap.ext_find? fun k => by rw [NameMap.find?_filter all fun _ => false]; rfl
    rw [hempty]
    rfl
  have hnonempty : requests.isEmpty = false := by simpa using hne
  rw [answerAll, hstart, foldl_answer, List.nil_append, ofRequests, select, hnonempty]
  rfl

end Choice

/-! ## All requests together -/

/-- A warning tells which name it is about. -/
theorem warning_injective (all : NameMap α) : Function.Injective (warning all) := by
  intro name name' h
  unfold warning at h
  rwa [String.append_left_inj, String.append_left_inj, String.append_left_inj,
    String.append_right_inj] at h

/-- What requests choose from a map, and what they are warned of: every category that answers one of
them, once and with all that it holds, and every request that no category answers. The names of these can
be read from the warnings. -/
structure Answered (all : NameMap α) (requests : List String) (chosen : NameMap α)
    (warnings : List String) : Prop where
  mem_iff : ∀ e, e ∈ chosen.entries ↔ e ∈ all.entries ∧ ∃ request ∈ requests, Answers e.1 request
  once : chosen.names.Nodup
  warnings_eq : warnings =
    (requests.filter fun request => ∀ category ∈ all.names, ¬Answers category request).map
      fun request => warning all (plain request)
  named : ∀ names, warnings = names.map (warning all) → names =
    (requests.filter fun request => ∀ category ∈ all.names, ¬Answers category request).map plain

theorem mem_select_iff_answers {all : NameMap α} {requests : List String} (hne : requests ≠ [])
    (e : String × α) : e ∈ (select all requests).entries ↔
      e ∈ all.entries ∧ ∃ request ∈ requests, Answers e.1 request := by
  rw [Suite.mem_select_iff, Suite.Requested, or_iff_right hne]
  simp only [answers_iff]

theorem unknown_eq (all : NameMap α) (requests : List String) :
    unknown all requests =
      (requests.filter fun request => ∀ category ∈ all.names, ¬Answers category request).map
        plain := by
  rw [unknown, List.filter_map]
  congr 1
  refine List.filter_congr ?_
  intro request _
  rw [Function.comp_apply, Bool.eq_iff_iff, decide_eq_true_iff]
  simp [answers_iff]

theorem select_eq_of_mem_iff (all : NameMap α) {requests requests' : List String}
    (hne : requests ≠ []) (h : ∀ request, request ∈ requests' ↔ request ∈ requests) :
    select all requests' = select all requests := by
  have hne' : requests' ≠ [] := by
    obtain ⟨request, hrequest⟩ := List.exists_mem_of_ne_nil _ hne
    exact List.ne_nil_of_mem ((h request).mpr hrequest)
  refine NameMap.ext_find? fun k => Option.ext fun v => ?_
  rw [NameMap.find?_eq_some_iff, NameMap.find?_eq_some_iff, mem_select_iff_answers hne,
    mem_select_iff_answers hne']
  simp only [h]

theorem mem_select_append_iff (all : NameMap α) {requests requests' : List String}
    (hne : requests ≠ []) (hne' : requests' ≠ []) (e : String × α) :
    e ∈ (select all (requests ++ requests')).entries ↔
      e ∈ (select all requests).entries ∨ e ∈ (select all requests').entries := by
  have hboth : requests ++ requests' ≠ [] := by simp [hne]
  rw [mem_select_iff_answers hne, mem_select_iff_answers hne', mem_select_iff_answers hboth]
  simp only [List.mem_append, or_and_right, exists_or, and_or_left]

end Category

namespace Suite

open Category

theorem selected_sublist (all : NameMap (List Fixture)) (requests : List String) :
    ((categorized all).selected requests).Sublist all.members := by
  rw [selected_categorized]
  exact (select_sublist all requests).flatMap (·.2)

/-- Requests choose the categories that answer one of them, each once; the same is chosen, and the same
warnings are given, by answering one request after the other. Neither order nor repetition matters to
what is chosen, requests made together choose what they choose apart, and no fixture is run twice. -/
theorem requests_answered (all : NameMap (List Fixture)) {requests : List String}
    (hne : requests ≠ []) :
    Answered all requests (select all requests) ((categorized all).warnings requests) ∧
      Choice.answerAll all requests = ⟨select all requests, unknown all requests⟩ ∧
      (∀ requests', (∀ request, request ∈ requests' ↔ request ∈ requests) →
        select all requests' = select all requests) ∧
      (∀ requests' e, requests' ≠ [] → (e ∈ (select all (requests ++ requests')).entries ↔
        e ∈ (select all requests).entries ∨ e ∈ (select all requests').entries)) ∧
      ((categorized all).selected requests).Sublist all.members ∧
      ∀ request name rest, Strips request name →
        (Answers (name ++ rest) request ↔ rest = "" ∨ ∃ below, rest = "/" ++ below) := by
  have hwarnings : (categorized all).warnings requests =
      ((requests.filter fun request => ∀ category ∈ all.names, ¬Answers category request).map
        plain).map (warning all) := by
    rw [warnings, unknown_eq]
  refine ⟨⟨mem_select_iff_answers hne, NameMap.nodup_names _, ?_, ?_⟩,
    Choice.answerAll_eq all hne, ?_, ?_, selected_sublist all requests, ?_⟩
  · rw [hwarnings, List.map_map]
    rfl
  · intro names hnames
    exact List.map_injective_iff.mpr (warning_injective all) (hnames.symm.trans hwarnings)
  · intro requests' h
    exact select_eq_of_mem_iff all hne h
  · intro requests' e hne'
    exact mem_select_append_iff all hne hne' e
  · intro request name rest h
    exact answers_append_iff h rest

/-- Requests that overlap, one that nothing answers, made twice, and a name that only begins alike. -/
theorem requests_answered_overlapping :
    let all : NameMap (List Fixture) := ⟨[("", [⟨"x.test.toml", .ok ""⟩]),
      ("a", [⟨"a/x.test.toml", .ok ""⟩]), ("a/b", [⟨"a/b/x.test.toml", .ok ""⟩]),
      ("ab", [⟨"ab/x.test.toml", .ok ""⟩])], by decide⟩
    let requests := ["/a//", "c", "a/b", "c"]
    requests ≠ [] ∧
      Answered all requests (select all requests) ((categorized all).warnings requests) ∧
      Choice.answerAll all requests = ⟨select all requests, unknown all requests⟩ ∧
      select all ["a/b", "c", "/a//"] = select all requests ∧
      (∀ e, e ∈ (select all (requests ++ ["/"])).entries ↔
        e ∈ (select all requests).entries ∨ e ∈ (select all ["/"]).entries) ∧
      ((categorized all).selected requests).Sublist all.members ∧ ¬Answers "ab" "/a//" := by
  intro all requests
  have hne : requests ≠ [] := by decide
  obtain ⟨answered, hone, hsame, hboth, hsublist, hanswers⟩ := requests_answered all hne
  have hstrips : Strips "/a//" "a" := ⟨⟨1, 2, by decide⟩, by decide, by decide⟩
  have hb : ¬("b" = "" ∨ ∃ below, "b" = "/" ++ below) := by
    intro h
    rcases h with h | ⟨below, h⟩
    · exact absurd h (by decide)
    · exact absurd (congrArg String.toList h) (by simp)
  have hsubset : ["a/b", "c", "/a//"] ⊆ requests ∧ requests ⊆ ["a/b", "c", "/a//"] := by decide
  exact ⟨hne, answered, hone, hsame _ fun _ => ⟨(hsubset.1 ·), (hsubset.2 ·)⟩,
    fun e => hboth _ e (by decide), hsublist, mt (hanswers "/a//" "a" "b" hstrips).mp hb⟩

end Suite

end BlockOutline
