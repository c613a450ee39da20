import BlockOutline.Files.Path
import BlockOutline.Proofs.Text.Encoding

/-! # Paths and names

A name that is put behind a path becomes its last component, however the path is spelled. Paths are
ordered by their components, and two paths that come before each other have the same ones. -/

namespace BlockOutline

open Text

/-! ## Names -/

/-- A name that an entry of a directory can have. -/
structure ProperName (name : Bytes) : Prop where
  notEmpty : name ≠ []
  notCurrent : name ≠ [dot]
  notParent : name ≠ [dot, dot]
  noSlash : slash ∉ name

instance (name : Bytes) : Decidable (ProperName name) :=
  decidable_of_iff (name ≠ [] ∧ name ≠ [dot] ∧ name ≠ [dot, dot] ∧ slash ∉ name)
    ⟨fun ⟨h₁, h₂, h₃, h₄⟩ => ⟨h₁, h₂, h₃, h₄⟩, fun ⟨h₁, h₂, h₃, h₄⟩ => ⟨h₁, h₂, h₃, h₄⟩⟩

theorem ProperName.ofPiece {name : Bytes} (proper : ProperName name) :
    Component.ofPiece name = .name name := by
  simp [Component.ofPiece, proper.notEmpty, proper.notCurrent, proper.notParent]

namespace Path

theorem pieces_ne_nil (path : Bytes) : pieces path ≠ [] :=
  splitAt_ne_nil path

theorem pieces_ne_singleton_nil {path : Bytes} (h : path ≠ []) : pieces path ≠ [[]] :=
  splitAt_ne_singleton_nil h

theorem pieces_eq_singleton {name : Bytes} (h : slash ∉ name) : pieces name = [name] := by
  refine splitAt_eq_singleton ?_
  intro byte hbyte
  exact decide_eq_false fun heq => h (heq ▸ hbyte)

theorem pieces_append_slash (before after : Bytes) :
    pieces (before ++ slash :: after) = pieces before ++ pieces after :=
  splitAt_append_cons (by simp) before after

/-- The steps that the pieces of a path stand for. -/
def ofPieces : List Bytes → List Component
  | [] :: piece :: pieces => .root :: (piece :: pieces).map Component.ofPiece
  | [[]] => []
  | pieces => pieces.map Component.ofPiece

/-- Steps without the dots that do not matter. -/
def plain : List Component → List Component
  | [] => []
  | first :: rest => first :: rest.filter (· ≠ .current)

theorem steps_eq (path : Bytes) : steps path = ofPieces (pieces path) := by
  unfold steps ofPieces
  rfl

theorem components_eq (path : Bytes) : components path = plain (steps path) := by
  unfold components plain
  rfl

theorem plain_append {steps : List Component} (h : steps ≠ []) (more : List Component) :
    plain (steps ++ more) = plain steps ++ more.filter (· ≠ .current) := by
  cases steps with
  | nil => exact absurd rfl h
  | cons first rest => simp [plain]

theorem ofPieces_append {pieces : List Bytes} (hne : pieces ≠ []) (hempty : pieces ≠ [[]])
    (last : Bytes) :
    ofPieces (pieces ++ [last]) = ofPieces pieces ++ [Component.ofPiece last] ∧
      ofPieces pieces ≠ [] := by
  match pieces with
  | [] => exact absurd rfl hne
  | [first] =>
      have hfirst : first ≠ [] := fun h => hempty (by rw [h])
      simp [ofPieces, hfirst]
  | first :: second :: rest =>
      by_cases hfirst : first = []
      · subst hfirst
        simp [ofPieces]
      · simp [ofPieces, hfirst]

/-- Where a name is put behind a path there is one step more, in the place of a slash at the end of
the path. -/
theorem exists_steps_join (path : Bytes) {name : Bytes} (proper : ProperName name) :
    ∃ start, steps (join path name) = start ++ [.name name] ∧
      (steps path = start ∨ start ≠ [] ∧ steps path = start ++ [.current]) := by
  have hname := pieces_eq_singleton proper.noSlash
  by_cases hempty : path = []
  · subst hempty
    refine ⟨[], ?_, .inl rfl⟩
    rw [join, if_pos (.inl rfl), List.nil_append, steps_eq, hname]
    simp [ofPieces, proper.notEmpty, proper.ofPiece]
  by_cases hslash : path.getLast? = some slash
  · obtain ⟨before, rfl⟩ := List.getLast?_eq_some_iff.mp hslash
    rw [join, if_pos (.inr hslash), List.append_assoc, List.singleton_append, steps_eq, steps_eq,
      pieces_append_slash, pieces_append_slash, hname]
    by_cases hroot : pieces before = [[]]
    · rw [hroot]
      refine ⟨[.root], ?_, .inr ⟨by simp, rfl⟩⟩
      simp [ofPieces, proper.ofPiece]
    · have hsteps := ofPieces_append (pieces_ne_nil before) hroot
      refine ⟨ofPieces (pieces before), ?_, .inr ⟨(hsteps []).2, (hsteps []).1⟩⟩
      rw [(hsteps name).1, proper.ofPiece]
  · have hsteps := ofPieces_append (pieces_ne_nil path) (pieces_ne_singleton_nil hempty) name
    refine ⟨ofPieces (pieces path), ?_, .inl (steps_eq path)⟩
    rw [join, if_neg (not_or.mpr ⟨hempty, hslash⟩), steps_eq, pieces_append_slash, hname, hsteps.1,
      proper.ofPiece]

/-- Where a name is put behind a path there is one component more, with or without a slash at the
end of the path. -/
theorem components_join (path : Bytes) {name : Bytes} (proper : ProperName name) :
    components (join path name) = components path ++ [.name name] := by
  have hplain (start : List Component) :
      plain (start ++ [.name name]) = plain start ++ [.name name] := by
    cases start <;> simp [plain]
  obtain ⟨start, hjoin, hpath | ⟨hne, hpath⟩⟩ := exists_steps_join path proper
  · rw [components_eq, components_eq, hjoin, hpath, hplain]
  · rw [components_eq, components_eq, hjoin, hpath, hplain, plain_append hne]
    simp

/-- The components of a path are those of the directory that it starts from and then the names. -/
theorem components_foldl_join (path : Bytes) {names : List Bytes}
    (proper : ∀ name ∈ names, ProperName name) :
    components (names.foldl join path) = components path ++ names.map .name := by
  induction names generalizing path with
  | nil => simp
  | cons name names ih =>
      have hrest := ih (join path name) fun n hn => proper n (List.mem_cons_of_mem name hn)
      rw [List.foldl_cons, hrest, components_join path (proper name List.mem_cons_self)]
      simp

theorem dropBeginning?_append (beginning rest : List Component) :
    dropBeginning? beginning (beginning ++ rest) = some rest := by
  induction beginning with
  | nil => rfl
  | cons c beginning ih => simp [dropBeginning?, ih]

end Path

/-! ## Names as they are shown -/

namespace Path

@[simp] theorem joined_singleton (name : Bytes) : joined [name] = name := by
  simp [joined, List.intercalate]

theorem joined_cons (name : Bytes) {names : List Bytes} (hne : names ≠ []) :
    joined (name :: names) = name ++ slash :: joined names := by
  obtain ⟨next, names, rfl⟩ := List.exists_cons_of_ne_nil hne
  simp [joined, List.intercalate]

theorem utf8EncodeChar_slash : String.utf8EncodeChar '/' = [slash] := by
  decide

theorem lossy_joined (names : List Bytes) :
    (joined names).lossy = Text.joined "/" (names.map Bytes.lossy) := by
  induction names with
  | nil => rfl
  | cons name names ih =>
      cases names with
      | nil => simp [Text.joined]
      | cons next names =>
          rw [joined_cons name (by simp), Bytes.lossy_append_cons (by decide) utf8EncodeChar_slash, ih]
          rfl

theorem encode_joined (names : List String) :
    encode (Text.joined "/" names) = joined (names.map encode) := by
  induction names with
  | nil => rfl
  | cons name names ih =>
      cases names with
      | nil => simp [Text.joined]
      | cons next names =>
          have hslash : encode "/" = [slash] := by decide
          rw [List.map_cons, joined_cons _ (by simp), ← ih]
          simp only [Text.joined, encode_append, hslash, List.append_assoc, List.singleton_append]

end Path

namespace ProperName

theorem lossy_ne_empty {name : Bytes} (proper : ProperName name) : name.lossy ≠ "" :=
  fun h => proper.notEmpty (Bytes.lossy_eq_empty_iff.mp h)

theorem slash_notMem_lossy {name : Bytes} (proper : ProperName name) : '/' ∉ name.lossy.toList := by
  intro h
  have hsubset := Bytes.subset_of_mem_decode (Bytes.mem_decode_of_mem_lossy h (by decide))
  rw [Path.utf8EncodeChar_slash] at hsubset
  exact proper.noSlash (hsubset (List.mem_singleton_self slash))

end ProperName

/-! ## The order of paths -/

namespace Component

theorem before_irrefl (a : Component) : a.before a = false := by
  cases a <;> simp [before]

theorem before_trans {a b c : Component} (hab : a.before b = true) (hbc : b.before c = true) :
    a.before c = true := by
  cases b with
  | name m =>
      cases c with
      | name n =>
          cases a with
          | name l =>
              exact decide_eq_true (List.lt_trans (of_decide_eq_true hab) (of_decide_eq_true hbc))
          | _ => rfl
      | _ => cases hbc
  | _ => cases a <;> cases c <;> simp_all [before]

theorem before_or_before {a b : Component} (h : a ≠ b) : a.before b = true ∨ b.before a = true := by
  cases a with
  | name m =>
      cases b with
      | name n =>
          by_cases hlt : m < n
          · exact .inl (decide_eq_true hlt)
          · refine .inr (decide_eq_true (Decidable.byContradiction fun hgt => h ?_))
            rw [List.le_antisymm (List.not_lt.mp hgt) (List.not_lt.mp hlt)]
      | _ => exact .inr rfl
  | _ => cases b <;> simp_all [before]

end Component

namespace Path

theorem atMost_total (as bs : List Component) : (atMost as bs || atMost bs as) = true := by
  induction as generalizing bs with
  | nil => simp [atMost]
  | cons a as ih =>
      cases bs with
      | nil => simp [atMost]
      | cons b bs =>
          by_cases hab : a = b
          · subst hab
            simpa [atMost, Component.before_irrefl] using ih bs
          · rcases Component.before_or_before hab with h | h <;> simp [atMost, h]

theorem atMost_antisymm {as bs : List Component} (hab : atMost as bs = true)
    (hba : atMost bs as = true) : as = bs := by
  induction as generalizing bs with
  | nil =>
      cases bs with
      | nil => rfl
      | cons b bs => simp [atMost] at hba
  | cons a as ih =>
      cases bs with
      | nil => simp [atMost] at hab
      | cons b bs =>
          by_cases h : a = b
          · subst h
            simp only [atMost, Component.before_irrefl, Bool.false_eq_true, ite_false,
              ite_true] at hab hba
            rw [ih hab hba]
          · -- Both first components would have to come before each other.
            simp only [atMost, h, Ne.symm h, ite_false, Bool.if_false_right, Bool.and_true] at hab hba
            have hself := Component.before_trans (by simpa using hab) (by simpa using hba)
            rw [Component.before_irrefl] at hself
            cases hself

theorem atMost_trans {as bs cs : List Component} (hab : atMost as bs = true)
    (hbc : atMost bs cs = true) : atMost as cs = true := by
  induction as generalizing bs cs with
  | nil => simp [atMost]
  | cons a as ih =>
      cases bs with
      | nil => simp [atMost] at hab
      | cons b bs =>
          cases cs with
          | nil => simp [atMost] at hbc
          | cons c cs =>
              simp only [atMost] at hab hbc ⊢
              by_cases h₁ : a.before b = true
              · by_cases h₂ : b.before c = true
                · simp [Component.before_trans h₁ h₂]
                · by_cases h : b = c
                  · subst h
                    simp [h₁]
                  · simp [h₂, h] at hbc
              · by_cases h : a = b
                · subst h
                  by_cases h₂ : a.before c = true
                  · simp [h₂]
                  · by_cases h' : a = c
                    · subst h'
                      simp only [Component.before_irrefl, Bool.false_eq_true, ite_false,
                        ite_true] at hab hbc ⊢
                      exact ih hab hbc
                    · simp [h₂, h'] at hbc
                · simp [h₁, h] at hab

/-- Below one directory only the rest of a path counts. -/
theorem atMost_append (start as bs : List Component) :
    atMost (start ++ as) (start ++ bs) = atMost as bs := by
  induction start with
  | nil => rfl
  | cons c start ih => simp [atMost, Component.before_irrefl, ih]

end Path

end BlockOutline
