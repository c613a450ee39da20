import BlockOutline.Proofs.Toml.Lengths
import BlockOutline.Proofs.Toml.Readers

/-! # Reading a part of a text alone

What a reader finds between two cursors depends on nothing but the characters between them: it finds
the same in a text that ends there. -/

namespace BlockOutline.Toml

open Fallible Text

variable {α β : Type}

/-! ## Cursors in a longer text -/

namespace Cursor

/-- The same place in a text that goes on for longer. -/
def extend (c : Cursor) (ds : List Char) : Cursor :=
  ⟨c.offset, c.rest ++ ds⟩

@[simp] theorem extend_offset (c : Cursor) (ds : List Char) : (c.extend ds).offset = c.offset := rfl

@[simp] theorem extend_rest (c : Cursor) (ds : List Char) : (c.extend ds).rest = c.rest ++ ds := rfl

@[simp] theorem extend_nil (c : Cursor) : c.extend [] = c := by
  simp [extend]

theorem upTo_extend (c m : Cursor) (ds : List Char) :
    (c.extend ds).upTo (m.extend ds) = c.upTo m := rfl

theorem extend_injective (ds : List Char) : Function.Injective (Cursor.extend · ds) := by
  intro c m h
  have hoffset : (c.extend ds).offset = (m.extend ds).offset := congrArg Cursor.offset h
  have hrest : (c.extend ds).rest = (m.extend ds).rest := congrArg Cursor.rest h
  obtain ⟨offset, rest⟩ := c
  obtain ⟨offset', rest'⟩ := m
  simp only [extend_offset, extend_rest] at hoffset hrest
  rw [hoffset, List.append_cancel_right hrest]

variable {c m after : Cursor} {ds : List Char}

theorem Reaches.of_eq (h : c = after) : c.Reaches after :=
  h ▸ .refl c

theorem Reaches.eq_of_nil (h : c.Reaches after) (hnil : c.rest = []) : after = c := by
  obtain ⟨count, rfl⟩ := h
  obtain ⟨offset, rest⟩ := c
  subst hnil
  simp [Cursor.skip]

theorem Reaches.of_extend (h : (c.extend ds).Reaches (after.extend ds)) : c.Reaches after := by
  obtain ⟨cs, hcs, hoffset⟩ := reaches_iff.mp h
  refine reaches_iff.mpr ⟨cs, ?_, hoffset⟩
  rw [extend_rest, extend_rest, ← List.append_assoc] at hcs
  exact List.append_cancel_right hcs

/-- A place before one in the shorter text is in the shorter text as well. -/
theorem exists_extend (h : m.Reaches (after.extend ds)) :
    ∃ m' : Cursor, m = m'.extend ds ∧ m'.Reaches after := by
  obtain ⟨cs, hcs, hoffset⟩ := reaches_iff.mp h
  obtain ⟨offset, rest⟩ := m
  simp only [extend_rest, extend_offset] at hcs hoffset
  exact ⟨⟨offset, cs ++ after.rest⟩, by simp [extend, hcs], reaches_iff.mpr ⟨cs, rfl, hoffset⟩⟩

theorem le_length_of_reaches {count : ℕ} (h : ((c.extend ds).skip count).Reaches (after.extend ds)) :
    ds = [] ∨ count ≤ c.rest.length := by
  have hlength := h.length_le
  simp only [skip, extend_rest, List.length_drop, List.length_append] at hlength
  by_cases hds : ds = []
  · exact .inl hds
  · have hpos := List.length_pos_iff.mpr hds
    exact .inr (by omega)

theorem skip_extend {count : ℕ} (h : ((c.extend ds).skip count).Reaches (after.extend ds)) :
    (c.extend ds).skip count = (c.skip count).extend ds := by
  rcases le_length_of_reaches h with rfl | hcount
  · simp
  · simp [skip, extend, List.take_append_of_le_length hcount,
      List.drop_append_of_le_length hcount]

theorem takeWhile_extend {test : Char → Bool}
    (h : ((c.extend ds).skipWhile test).Reaches (after.extend ds)) :
    (c.rest ++ ds).takeWhile test = c.rest.takeWhile test := by
  rcases le_length_of_reaches h with rfl | hcount
  · simp
  · exact takeWhile_append_of_length_le hcount

theorem skipWhile_extend {test : Char → Bool}
    (h : ((c.extend ds).skipWhile test).Reaches (after.extend ds)) :
    (c.extend ds).skipWhile test = (c.skipWhile test).extend ds := by
  have hrun := takeWhile_extend h
  rw [skipWhile, extend_rest, hrun] at h ⊢
  exact skip_extend h

/-- A character that is skipped on the way into the shorter text belongs to it. -/
theorem head?_of_extend {x : Char} (h : (c.extend ds).rest.head? = some x)
    (hreaches : ((c.extend ds).skip 1).Reaches (after.extend ds)) : c.rest.head? = some x := by
  rcases le_length_of_reaches hreaches with rfl | hlength
  · simpa using h
  · rwa [extend_rest, List.head?_append_of_ne_nil _ (List.length_pos_iff.mp hlength)] at h

theorem head?_extend_ne {x : Char} (h : (c.extend ds).rest.head? ≠ some x) :
    c.rest.head? ≠ some x := by
  intro hhead
  rw [extend_rest, List.head?_append, hhead] at h
  exact h rfl

theorem head?_extend (ds : List Char) (h : c.rest ≠ []) :
    (c.extend ds).rest.head? = c.rest.head? :=
  List.head?_append_of_ne_nil _ h

end Cursor

/-! ## Readers -/

/-- What one reader finds in a text, another one finds in the part that was read alone. -/
def Cuts (r r' : Reader α) : Prop :=
  ∀ c after ds value, Reads r (c.extend ds) value (after.extend ds) → Reads r' c value after

theorem Cuts.exists_reads {r r' : Reader α} (hcuts : Cuts r r') {c m after : Cursor} {ds : List Char}
    {value : α} (h : Reads r (c.extend ds) value m) (hm : m.Reaches (after.extend ds)) :
    ∃ m' : Cursor, m = m'.extend ds ∧ m'.Reaches after ∧ Reads r' c value m' := by
  obtain ⟨m', rfl, hafter⟩ := Cursor.exists_extend hm
  exact ⟨m', rfl, hafter, hcuts c m' ds value h⟩

/-- A reader that finds nothing at the end of a text. -/
def NeedsText (r : Reader α) : Prop :=
  ∀ c value after, Reads r c value after → c.rest ≠ []

/-! ### Strings -/

/-- What the characters of a string give to its text next, how many they are, and whether the string
ends with them. -/
def quotedStep? (kind : StringKind) : List Char → Option (List Char × ℕ × Bool)
  | [] => none
  | head :: tail =>
    if head = kind.quote then
      if kind.isMultiline then
        let run := ((head :: tail).takeWhile (· = head)).length
        if run < 3 then some ([head], 1, false)
        else some (List.replicate (extraQuotes run) head, extraQuotes run + 3, true)
      else some ([], 1, true)
    else if head = '\\' && kind.hasEscapes then
      match if kind.isMultiline then lineJoin? tail else none with
      | some count => some ([], count + 1, false)
      | none => (escape tail).toOption.map fun (character, count) => ([character], count + 1, false)
    else if isText head then some ([head], 1, false)
    else if kind.isMultiline && lineEnding (head :: tail) ≠ 0 then
      some (['\n'], lineEnding (head :: tail), false)
    else none

/-- The step at quotes in a string of several lines, by the number of quotes that follow each other. -/
def quotesStep? (quote : Char) (run : ℕ) : Option (List Char × ℕ × Bool) :=
  if run < 3 then some ([quote], 1, false)
  else some (List.replicate (extraQuotes run) quote, extraQuotes run + 3, true)

/-- The step at a backslash, by the characters behind it. -/
def escapeStep? (kind : StringKind) (cs : List Char) : Option (List Char × ℕ × Bool) :=
  match if kind.isMultiline then lineJoin? cs else none with
  | some count => some ([], count + 1, false)
  | none => (escape cs).toOption.map fun (character, count) => ([character], count + 1, false)

theorem quotedStep?_cons (kind : StringKind) (head : Char) (tail : List Char) :
    quotedStep? kind (head :: tail) =
      if head = kind.quote then
        if kind.isMultiline then quotesStep? head ((head :: tail).takeWhile (· = head)).length
        else some ([], 1, true)
      else if head = '\\' && kind.hasEscapes then escapeStep? kind tail
      else if isText head then some ([head], 1, false)
      else if kind.isMultiline && lineEnding (head :: tail) ≠ 0 then
        some (['\n'], lineEnding (head :: tail), false)
      else none :=
  rfl

theorem reads_goOn_iff {kind : StringKind} {c after : Cursor} {count : ℕ}
    {piece text : List Char} :
    (∃ found, (do
        let more ← quotedText kind (c.skip count)
        pure (more.map (piece ++ ·)).unskip : Except SyntaxError (Found (List Char) c)) = .ok found ∧
      found.value = text ∧ found.after = after) ↔
    ∃ more, Reads (quotedText kind) (c.skip count) more after ∧ piece ++ more = text := by
  simp only [Reads, bind_eq_ok_iff, pure_eq_ok_iff]
  constructor
  · rintro ⟨-, ⟨more, hmore, rfl⟩, rfl, rfl⟩
    exact ⟨more.value, ⟨more, hmore, rfl, rfl⟩, rfl⟩
  · rintro ⟨-, ⟨more, hmore, rfl, rfl⟩, rfl⟩
    exact ⟨_, ⟨more, hmore, rfl⟩, rfl, rfl⟩

/-- What the rest of a string has to be for a step. -/
def GoesOn (kind : StringKind) (c : Cursor) (text : List Char) (after : Cursor) :
    Option (List Char × ℕ × Bool) → Prop
  | none => False
  | some (piece, count, true) => piece = text ∧ c.skip count = after
  | some (piece, count, false) =>
    ∃ more, Reads (quotedText kind) (c.skip count) more after ∧ piece ++ more = text

/-- A string is read step by step. -/
theorem reads_quotedText_iff {kind : StringKind} {c after : Cursor} {text : List Char} :
    Reads (quotedText kind) c text after ↔ GoesOn kind c text after (quotedStep? kind c.rest) := by
  unfold Reads
  rw [quotedText]
  dsimp only
  split
  · next hrest => simp [hrest, quotedStep?, GoesOn, Cursor.fail]
  · next head tail hrest =>
    have hstep : quotedStep? kind c.rest = quotedStep? kind (head :: tail) := by rw [hrest]
    rw [hstep, quotedStep?, ← hrest]
    by_cases hquote : head = kind.quote
    · simp only [hquote, if_true]
      by_cases hmultiline : kind.isMultiline = true
      · simp only [hmultiline, if_true]
        split
        · exact reads_goOn_iff
        · simp [GoesOn]
      · simp [hmultiline, GoesOn]
    · simp only [hquote, if_false]
      by_cases hescape : (head = '\\' && kind.hasEscapes) = true
      · simp only [hescape, if_true]
        cases if kind.isMultiline then lineJoin? tail else none with
        | some count => exact reads_goOn_iff
        | none =>
            cases escape tail with
            | ok read => exact reads_goOn_iff
            | error fault => simp [GoesOn, Except.toOption, Cursor.fail]
      · simp only [hescape]
        by_cases htext : isText head = true
        · simp only [htext, if_true]
          exact reads_goOn_iff
        · simp only [htext]
          cases kind.isMultiline with
          | false => simp [GoesOn, Cursor.fail]
          | true =>
              cases hending : lineEnding c.rest with
              | zero => simp [GoesOn, Cursor.fail]
              | succ length => exact reads_goOn_iff

theorem quotedStep?_pos {kind : StringKind} {cs piece : List Char} {count : ℕ} {ends : Bool}
    (h : quotedStep? kind cs = some (piece, count, ends)) : 0 < count := by
  cases cs with
  | nil => cases h
  | cons head tail =>
      rw [quotedStep?] at h
      split at h
      · split at h
        · dsimp only at h
          split at h <;> cases h <;> omega
        · cases h
          omega
      · split at h
        · split at h
          · cases h
            omega
          · obtain ⟨read, -, hread⟩ := Option.map_eq_some_iff.mp h
            cases hread
            omega
        · split at h
          · cases h
            omega
          · split at h
            · next hending =>
              cases h
              simp only [Bool.and_eq_true, decide_eq_true_eq] at hending
              omega
            · cases h

/-- A run within some characters is as long as they are if it goes beyond them. -/
theorem length_takeWhile_append (test : Char → Bool) (cs ds : List Char) :
    (cs.takeWhile test).length = min ((cs ++ ds).takeWhile test).length cs.length := by
  rw [List.takeWhile_append]
  split
  · next hall => simp [hall]
  · next hpart =>
    have hle := (List.takeWhile_prefix test (l := cs)).length_le
    omega

/-- Of a run of quotes a step looks at no more than it takes. -/
theorem quotesStep?_min {quote : Char} {run length count : ℕ} {piece : List Char} {ends : Bool}
    (h : quotesStep? quote run = some (piece, count, ends)) (hcount : count ≤ length) :
    quotesStep? quote (min run length) = some (piece, count, ends) := by
  rw [quotesStep?] at h ⊢
  split at h
  · next hshort =>
    rw [if_pos (by omega)]
    exact h
  · next hlong =>
    cases h
    have hextra : extraQuotes (min run length) = extraQuotes run := by
      simp only [extraQuotes] at hcount ⊢
      omega
    rw [if_neg (by omega), hextra]

theorem escapeStep?_append {kind : StringKind} {cs ds piece : List Char} {count : ℕ} {ends : Bool}
    (h : escapeStep? kind (cs ++ ds) = some (piece, count, ends)) (hcount : count ≤ cs.length + 1) :
    escapeStep? kind cs = some (piece, count, ends) := by
  rw [escapeStep?] at h ⊢
  split at h
  · next n hjoin =>
    cases h
    split at hjoin
    · next hmultiline =>
      rw [if_pos hmultiline, lineJoin?_eq_some_of_append hjoin (by omega)]
    · cases hjoin
  · next hnone =>
    have hjoin : (if kind.isMultiline then lineJoin? cs else none) = none := by
      split
      · next hmultiline =>
        rw [if_pos hmultiline] at hnone
        exact lineJoin?_eq_none_of_append hnone
      · rfl
    rw [hjoin]
    obtain ⟨⟨character, n⟩, hread, h⟩ := Option.map_eq_some_iff.mp h
    cases h
    have hok : escape (cs ++ ds) = .ok (character, n) := by
      cases hescape : escape (cs ++ ds) with
      | error e =>
          rw [hescape] at hread
          cases hread
      | ok read =>
          rw [hescape] at hread
          cases hread
          rfl
    rw [settledRead_escape cs ds character n hok (by omega)]
    rfl

/-- A step of a string is the same where the text is cut behind what the step takes. -/
theorem quotedStep?_append {kind : StringKind} {cs ds piece : List Char} {count : ℕ} {ends : Bool}
    (h : quotedStep? kind (cs ++ ds) = some (piece, count, ends)) (hcount : count ≤ cs.length) :
    quotedStep? kind cs = some (piece, count, ends) := by
  cases cs with
  | nil =>
      have hpos := quotedStep?_pos h
      rw [List.length_nil] at hcount
      omega
  | cons head tail =>
      rw [List.cons_append, quotedStep?_cons] at h
      rw [quotedStep?_cons]
      split at h
      · next hquote =>
        rw [if_pos hquote]
        split at h
        · next hmultiline =>
          rw [if_pos hmultiline, length_takeWhile_append (· = head) (head :: tail) ds]
          exact quotesStep?_min h hcount
        · next hsingle =>
          rw [if_neg hsingle]
          exact h
      · next hquote =>
        rw [if_neg hquote]
        split at h
        · next hescape =>
          rw [if_pos hescape]
          exact escapeStep?_append h hcount
        · next hescape =>
          rw [if_neg hescape]
          split at h
          · next htext =>
            rw [if_pos htext]
            exact h
          · next htext =>
            rw [if_neg htext]
            split at h
            · next hending =>
              cases h
              have hsame := settled_lineEnding (head :: tail) ds hcount
              rw [List.cons_append] at hsame
              rw [hsame, if_pos hending]
            · cases h

theorem cuts_quotedText (kind : StringKind) : Cuts (quotedText kind) (quotedText kind) := by
  intro c after ds text h
  induction hn : c.rest.length using Nat.strongRecOn generalizing c text with
  | ind n ih =>
      rw [reads_quotedText_iff] at h ⊢
      cases hstep : quotedStep? kind (c.extend ds).rest with
      | none =>
          rw [hstep] at h
          cases h
      | some step =>
          obtain ⟨piece, count, ends⟩ := step
          have hpos := quotedStep?_pos hstep
          rw [hstep] at h
          have hreaches : ((c.extend ds).skip count).Reaches (after.extend ds) := by
            cases ends with
            | true => exact .of_eq h.2
            | false =>
                obtain ⟨more, hmore, -⟩ := h
                exact hmore.reaches
          have hstep' : quotedStep? kind c.rest = some (piece, count, ends) := by
            rcases Cursor.le_length_of_reaches hreaches with rfl | hcount
            · simpa using hstep
            · exact quotedStep?_append hstep hcount
          rw [hstep']
          have hskip := Cursor.skip_extend hreaches
          cases ends with
          | true =>
              rw [GoesOn, hskip] at h
              exact ⟨h.1, Cursor.extend_injective ds h.2⟩
          | false =>
              obtain ⟨more, hmore, htext⟩ := h
              rw [hskip] at hmore
              refine ⟨more, ih _ ?_ _ more hmore rfl, htext⟩
              have hne : 0 < c.rest.length := by
                refine List.length_pos_iff.mpr ?_
                intro hnil
                rw [hnil] at hstep'
                cases hstep'
              simp only [Cursor.skip, List.length_drop]
              omega

theorem cuts_string (kind : StringKind) (opening : ℕ) :
    Cuts (string kind opening) (string kind opening) := by
  intro c after ds name h
  rw [reads_string_iff] at h ⊢
  obtain ⟨text, htext, hname⟩ := h
  rw [Cursor.skip_extend htext.reaches] at htext
  exact ⟨text, cuts_quotedText kind _ after ds text htext, hname⟩

/-! ### Keys -/

theorem Reads.reaches_of_string {kind : StringKind} {opening : ℕ} {c after : Cursor} {name : String}
    (h : Reads (string kind opening) c name after) : ((c.skip opening).Reaches after) := by
  obtain ⟨text, htext, -⟩ := reads_string_iff.mp h
  exact htext.reaches

theorem cuts_keyPart : Cuts keyPart keyPart := by
  intro c after ds key h
  rw [reads_keyPart_iff] at h ⊢
  obtain ⟨hspan, h⟩ := h
  refine ⟨hspan, ?_⟩
  rcases h with ⟨hhead, h⟩ | ⟨hhead, h⟩ | ⟨hbare, hname, hskip⟩
  · have hreaches := h.reaches_of_string
    exact .inl ⟨Cursor.head?_of_extend hhead hreaches, cuts_string .basic 1 c after ds _ h⟩
  · have hreaches := h.reaches_of_string
    exact .inr (.inl ⟨Cursor.head?_of_extend hhead hreaches, cuts_string .literal 1 c after ds _ h⟩)
  · have hreaches : ((c.extend ds).skipWhile isBare).Reaches (after.extend ds) :=
      .of_eq hskip
    have hrun := Cursor.takeWhile_extend hreaches
    rw [Cursor.extend_rest, hrun] at hbare hname
    rw [Cursor.skipWhile_extend hreaches] at hskip
    exact .inr (.inr ⟨hbare, hname, Cursor.extend_injective ds hskip⟩)

theorem needsText_keyPart : NeedsText keyPart := by
  intro c key after h hnil
  obtain ⟨-, h⟩ := reads_keyPart_iff.mp h
  simp [hnil] at h

theorem cuts_keyParts : Cuts keyParts keyParts := by
  intro c after ds path h
  generalize hc : c.extend ds = long at h
  induction h using keyParts_induction generalizing c with
  | last _ part stop hpart hnone hafter _ =>
      subst hc
      have hblanks := Cursor.Reaches.of_eq hafter
      obtain ⟨stop, rfl, -, hpart⟩ :=
        cuts_keyPart.exists_reads hpart ((stop.reaches_skipWhile isBlank).trans hblanks)
      rw [Cursor.skipWhile_extend hblanks] at hnone hafter
      exact reads_keyParts_iff.mpr ⟨part, stop, hpart,
        .inr ⟨Cursor.head?_extend_ne hnone, rfl, Cursor.extend_injective ds hafter⟩⟩
  | more _ part stop path hpart hpoint hpath ih _ =>
      subst hc
      have hnext := hpath.reaches
      have hskip := (Cursor.reaches_skipWhile _ isBlank).trans hnext
      have hblanks := (Cursor.reaches_skip _ 1).trans hskip
      obtain ⟨stop, rfl, -, hpart⟩ :=
        cuts_keyPart.exists_reads hpart ((stop.reaches_skipWhile isBlank).trans hblanks)
      rw [Cursor.skipWhile_extend hblanks] at hpoint hskip hnext ih
      rw [Cursor.skip_extend hskip] at hnext ih
      have hpath := ih _ (Cursor.skipWhile_extend hnext).symm
      exact reads_keyParts_iff.mpr ⟨part, stop, hpart,
        .inl ⟨Cursor.head?_of_extend hpoint hskip, path, hpath, rfl⟩⟩

theorem cuts_keyPath : Cuts keyPath keyPath := by
  intro c after ds path h
  rw [reads_keyPath_iff] at h ⊢
  exact ⟨cuts_keyParts c after ds path h.1, h.2⟩

theorem needsText_keyPath : NeedsText keyPath := by
  intro c path after h
  obtain ⟨part, stop, hpart, -⟩ := reads_keyParts_iff.mp (reads_keyPath_iff.mp h).1
  exact needsText_keyPart c part stop hpart

/-! ### Values -/

theorem cuts_scalarOf (wrap : α → Scalar) {read : List Char → Except (Fault × ℕ) (α × ℕ)}
    (hread : SettledRead read) :
    Cuts (fun c => scalarOf c wrap (read c.rest)) (fun c => scalarOf c wrap (read c.rest)) := by
  intro c after ds node h
  obtain ⟨value, count, hvalue, hafter, rfl⟩ := reads_scalarOf_iff.mp h
  have hreaches : ((c.extend ds).skip count).Reaches (after.extend ds) := .of_eq hafter
  rw [Cursor.skip_extend hreaches] at hafter
  refine reads_scalarOf_iff.mpr ⟨value, count, ?_, Cursor.extend_injective ds hafter, rfl⟩
  rcases Cursor.le_length_of_reaches hreaches with rfl | hcount
  · simpa using hvalue
  · exact hread c.rest ds value count hvalue hcount

theorem cuts_numberOrDate : Cuts numberOrDate numberOrDate := by
  intro c after ds node h
  have hreader (c : Cursor) : numberOrDate c = if beginsDateTime c.rest
      then scalarOf c .dateTime (readDateTime c.rest)
      else scalarOf c Number.scalar (readNumber c.rest) := rfl
  unfold Reads at h ⊢
  rw [hreader] at h ⊢
  split at h
  · next hbegins =>
    have hsame : beginsDateTime c.rest = true := by
      obtain ⟨value, count, hvalue, hafter, -⟩ := reads_scalarOf_iff.mp h
      have hlong := readDateTime_bounds hvalue
      rcases Cursor.le_length_of_reaches (.of_eq hafter) with rfl | hcount
      · simpa using hbegins
      · rwa [Cursor.extend_rest, beginsDateTime_append ds (by omega)] at hbegins
    rw [if_pos hsame]
    exact cuts_scalarOf .dateTime settledRead_readDateTime c after ds node h
  · next hbegins =>
    have hnot : ¬beginsDateTime c.rest = true := fun hshort =>
      hbegins (beginsDateTime_mono ds hshort)
    rw [if_neg hnot]
    exact cuts_scalarOf Number.scalar settledRead_readNumber c after ds node h

/-- The numbers that are spelled in letters have three of them. -/
theorem reaches_of_letters {c after : Cursor} {node : Node} {rest : List Char}
    (hletters : c.rest = 'i' :: 'n' :: 'f' :: rest ∨ c.rest = 'n' :: 'a' :: 'n' :: rest)
    (h : Reads numberOrDate c node after) : c.skip 3 = after := by
  obtain ⟨offset, cs⟩ := c
  obtain ⟨found, hfound, -, rfl⟩ := h
  rcases hletters with rfl | rfl
  · cases hfound
    rfl
  · cases hfound
    rfl

/-- What is spelled in letters has all of them before the place behind it. -/
theorem begins_of_skip (letters : List Char) {c after : Cursor} {ds rest : List Char}
    (hrest : (c.extend ds).rest = letters ++ rest)
    (hskip : (c.extend ds).skip letters.length = after.extend ds) :
    ∃ rest', c = ⟨c.offset, letters ++ rest'⟩ := by
  rcases Cursor.le_length_of_reaches (.of_eq hskip) with rfl | hlength
  · exact ⟨rest, by rw [← hrest, Cursor.extend_rest, List.append_nil]⟩
  · obtain ⟨rest', hrest'⟩ := List.prefix_of_prefix_length_le ⟨rest, hrest.symm⟩
      (List.prefix_append c.rest ds) hlength
    exact ⟨rest', by rw [hrest']⟩

theorem cuts_truth {value : Bool} {count : ℕ} {c after : Cursor} {ds : List Char} {node : Node}
    (h : Reads (fun c => scalarOf c .boolean (.ok (value, count))) (c.extend ds) node
      (after.extend ds)) :
    (c.extend ds).skip count = after.extend ds ∧
      Reads (fun c => scalarOf c .boolean (.ok (value, count))) c node after := by
  have hconstant : SettledRead fun _ => .ok (value, count) := fun _ _ _ _ h _ => h
  refine ⟨?_, cuts_scalarOf .boolean hconstant c after ds node h⟩
  obtain ⟨value', count', hread, hafter, -⟩ := reads_scalarOf_iff.mp h
  cases hread
  exact hafter

theorem opening?_of_extend {kind : StringKind} {opening : ℕ} {c after : Cursor} {ds : List Char}
    {text : String} (h : opening? (c.extend ds).rest = some (kind, opening))
    (hreads : Reads (string kind opening) (c.extend ds) text (after.extend ds)) :
    opening? c.rest = some (kind, opening) := by
  rcases Cursor.le_length_of_reaches hreads.reaches_of_string with rfl | hlength
  · simpa using h
  · exact opening?_append h hlength

theorem cuts_word : Cuts word word := by
  intro c after ds node h
  cases hopening : opening? (c.extend ds).rest with
  | some o =>
      obtain ⟨text, hreads, rfl⟩ := (reads_word_of_opening hopening).mp h
      rw [reads_word_of_opening (opening?_of_extend hopening hreads), Cursor.upTo_extend]
      exact ⟨text, cuts_string _ _ c after ds text hreads, rfl⟩
  | none =>
      have hopening' : opening? c.rest = none := by
        rw [opening?_eq_none_iff] at hopening ⊢
        exact hopening.imp Cursor.head?_extend_ne Cursor.head?_extend_ne
      unfold Reads word at h ⊢
      rw [hopening] at h
      rw [hopening']
      dsimp only at h ⊢
      split at h
      · next rest hrest =>
        obtain ⟨hskip, h⟩ := cuts_truth h
        obtain ⟨rest', hc⟩ := begins_of_skip ['t', 'r', 'u', 'e'] hrest hskip
        rw [hc] at h ⊢
        exact h
      · next rest hrest =>
        obtain ⟨hskip, h⟩ := cuts_truth h
        obtain ⟨rest', hc⟩ := begins_of_skip ['f', 'a', 'l', 's', 'e'] hrest hskip
        rw [hc] at h ⊢
        exact h
      · next rest hrest =>
        obtain ⟨rest', hc⟩ := begins_of_skip ['i', 'n', 'f'] hrest
          (reaches_of_letters (.inl hrest) h)
        have h := cuts_numberOrDate c after ds node h
        rw [hc] at h ⊢
        exact h
      · next rest hrest =>
        obtain ⟨rest', hc⟩ := begins_of_skip ['n', 'a', 'n'] hrest
          (reaches_of_letters (.inr hrest) h)
        have h := cuts_numberOrDate c after ds node h
        rw [hc] at h ⊢
        exact h
      · obtain ⟨found, hfound, -⟩ := h
        cases hfound

theorem skipGap_of_nil {c : Cursor} (h : c.rest = []) : (skipGap c).1 = c := by
  obtain ⟨offset, rest⟩ := c
  subst h
  rw [skipGap]

theorem skipGap_of_head? {c : Cursor} {head : Char} (h : c.rest.head? = some head) :
    (skipGap c).1 =
      if isBlank head then (skipGap (c.skip 1)).1
      else if head = '#' then (skipGap ((c.skip 1).skipWhile isText)).1
      else if lineEnding c.rest = 0 then c
      else (skipGap (c.skip (lineEnding c.rest))).1 := by
  obtain ⟨offset, rest⟩ := c
  obtain ⟨tail, rfl⟩ := List.head?_eq_some_iff.mp h
  rw [skipGap]
  dsimp only
  split
  · rfl
  · split
    · rfl
    · split
      · next hending => rw [if_pos hending]
      · next length hending => rw [if_neg (by omega), hending]

theorem skipGap_extend {c after : Cursor} {ds : List Char}
    (h : (skipGap (c.extend ds)).1.Reaches (after.extend ds)) :
    (skipGap (c.extend ds)).1 = (skipGap c).1.extend ds := by
  induction hn : c.rest.length using Nat.strongRecOn generalizing c with
  | ind n ih =>
      cases hrest : c.rest with
      | nil =>
          -- There is nothing between the end of the text and a place in it.
          have hstart := (skipGap (c.extend ds)).2
          obtain ⟨m, hm, -⟩ := Cursor.exists_extend h
          rw [hm] at hstart ⊢
          rw [hstart.of_extend.eq_of_nil hrest, skipGap_of_nil hrest]
      | cons head tail =>
          have hhead : c.rest.head? = some head := by rw [hrest]; rfl
          have hhead' : (c.extend ds).rest.head? = some head := by rw [Cursor.extend_rest, hrest]; rfl
          have hshorter {count : ℕ} : (c.skip (count + 1)).rest.length < n :=
            hn ▸ Cursor.length_skip_lt hrest count
          rw [skipGap_of_head? hhead'] at h ⊢
          rw [skipGap_of_head? hhead]
          split at h
          · next hblank =>
            have hskip := Cursor.skip_extend ((skipGap _).2.trans h)
            rw [hskip] at h
            rw [if_pos hblank, if_pos hblank, hskip, ih _ hshorter h rfl]
          · next hblank =>
            rw [if_neg hblank, if_neg hblank]
            split at h
            · next hremark =>
              rw [if_pos hremark, if_pos hremark]
              have htext := (skipGap _).2.trans h
              have hskip := Cursor.skip_extend ((Cursor.reaches_skipWhile _ isText).trans htext)
              rw [hskip] at h htext ⊢
              rw [Cursor.skipWhile_extend htext] at h ⊢
              refine ih _ ?_ h rfl
              exact Nat.lt_of_le_of_lt ((c.skip 1).reaches_skipWhile isText).length_le hshorter
            · next hremark =>
              rw [if_neg hremark, if_neg hremark]
              split at h
              · next hending =>
                have hending' : lineEnding c.rest = 0 := by
                  by_contra hends
                  exact hends ((lineEnding_mono ds hends).symm.trans hending)
                rw [if_pos hending, if_pos hending']
              · next hending =>
                have hafter := (skipGap _).2.trans h
                have hsame : lineEnding c.rest = lineEnding (c.extend ds).rest := by
                  rcases Cursor.le_length_of_reaches hafter with rfl | hlength
                  · simp
                  · exact settled_lineEnding c.rest ds hlength
                have hskip := Cursor.skip_extend hafter
                rw [hskip, ← hsame] at h
                rw [if_neg hending, hsame, if_neg hending, hskip, ← hsame]
                rw [← hsame] at hending
                obtain ⟨length, hlength⟩ := Nat.exists_eq_succ_of_ne_zero hending
                exact ih _ (hlength ▸ hshorter) h rfl

theorem cuts_arrayItems {item item' : Reader Node} (hitem : Cuts item item')
    (hneeds : NeedsText item') : Cuts (arrayItems item) (arrayItems item') := by
  intro c after ds nodes h
  generalize hc : c.extend ds = long at h
  -- An item and what stands behind it, when the reader goes on from there.
  have hcut {c stop : Cursor} {node : Node} {x : Char}
      (hbegins : (skipGap (c.extend ds)).1.rest.head?.any
        (fun head => head ≠ ']' && beginsValue head))
      (hnode : Reads item (skipGap (c.extend ds)).1 node stop)
      (hnext : (skipGap stop).1.rest.head? = some x)
      (hskip : ((skipGap stop).1.skip 1).Reaches (after.extend ds)) :
      (skipGap c).1.rest.head?.any (fun head => head ≠ ']' && beginsValue head) ∧
        ∃ stop', Reads item' (skipGap c).1 node stop' ∧ (skipGap stop').1.rest.head? = some x ∧
          (skipGap stop).1.skip 1 = ((skipGap stop').1.skip 1).extend ds := by
    have hgap := (Cursor.reaches_skip _ 1).trans hskip
    have hstop := (skipGap stop).2.trans hgap
    rw [skipGap_extend (hnode.reaches.trans hstop)] at hbegins hnode
    obtain ⟨stop', rfl, -, hnode⟩ := hitem.exists_reads hnode hstop
    rw [skipGap_extend hgap] at hnext hskip ⊢
    rw [Cursor.head?_extend ds (hneeds _ _ _ hnode)] at hbegins
    exact ⟨hbegins, stop', hnode, Cursor.head?_of_extend hnext hskip, Cursor.skip_extend hskip⟩
  induction h using arrayItems_induction generalizing c with
  | nil _ hclose hafter _ =>
      subst hc
      have hskip := Cursor.Reaches.of_eq hafter
      rw [skipGap_extend ((Cursor.reaches_skip _ 1).trans hskip)] at hclose hafter hskip
      rw [Cursor.skip_extend hskip] at hafter
      exact reads_arrayItems_iff.mpr
        (.inl ⟨Cursor.head?_of_extend hclose hskip, rfl, Cursor.extend_injective ds hafter⟩)
  | last _ node stop hbegins hnode hclose hafter _ =>
      subst hc
      obtain ⟨hbegins, stop', hnode, hclose, hskip⟩ := hcut hbegins hnode hclose (.of_eq hafter)
      rw [hskip] at hafter
      exact reads_arrayItems_iff.mpr (.inr ⟨hbegins, node, stop', hnode,
        .inr ⟨hclose, rfl, Cursor.extend_injective ds hafter⟩⟩)
  | more _ node stop nodes hbegins hnode hcomma hnodes ih _ =>
      subst hc
      obtain ⟨hbegins, stop', hnode, hcomma, hskip⟩ := hcut hbegins hnode hcomma hnodes.reaches
      exact reads_arrayItems_iff.mpr (.inr ⟨hbegins, node, stop', hnode,
        .inl ⟨hcomma, nodes, ih _ hskip.symm, rfl⟩⟩)

theorem cuts_assignment {value value' : Reader Node} (hvalue : Cuts value value') :
    Cuts (assignment value) (assignment value') := by
  intro c after ds a h
  rw [reads_assignment_iff] at h ⊢
  obtain ⟨hoffset, stop, hpath, hequals, stop', hnode, hafter⟩ := h
  refine ⟨hoffset, ?_⟩
  have hblanks' := Cursor.Reaches.of_eq hafter
  have hstop' := (stop'.reaches_skipWhile isBlank).trans hblanks'
  have hblanks := hnode.reaches.trans hstop'
  have hskip := (Cursor.reaches_skipWhile _ isBlank).trans hblanks
  obtain ⟨stop, rfl, -, hpath⟩ := cuts_keyPath.exists_reads hpath ((stop.reaches_skip 1).trans hskip)
  rw [Cursor.skip_extend hskip] at hblanks hnode
  rw [Cursor.skipWhile_extend hblanks] at hnode
  obtain ⟨stop', rfl, -, hnode⟩ := hvalue.exists_reads hnode hstop'
  rw [Cursor.skipWhile_extend hblanks'] at hafter
  exact ⟨stop, hpath, Cursor.head?_of_extend hequals hskip, stop', hnode,
    Cursor.extend_injective ds hafter⟩

theorem needsText_inlineEntries (value : Reader Node) : NeedsText (inlineEntries value) := by
  intro c as after h
  obtain ⟨a, stop, ha, -⟩ := reads_inlineEntries_iff.mp h
  obtain ⟨-, stop', hpath, -⟩ := reads_assignment_iff.mp ha
  exact needsText_keyPath c a.path stop' hpath

theorem cuts_inlineEntries {value value' : Reader Node} (hvalue : Cuts value value') :
    Cuts (inlineEntries value) (inlineEntries value') := by
  intro c after ds as h
  generalize hc : c.extend ds = long at h
  induction h using inlineEntries_induction generalizing c with
  | last _ a stop ha hbrace hafter _ =>
      subst hc
      have hskip := Cursor.Reaches.of_eq hafter
      obtain ⟨stop, rfl, -, ha⟩ :=
        (cuts_assignment hvalue).exists_reads ha ((stop.reaches_skip 1).trans hskip)
      rw [Cursor.skip_extend hskip] at hafter
      exact reads_inlineEntries_iff.mpr ⟨a, stop, ha, .inr
        ⟨Cursor.head?_of_extend hbrace hskip, rfl, Cursor.extend_injective ds hafter⟩⟩
  | more _ a stop as ha hcomma hkey has ih _ =>
      subst hc
      have hblanks := has.reaches
      have hskip := (Cursor.reaches_skipWhile _ isBlank).trans hblanks
      obtain ⟨stop, rfl, -, ha⟩ :=
        (cuts_assignment hvalue).exists_reads ha ((stop.reaches_skip 1).trans hskip)
      rw [Cursor.skip_extend hskip] at hblanks hkey ih
      rw [Cursor.skipWhile_extend hblanks] at hkey ih
      have has := ih _ rfl
      rw [Cursor.head?_extend ds (needsText_inlineEntries _ _ _ _ has)] at hkey
      exact reads_inlineEntries_iff.mpr ⟨a, stop, ha, .inl
        ⟨Cursor.head?_of_extend hcomma hskip, hkey, as, has, rfl⟩⟩

theorem needsText_valueWith (inner : Option (Reader Node)) : NeedsText (valueWith inner) := by
  intro c node after h hnil
  obtain ⟨head, hhead, -⟩ := reads_valueWith_iff.mp h
  simp [hnil] at hhead

theorem needsText_numberOrDate : NeedsText numberOrDate := by
  rintro ⟨offset, rest⟩ node after ⟨found, hfound, -⟩ hnil
  cases hnil
  cases hfound

theorem needsText_word : NeedsText word := by
  rintro ⟨offset, rest⟩ node after ⟨found, hfound, -⟩ hnil
  cases hnil
  cases hfound

theorem cuts_valueWith {inner inner' : Option (Reader Node)}
    (hinner : ∀ r ∈ inner, ∃ r' ∈ inner', Cuts r r' ∧ NeedsText r') :
    Cuts (valueWith inner) (valueWith inner') := by
  intro c after ds node h
  rw [reads_valueWith_iff] at h ⊢
  obtain ⟨head, hhead, h⟩ := h
  refine ⟨head, ?_⟩
  rcases h with ⟨rfl, item, hitem, nodes, hnodes, rfl⟩ | ⟨rfl, value, hvalue, h⟩ | ⟨hbracket, hbrace, h⟩
  · obtain ⟨item', hitem', hcuts, hneeds⟩ := hinner item hitem
    have hskip := hnodes.reaches
    rw [Cursor.skip_extend hskip] at hnodes
    refine ⟨Cursor.head?_of_extend hhead hskip, .inl ⟨rfl, item', hitem', nodes, ?_, rfl⟩⟩
    exact cuts_arrayItems hcuts hneeds _ _ _ _ hnodes
  · obtain ⟨value', hvalue', hcuts, hneeds⟩ := hinner value hvalue
    have hblanks : (((c.extend ds).skip 1).skipWhile isBlank).Reaches (after.extend ds) := by
      rcases h with ⟨-, as, has, -⟩ | ⟨-, hafter, -⟩
      · exact has.reaches
      · exact (Cursor.reaches_skip _ 1).trans (.of_eq hafter)
    have hskip := (Cursor.reaches_skipWhile _ isBlank).trans hblanks
    rw [Cursor.skip_extend hskip] at hblanks h
    rw [Cursor.skipWhile_extend hblanks] at h
    refine ⟨Cursor.head?_of_extend hhead hskip, .inr (.inl ⟨rfl, value', hvalue', ?_⟩)⟩
    rcases h with ⟨hkey, as, has, htable⟩ | ⟨hclose, hafter, rfl⟩
    · have has := cuts_inlineEntries hcuts _ _ _ _ has
      rw [Cursor.head?_extend ds (needsText_inlineEntries _ _ _ _ has)] at hkey
      exact .inl ⟨hkey, as, has, htable⟩
    · have hone := Cursor.Reaches.of_eq hafter
      rw [Cursor.skip_extend hone] at hafter
      exact .inr ⟨Cursor.head?_of_extend hclose hone, Cursor.extend_injective ds hafter, rfl⟩
  · by_cases hnumber : beginsNumber head = true
    · rw [if_pos hnumber] at h
      have h := cuts_numberOrDate c after ds node h
      rw [Cursor.head?_extend ds (needsText_numberOrDate c node after h)] at hhead
      refine ⟨hhead, .inr (.inr ⟨hbracket, hbrace, ?_⟩)⟩
      rwa [if_pos hnumber]
    · rw [if_neg hnumber] at h
      have h := cuts_word c after ds node h
      rw [Cursor.head?_extend ds (needsText_word c node after h)] at hhead
      refine ⟨hhead, .inr (.inr ⟨hbracket, hbrace, ?_⟩)⟩
      rwa [if_neg hnumber]

/-- A value can be read alone wherever no less deep nesting is allowed. -/
theorem cuts_valueWithin {depth depth' : ℕ} (h : depth ≤ depth') :
    Cuts (valueWithin depth) (valueWithin depth') := by
  induction depth generalizing depth' with
  | zero =>
      cases depth' with
      | zero => exact cuts_valueWith (by simp)
      | succ depth' => exact cuts_valueWith (by simp)
  | succ depth ih =>
      cases depth' with
      | zero => omega
      | succ depth' =>
          have hneeds : NeedsText (valueWithin depth') := by
            cases depth' <;> exact needsText_valueWith _
          refine cuts_valueWith ?_
          simpa using ⟨ih (Nat.le_of_succ_le_succ h), hneeds⟩

end BlockOutline.Toml
