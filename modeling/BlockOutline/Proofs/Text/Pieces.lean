import BlockOutline.Text.Pieces
import Mathlib.Data.List.Basic
import Mathlib.Data.List.TakeWhile

/-! # Pieces of texts

Texts that are joined can be cut again at what was put between them. So the lines of a text that is
written line by line are the ones that were written. -/

namespace BlockOutline.Text

/-! ## Cuts -/

section Split

variable {α : Type} {test : α → Bool}

theorem splitAt_ne_nil (xs : List α) : splitAt test xs ≠ [] := by
  cases xs with
  | nil => simp [splitAt]
  | cons x xs =>
      rw [splitAt]
      split
      · simp
      · split <;> simp

theorem splitAt_eq_singleton {xs : List α} (h : ∀ x ∈ xs, test x = false) :
    splitAt test xs = [xs] := by
  induction xs with
  | nil => rfl
  | cons x xs ih =>
      have hrest := ih fun y hy => h y (List.mem_cons_of_mem x hy)
      simp [splitAt, h x List.mem_cons_self, hrest]

/-- A cut does not depend on what stands on its other side. -/
theorem splitAt_append_cons {x : α} (hx : test x = true) (xs ys : List α) :
    splitAt test (xs ++ x :: ys) = splitAt test xs ++ splitAt test ys := by
  induction xs with
  | nil => simp [splitAt, hx]
  | cons y xs ih =>
      rw [List.cons_append, splitAt, splitAt, ih]
      split
      · rfl
      · cases h : splitAt test xs with
        | nil => exact absurd h (splitAt_ne_nil xs)
        | cons piece pieces => rfl

theorem splitAt_cons_of_not {x : α} (hx : test x = false) {xs piece : List α}
    {pieces : List (List α)} (h : splitAt test xs = piece :: pieces) :
    splitAt test (x :: xs) = (x :: piece) :: pieces := by
  rw [splitAt, if_neg (by simp [hx]), h]

theorem splitAt_ne_singleton_nil {xs : List α} (h : xs ≠ []) : splitAt test xs ≠ [[]] := by
  obtain ⟨x, xs, rfl⟩ := List.exists_cons_of_ne_nil h
  intro hsplit
  rw [splitAt] at hsplit
  split at hsplit
  · exact splitAt_ne_nil xs (List.cons.inj hsplit).2
  · split at hsplit <;> simp at hsplit

end Split

theorem split_ne_nil (c : Char) (text : String) : split c text ≠ [] := by
  simp [split, splitAt_ne_nil]

theorem split_empty (c : Char) : split c "" = [""] :=
  rfl

theorem split_eq_singleton {c : Char} {text : String} (h : c ∉ text.toList) :
    split c text = [text] := by
  rw [split, splitAt_eq_singleton, List.map_singleton, String.ofList_toList]
  intro x hx
  exact decide_eq_false fun heq => h (heq ▸ hx)

section Separator

variable {separator : String} {c : Char} (hseparator : separator.toList = [c])

include hseparator

theorem split_append (before after : String) :
    split c (before ++ separator ++ after) = split c before ++ split c after := by
  have hlist : (before ++ separator ++ after).toList = before.toList ++ c :: after.toList := by
    simp [hseparator]
  rw [split, hlist, splitAt_append_cons (by simp), List.map_append]
  rfl

theorem split_joined {texts : List String} (hne : texts ≠ [])
    (h : ∀ text ∈ texts, c ∉ text.toList) : split c (joined separator texts) = texts := by
  induction texts with
  | nil => exact absurd rfl hne
  | cons text texts ih =>
      have htext := split_eq_singleton (h text List.mem_cons_self)
      cases texts with
      | nil => exact htext
      | cons next texts =>
          have hrest := ih (by simp) fun t ht => h t (List.mem_cons_of_mem text ht)
          rw [joined, split_append hseparator, htext, hrest]
          · rfl
          · simp

theorem joined_split (text : String) : joined separator (split c text) = text := by
  obtain ⟨cs, rfl⟩ : ∃ cs, text = String.ofList cs := ⟨text.toList, by simp⟩
  rw [split, String.toList_ofList]
  induction cs with
  | nil => rfl
  | cons d cs ih =>
      obtain ⟨piece, pieces, hpieces⟩ := List.exists_cons_of_ne_nil (splitAt_ne_nil cs)
      rw [hpieces] at ih
      by_cases hd : d = c
      · subst hd
        rw [splitAt, if_pos (by simp), hpieces]
        simp only [List.map_cons, joined] at ih ⊢
        rw [ih, ← String.toList_inj]
        simp [hseparator]
      · rw [splitAt_cons_of_not (by simp [hd]) hpieces]
        rw [← String.toList_inj] at ih ⊢
        cases pieces with
        | nil => simpa [joined] using ih
        | cons next pieces => simpa [joined] using ih

end Separator

theorem split_join_slash (path name : String) :
    split '/' (path ++ "/" ++ name) = split '/' path ++ split '/' name :=
  split_append (by simp) path name

/-! ## Joined texts -/

theorem beginsWith_iff {text beginning : String} :
    beginsWith text beginning = true ↔ ∃ rest, text = beginning ++ rest := by
  rw [beginsWith, List.isPrefixOf_iff_prefix]
  constructor
  · intro h
    obtain ⟨rest, hrest⟩ := h
    refine ⟨String.ofList rest, String.toList_inj.mp ?_⟩
    simp [hrest]
  · intro h
    obtain ⟨rest, rfl⟩ := h
    exact ⟨rest.toList, by simp⟩

theorem joined_append (separator : String) {as bs : List String} (ha : as ≠ []) (hb : bs ≠ []) :
    joined separator (as ++ bs) = joined separator as ++ separator ++ joined separator bs := by
  induction as with
  | nil => exact absurd rfl ha
  | cons a as ih =>
      cases as with
      | nil =>
          cases bs with
          | nil => exact absurd rfl hb
          | cons b bs => rfl
      | cons a' as =>
          have hrest := ih (by simp)
          simp only [List.cons_append, joined] at hrest ⊢
          rw [hrest]
          simp only [String.append_assoc]

/-- Texts that are joined from parts can be joined from all the parts at once. -/
theorem joined_flatMap {α : Type} (separator : String) {parts : α → List String} {xs : List α}
    (h : ∀ x ∈ xs, parts x ≠ []) :
    joined separator (xs.map fun x => joined separator (parts x)) =
      joined separator (xs.flatMap parts) := by
  induction xs with
  | nil => rfl
  | cons x xs ih =>
      have hx := h x List.mem_cons_self
      have hrest := ih fun y hy => h y (List.mem_cons_of_mem x hy)
      cases xs with
      | nil => simp [joined]
      | cons y xs =>
          have hy : (y :: xs).flatMap parts ≠ [] := by
            simp [h y (List.mem_cons_of_mem x List.mem_cons_self)]
          rw [List.flatMap_cons, joined_append separator hx hy, ← hrest]
          rfl

theorem mem_toList_joined {separator : String} {texts : List String} {c : Char}
    (h : c ∈ (joined separator texts).toList) :
    c ∈ separator.toList ∨ ∃ text ∈ texts, c ∈ text.toList := by
  induction texts with
  | nil => simp [joined] at h
  | cons text texts ih =>
      cases texts with
      | nil => exact .inr ⟨text, List.mem_cons_self, h⟩
      | cons next texts =>
          simp only [joined, String.toList_append, List.mem_append] at h
          rcases h with (h | h) | h
          · exact .inr ⟨text, List.mem_cons_self, h⟩
          · exact .inl h
          · rcases ih h with h | ⟨t, ht, h⟩
            · exact .inl h
            · exact .inr ⟨t, List.mem_cons_of_mem text ht, h⟩

theorem append_slash_ne_empty (before after : String) : before ++ "/" ++ after ≠ "" := by
  intro h
  exact absurd (congrArg String.toList h) (by simp)

/-! ## Lines -/

/-- A text without a character that could end a line. -/
def Unbroken (text : String) : Prop :=
  ∀ c ∈ text.toList, c ≠ '\n' ∧ c ≠ '\r'

instance (text : String) : Decidable (Unbroken text) :=
  List.decidableBAll (fun c => c ≠ '\n' ∧ c ≠ '\r') text.toList

theorem Unbroken.append {s t : String} (hs : Unbroken s) (ht : Unbroken t) : Unbroken (s ++ t) := by
  intro c hc
  rw [String.toList_append] at hc
  rcases List.mem_append.mp hc with hc | hc
  · exact hs c hc
  · exact ht c hc

theorem unbroken_joined {separator : String} {texts : List String} (hseparator : Unbroken separator)
    (h : ∀ text ∈ texts, Unbroken text) : Unbroken (joined separator texts) := by
  intro c hc
  rcases mem_toList_joined hc with hc | ⟨text, htext, hc⟩
  · exact hseparator c hc
  · exact h text htext c hc

theorem number_inj {m n : ℕ} (h : toString m = toString n) : m = n := by
  have hdigits (k : ℕ) : (toString k).toList = Nat.toDigits 10 k := Nat.toList_repr
  have hread := congrArg (fun text => Nat.ofDigitChars 10 text.toList 0) h
  simpa only [hdigits, Nat.ofDigitChars_ten_toDigits] using hread

theorem unbroken_number (n : ℕ) : Unbroken (toString n) := by
  intro c hc
  have hshown : (toString n).toList = Nat.toDigits 10 n := Nat.toList_repr
  have hdigit : c.isDigit = true :=
    Nat.isDigit_of_mem_toDigits (by decide) (by decide) (hshown ▸ hc)
  constructor
  · intro hc
    subst hc
    cases hdigit
  · intro hc
    subst hc
    cases hdigit

/-- What is written line by line is read as these lines. -/
theorem lines_joined {texts : List String} (hne : ∀ text ∈ texts, text ≠ "")
    (h : ∀ text ∈ texts, Unbroken text) : lines (joined "\n" texts) = texts := by
  rcases List.eq_nil_or_concat' texts with rfl | ⟨front, last, rfl⟩
  · rfl
  have hsplit : split '\n' (joined "\n" (front ++ [last])) = front ++ [last] := by
    refine split_joined (by simp) (by simp) ?_
    intro text htext hbreak
    exact (h text htext _ hbreak).1 rfl
  have hpieces : splitAt (· = '\n') (joined "\n" (front ++ [last])).toList =
      front.map String.toList ++ [last.toList] := by
    have hchars := congrArg (List.map String.toList) hsplit
    simpa [split, Function.comp_def] using hchars
  have hwhole : (front.map String.toList).map (fun line =>
      if line.getLast? = some '\r' then line.dropLast else line) = front.map String.toList := by
    rw [List.map_map]
    refine List.map_congr_left ?_
    intro text htext
    refine if_neg ?_
    intro hlast
    exact (h text (List.mem_append_left _ htext) _ (List.mem_of_getLast? hlast)).2 rfl
  have hlast : last.toList ≠ [] := by
    intro hnil
    exact hne last (by simp) (String.toList_eq_nil_iff.mp hnil)
  unfold lines
  simp only [hpieces, List.dropLast_concat, List.getLast?_concat, Option.getD_some, hwhole,
    if_neg hlast, List.map_append, List.map_map]
  simp [Function.comp_def]

/-! ## Characters replaced and taken off -/

theorem replace_eq_self {old new : Char} {text : String} (h : old ∉ text.toList) :
    replace old new text = text := by
  have hmap : text.toList.map (fun c => if c = old then new else c) = text.toList.map id := by
    refine List.map_congr_left ?_
    intro c hc
    have hne : c ≠ old := fun heq => h (heq ▸ hc)
    rw [if_neg hne, id]
  rw [replace, hmap, List.map_id, String.ofList_toList]

theorem replace_eq_empty_iff {old new : Char} {text : String} :
    replace old new text = "" ↔ text = "" := by
  rw [replace, ← String.toList_eq_nil_iff, String.toList_ofList, List.map_eq_nil_iff,
    String.toList_eq_nil_iff]

/-- Where a character is replaced by another one, a cut at the other is a cut at both. -/
theorem splitAt_replace (old new : Char) (cs : List Char) :
    splitAt (· = new) (cs.map fun c => if c = old then new else c) =
      (splitAt (· = new) cs).flatMap (splitAt (· = old)) := by
  induction cs with
  | nil => rfl
  | cons c cs ih =>
      obtain ⟨piece, pieces, hpieces⟩ : ∃ piece pieces, splitAt (· = new) cs = piece :: pieces :=
        List.exists_cons_of_ne_nil (splitAt_ne_nil cs)
      obtain ⟨first, others, hfirst⟩ : ∃ first others, splitAt (· = old) piece = first :: others :=
        List.exists_cons_of_ne_nil (splitAt_ne_nil piece)
      rw [List.map_cons]
      by_cases hnew : c = new
      · subst hnew
        rw [ite_self, splitAt, if_pos (by simp), ih, splitAt, if_pos (by simp)]
        rfl
      · rw [splitAt_cons_of_not (by simp [hnew]) hpieces, List.flatMap_cons]
        rw [hpieces, List.flatMap_cons, hfirst] at ih
        by_cases hold : c = old
        · subst hold
          rw [if_pos rfl, splitAt, if_pos (by simp), ih, splitAt, if_pos (by simp), hfirst]
          rfl
        · rw [if_neg hold, splitAt_cons_of_not (by simp [hnew]) ih,
            splitAt_cons_of_not (by simp [hold]) hfirst]
          rfl

theorem split_replace (old new : Char) (text : String) :
    split new (replace old new text) = (split new text).flatMap (split old) := by
  rw [split, replace, String.toList_ofList, splitAt_replace, List.map_flatMap, split,
    List.flatMap_map]
  simp [split]

theorem dropWhile_replicate_append {c : Char} {cs : List Char} (h : cs.head? ≠ some c) (n : ℕ) :
    (List.replicate n c ++ cs).dropWhile (· = c) = cs := by
  rw [List.dropWhile_append_of_pos (by simp [List.mem_replicate])]
  cases cs with
  | nil => rfl
  | cons d cs =>
      have hd : d ≠ c := fun hd => h (congrArg some hd)
      simp [hd]

/-- A character is trimmed off both ends, however often it stands there. -/
theorem trim_between {c : Char} {text : String} (hne : text ≠ "")
    (hfirst : text.toList.head? ≠ some c) (hlast : text.toList.getLast? ≠ some c) (m n : ℕ) :
    trim c (String.ofList (List.replicate m c) ++ text ++ String.ofList (List.replicate n c)) =
      text := by
  have hfront : (text.toList ++ List.replicate n c).head? ≠ some c := by
    cases hchars : text.toList with
    | nil => exact absurd (String.toList_eq_nil_iff.mp hchars) hne
    | cons d cs => simpa [hchars] using hfirst
  have hback : text.toList.reverse.head? ≠ some c := by
    rw [List.head?_reverse]
    exact hlast
  rw [trim, String.toList_append, String.toList_append, String.toList_ofList,
    String.toList_ofList, List.append_assoc, dropWhile_replicate_append hfront,
    List.reverse_append, List.reverse_replicate, dropWhile_replicate_append hback,
    List.reverse_reverse, String.ofList_toList]

theorem exists_replicate_append (c : Char) (cs : List Char) :
    ∃ n, cs = List.replicate n c ++ cs.dropWhile (· = c) := by
  refine ⟨(cs.takeWhile (· = c)).length, ?_⟩
  have hall : ∀ d ∈ cs.takeWhile (· = c), d = c := by
    intro d hd
    simpa using List.mem_takeWhile_imp hd
  rw [← List.eq_replicate_of_mem hall, List.takeWhile_append_dropWhile]

theorem head?_dropWhile_ne (c : Char) (cs : List Char) : (cs.dropWhile (· = c)).head? ≠ some c := by
  intro h
  have hnot := List.head?_dropWhile_not (· = c) cs
  rw [h] at hnot
  simp at hnot

/-- Nothing but the character is trimmed off, and none of it is left at an end. -/
theorem exists_trim (c : Char) (text : String) :
    (∃ m n, text = String.ofList (List.replicate m c) ++ trim c text ++
        String.ofList (List.replicate n c)) ∧
      (trim c text).toList.head? ≠ some c ∧ (trim c text).toList.getLast? ≠ some c := by
  obtain ⟨m, hm⟩ := exists_replicate_append c text.toList
  obtain ⟨n, hn⟩ := exists_replicate_append c (text.toList.dropWhile (· = c)).reverse
  have hfront := head?_dropWhile_ne c text.toList
  have hback := head?_dropWhile_ne c (text.toList.dropWhile (· = c)).reverse
  have hkept : text.toList.dropWhile (· = c) = (trim c text).toList ++ List.replicate n c := by
    rw [trim, String.toList_ofList, ← List.reverse_inj, List.reverse_append, List.reverse_reverse,
      List.reverse_replicate]
    exact hn
  refine ⟨⟨m, n, ?_⟩, ?_, ?_⟩
  · rw [← String.toList_inj, String.toList_append, String.toList_append, String.toList_ofList,
      String.toList_ofList, List.append_assoc, ← hkept]
    exact hm
  · intro h
    rw [hkept, List.head?_append, h] at hfront
    exact hfront rfl
  · rw [trim, String.toList_ofList, List.getLast?_reverse]
    exact hback

end BlockOutline.Text
