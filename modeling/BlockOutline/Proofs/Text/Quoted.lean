import BlockOutline.Proofs.Text.Pieces
import BlockOutline.Proofs.Text.SelfDelimiting
import BlockOutline.Text.CodePoint
import BlockOutline.Text.Quoted

/-! # Reading quoted texts

Whatever a quoted text holds, it can be read back character by character, up to the quote that ends
it. -/

namespace BlockOutline.Text

/-! ## Hexadecimal digits -/

theorem hexDigit?_digitChar {d : ℕ} (h : d < 16) : hexDigit? (Nat.digitChar d) = some d := by
  revert d
  decide

theorem hexValue?_append_digit {digits : List Char} {n d : ℕ} (hdigits : hexValue? digits = some n)
    (hd : d < 16) : hexValue? (digits ++ [Nat.digitChar d]) = some (16 * n + d) := by
  rw [hexValue?] at hdigits ⊢
  rw [List.foldl_append, hdigits, List.foldl_cons, List.foldl_nil, hexDigit?_digitChar hd]
  rfl

theorem hexValue?_toDigits (n : ℕ) : hexValue? (Nat.toDigits 16 n) = some n := by
  induction n using Nat.strongRecOn with
  | ind n ih =>
      rw [Nat.toDigits_eq_if (by decide)]
      split
      · next h =>
          have hnil : hexValue? [] = some 0 := rfl
          simpa using hexValue?_append_digit hnil h
      · next h =>
          rw [hexValue?_append_digit (ih (n / 16) (by omega)) (Nat.mod_lt n (by decide))]
          rw [Nat.div_add_mod]

theorem exists_digitChar_of_mem_toDigits {n : ℕ} {c : Char} (h : c ∈ Nat.toDigits 16 n) :
    ∃ d < 16, c = Nat.digitChar d := by
  induction n using Nat.strongRecOn with
  | ind n ih =>
      rw [Nat.toDigits_eq_if (by decide)] at h
      split at h
      · next hn => exact ⟨n, hn, List.mem_singleton.mp h⟩
      · next hn =>
          rcases List.mem_append.mp h with h | h
          · exact ih (n / 16) (by omega) h
          · exact ⟨n % 16, Nat.mod_lt n (by decide), List.mem_singleton.mp h⟩

/-- No brace and no line ending is a hexadecimal digit. -/
theorem ne_of_mem_toDigits {n : ℕ} {c : Char} (h : c ∈ Nat.toDigits 16 n) :
    c ≠ '}' ∧ c ≠ '\n' ∧ c ≠ '\r' := by
  have hdigit : ∀ d < 16, Nat.digitChar d ≠ '}' ∧ Nat.digitChar d ≠ '\n' ∧
      Nat.digitChar d ≠ '\r' := by
    decide
  obtain ⟨d, hd, rfl⟩ := exists_digitChar_of_mem_toDigits h
  exact hdigit d hd

theorem namedCharacter?_toDigits (c : Char) : namedCharacter? (Nat.toDigits 16 c.toNat) = some c := by
  have hvalid : c.toNat.isValidChar := c.valid
  rw [namedCharacter?, hexValue?_toDigits, Option.bind_some, codePoint?, dif_pos hvalid]
  rfl

/-! ## Characters between quotes -/

namespace Quoted

/-- What a backslash and a letter stand for. -/
def letterMeaning? (letter : Char) : Option Char :=
  if letter = '0' then some '\x00'
  else if letter = 't' then some '\t'
  else if letter = 'r' then some '\r'
  else if letter = 'n' then some '\n'
  else if letter = '\\' then some '\\'
  else if letter = '"' then some '"'
  else none

/-- The character that is named behind a backslash, and the rest. -/
def readEscape? : List Char → Option (Char × List Char)
  | [] => none
  | 'u' :: '{' :: rest =>
    (namedCharacter? (rest.takeWhile (· ≠ '}'))).map (·, (rest.dropWhile (· ≠ '}')).drop 1)
  | letter :: rest => (letterMeaning? letter).map (·, rest)

/-- The first character that is meant between quotes, and the rest; the quote at the end is none. -/
def readChar? : List Char → Option (Char × List Char)
  | [] => none
  | c :: rest => if c = '"' then none else if c = '\\' then readEscape? rest else some (c, rest)

theorem readEscape?_letterEscape {c letter : Char} (h : letterEscape? c = some letter)
    (rest : List Char) : readEscape? (letter :: rest) = some (c, rest) := by
  unfold letterEscape? at h
  split_ifs at h <;> cases h <;> subst_vars <;> rfl

theorem readEscape?_codePoint (c : Char) (rest : List Char) :
    readEscape? (['u', '{'] ++ Nat.toDigits 16 c.toNat ++ ['}'] ++ rest) = some (c, rest) := by
  have hdigits : ∀ d ∈ Nat.toDigits 16 c.toNat, decide (d ≠ '}') = true := by
    intro d hd
    exact decide_eq_true (ne_of_mem_toDigits hd).1
  have hbrace : decide ('}' ≠ '}') = false := by decide
  simp only [List.cons_append, List.nil_append, List.append_assoc]
  rw [readEscape?, takeWhile_append_cons hdigits hbrace, List.dropWhile_append_of_pos hdigits,
    List.dropWhile_cons_of_neg (by decide), namedCharacter?_toDigits]
  rfl

theorem readChar?_encodeChar (c : Char) (rest : List Char) :
    readChar? (encodeChar c ++ rest) = some (c, rest) := by
  rw [encodeChar]
  cases h : letterEscape? c with
  | some letter => exact readEscape?_letterEscape h rest
  | none =>
      dsimp only
      split
      · exact readEscape?_codePoint c rest
      · have hquote : c ≠ '"' := by
          intro hc
          subst hc
          cases h
        have hbackslash : c ≠ '\\' := by
          intro hc
          subst hc
          cases h
        rw [List.singleton_append, readChar?, if_neg hquote, if_neg hbackslash]

theorem encodeChars_append_quote_inj {cs ds : List Char} {x y : List Char}
    (h : cs.flatMap encodeChar ++ '"' :: x = ds.flatMap encodeChar ++ '"' :: y) : cs = ds := by
  have hread := congrArg readChar? h
  induction cs generalizing ds with
  | nil =>
      cases ds with
      | nil => rfl
      | cons d ds =>
          -- No character is read from the quote that ends the other text.
          rw [List.flatMap_cons, List.append_assoc, readChar?_encodeChar] at hread
          cases hread
  | cons c cs ih =>
      cases ds with
      | nil =>
          rw [List.flatMap_cons, List.append_assoc, readChar?_encodeChar] at hread
          cases hread
      | cons d ds =>
          rw [List.flatMap_cons, List.flatMap_cons, List.append_assoc, List.append_assoc,
            readChar?_encodeChar, readChar?_encodeChar, Option.some.injEq, Prod.mk.injEq] at hread
          rw [hread.1, ih hread.2 (congrArg readChar? hread.2)]

/-- A quoted text ends at the first quote that is not escaped. -/
theorem selfDelimiting_encode : SelfDelimiting encode := by
  intro s t x y h
  have hchars := congrArg String.toList h
  simp only [encode, String.toList_append, String.toList_ofList, List.cons_append, List.append_assoc,
    List.cons.injEq, true_and, List.nil_append] at hchars
  exact String.toList_inj.mp (encodeChars_append_quote_inj hchars)

/-! ## Quoted texts on one line -/

theorem unbroken_encodeChar (c : Char) : Unbroken (String.ofList (encodeChar c)) := by
  intro d hd
  rw [String.toList_ofList, encodeChar] at hd
  cases hletter : letterEscape? c with
  | some letter =>
      simp only [hletter, List.mem_cons, List.not_mem_nil, or_false] at hd
      rcases hd with rfl | rfl
      · decide
      · unfold letterEscape? at hletter
        split_ifs at hletter <;> cases hletter <;> decide
  | none =>
      simp only [hletter] at hd
      split at hd
      · simp only [codePointEscape, List.mem_append, List.mem_cons, List.not_mem_nil, or_false] at hd
        rcases hd with ((rfl | rfl | rfl) | hd) | rfl
        · decide
        · decide
        · decide
        · exact (ne_of_mem_toDigits hd).2
        · decide
      · -- A line ending would have been escaped by its letter.
        obtain rfl := List.mem_singleton.mp hd
        constructor
        · intro hc
          subst hc
          cases hletter
        · intro hc
          subst hc
          cases hletter

theorem unbroken_encode (text : String) : Unbroken (encode text) := by
  intro c hc
  simp only [encode, String.toList_ofList, List.mem_append, List.mem_cons, List.mem_flatMap,
    List.not_mem_nil, or_false] at hc
  rcases hc with (rfl | ⟨d, -, hd⟩) | rfl
  · decide
  · exact unbroken_encodeChar d c (by simpa using hd)
  · decide

end Quoted

end BlockOutline.Text
