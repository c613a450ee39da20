import BlockOutline.Block
import BlockOutline.Proofs.Text.Pieces

/-! # Self-delimiting texts

A text that shows a value and where the value ends can be followed by anything. So values that are
written one behind the other, with fixed texts between them, can be told again from the whole. -/

namespace BlockOutline.Text

variable {α β γ : Type}

/-- A value can be told from its text and whatever follows it. -/
def SelfDelimitingAt (write : α → String) (a : α) : Prop :=
  ∀ b x y, write a ++ x = write b ++ y → a = b

def SelfDelimiting (write : α → String) : Prop :=
  ∀ a, SelfDelimitingAt write a

/-- Two texts that differ before one of them ends. -/
def Parted (s t : String) : Prop :=
  ∀ x y, s ++ x ≠ t ++ y

theorem parted_of_toList {s t : String} (h : ∀ x y, s.toList ++ x ≠ t.toList ++ y) :
    Parted s t := by
  intro x y heq
  have hchars := congrArg String.toList heq
  rw [String.toList_append, String.toList_append] at hchars
  exact h _ _ hchars

/-! ## Writing one value after the other -/

theorem SelfDelimitingAt.split {write : α → String} {a b : α} {x y : String}
    (ha : SelfDelimitingAt write a) (h : write a ++ x = write b ++ y) : a = b ∧ x = y := by
  obtain rfl := ha b x y h
  exact ⟨rfl, (String.append_right_inj _).mp h⟩

theorem SelfDelimiting.injective {write : α → String} (h : SelfDelimiting write) :
    Function.Injective write := by
  intro a b hab
  exact h a b "" "" (by rw [hab])

theorem SelfDelimitingAt.append {write : α → String} {a : α} (ha : SelfDelimitingAt write a)
    (tail : String) : SelfDelimitingAt (fun a => write a ++ tail) a := by
  intro b x y h
  rw [String.append_assoc, String.append_assoc] at h
  exact ha b _ _ h

/-- A value that may be absent, where its absence is not mistaken for the beginning of a value. -/
def optional (absent opening closing : String) (write : α → String) : Option α → String
  | none => absent
  | some a => opening ++ write a ++ closing

theorem selfDelimiting_optional {absent opening closing : String} {write : α → String}
    (hparted : Parted absent opening) (hwrite : SelfDelimiting write) :
    SelfDelimiting (optional absent opening closing write) := by
  intro o q x y h
  cases o with
  | none =>
      cases q with
      | none => rfl
      | some b =>
          simp only [optional, String.append_assoc] at h
          exact absurd h (hparted _ _)
  | some a =>
      cases q with
      | none =>
          simp only [optional, String.append_assoc] at h
          exact absurd h.symm (hparted _ _)
      | some b =>
          simp only [optional, String.append_assoc, String.append_right_inj] at h
          rw [hwrite a b _ _ h]

/-- Items that each come behind a mark, and a text behind the last one. -/
def rows (mark closing : String) (write : α → String) : List α → String
  | [] => closing
  | a :: rest => mark ++ (write a ++ rows mark closing write rest)

theorem selfDelimitingAt_rows {mark closing : String} {write : α → String} {items : List α}
    (hparted : Parted mark closing) (hitems : ∀ a ∈ items, SelfDelimitingAt write a) :
    SelfDelimitingAt (rows mark closing write) items := by
  induction items with
  | nil =>
      intro others x y h
      cases others with
      | nil => rfl
      | cons b others =>
          rw [rows, rows, String.append_assoc] at h
          exact absurd h.symm (hparted _ _)
  | cons a items ih =>
      intro others x y h
      cases others with
      | nil =>
          rw [rows, rows, String.append_assoc] at h
          exact absurd h (hparted _ _)
      | cons b others =>
          simp only [rows, String.append_assoc, String.append_right_inj] at h
          obtain ⟨rfl, htail⟩ := (hitems a List.mem_cons_self).split h
          have hrest := ih (fun c hc => hitems c (List.mem_cons_of_mem _ hc))
          rw [hrest others x y htail]

/-- A list of items in brackets, with a mark before each item but the first. -/
def bracketed (empty opening mark closing : String) (write : α → String) : List α → String
  | [] => empty
  | a :: rest => opening ++ (write a ++ rows mark closing write rest)

theorem selfDelimitingAt_bracketed {empty opening mark closing : String} {write : α → String}
    {items : List α} (hempty : ∀ a, Parted empty (opening ++ write a))
    (hparted : Parted mark closing) (hitems : ∀ a ∈ items, SelfDelimitingAt write a) :
    SelfDelimitingAt (bracketed empty opening mark closing write) items := by
  intro others x y h
  cases items with
  | nil =>
      cases others with
      | nil => rfl
      | cons b others =>
          rw [bracketed, bracketed, ← String.append_assoc, String.append_assoc] at h
          exact absurd h (hempty b _ _)
  | cons a items =>
      cases others with
      | nil =>
          rw [bracketed, bracketed, ← String.append_assoc, String.append_assoc] at h
          exact absurd h.symm (hempty a _ _)
      | cons b others =>
          simp only [bracketed, String.append_assoc, String.append_right_inj] at h
          obtain ⟨rfl, htail⟩ := (hitems a List.mem_cons_self).split h
          have hrest := selfDelimitingAt_rows hparted
            fun c hc => hitems c (List.mem_cons_of_mem _ hc)
          rw [hrest others x y htail]

/-- Three values with fixed texts before, between and behind them. -/
theorem append_three_inj {write₁ : α → String} {write₂ : β → String} {write₃ : γ → String}
    {a a' : α} {b b' : β} {c c' : γ} (ha : SelfDelimitingAt write₁ a)
    (hb : SelfDelimitingAt write₂ b) (hc : SelfDelimitingAt write₃ c) {s₁ s₂ s₃ s₄ x y : String}
    (h : s₁ ++ write₁ a ++ s₂ ++ write₂ b ++ s₃ ++ write₃ c ++ s₄ ++ x =
      s₁ ++ write₁ a' ++ s₂ ++ write₂ b' ++ s₃ ++ write₃ c' ++ s₄ ++ y) :
    a = a' ∧ b = b' ∧ c = c' := by
  simp only [String.append_assoc, String.append_right_inj] at h
  obtain ⟨rfl, hafter⟩ := ha.split h
  obtain ⟨rfl, hlast⟩ := hb.split ((String.append_right_inj s₂).mp hafter)
  exact ⟨rfl, rfl, (hc.split ((String.append_right_inj s₃).mp hlast)).1⟩

/-! ## Numbers and blanks -/

/-- What a list begins with up to the first element that fails a test. -/
theorem takeWhile_append_cons {p : α → Bool} {l : List α} {c : α} (hl : ∀ a ∈ l, p a = true)
    (hc : p c = false) (rest : List α) : (l ++ c :: rest).takeWhile p = l := by
  rw [List.takeWhile_append_of_pos hl, List.takeWhile_cons_of_neg (by simp [hc]), List.append_nil]

/-- The digits of a number end at anything that is no digit. -/
theorem selfDelimiting_number {tail : ℕ → String} {c : Char} (hc : c.isDigit = false)
    (htail : ∀ n, (tail n).toList.head? = some c) : SelfDelimiting fun n => toString n ++ tail n := by
  intro m n x y h
  have hdigits (k : ℕ) (z : String) :
      (toString k ++ tail k ++ z).toList.takeWhile Char.isDigit = Nat.toDigits 10 k := by
    have hall : ∀ c ∈ Nat.toDigits 10 k, c.isDigit = true := fun c hc =>
      Nat.isDigit_of_mem_toDigits (by decide) (by decide) hc
    have hshown : (toString k).toList = Nat.toDigits 10 k := Nat.toList_repr
    obtain ⟨rest, hrest⟩ := List.head?_eq_some_iff.mp (htail k)
    simp only [String.toList_append, List.append_assoc, hshown, hrest]
    exact takeWhile_append_cons hall hc _
  have heq : Nat.toDigits 10 m = Nat.toDigits 10 n := by rw [← hdigits m x, ← hdigits n y, h]
  exact number_inj (congrArg String.ofList heq)

theorem selfDelimiting_counted (one many : String) :
    SelfDelimiting fun n => Block.counted n one many := by
  simp only [Block.counted, String.append_assoc]
  exact selfDelimiting_number (c := ' ') (by decide) fun n => by simp

/-- How many blanks a text begins with, if it has something else than blanks in it. -/
theorem length_takeWhile_blanks {text : List Char} (h : ∃ c ∈ text, c ≠ ' ') (n : ℕ)
    (rest : List Char) :
    ((List.replicate n ' ' ++ (text ++ rest)).takeWhile (· = ' ')).length =
      n + (text.takeWhile (· = ' ')).length := by
  have hblanks : ∀ c ∈ List.replicate n ' ', decide (c = ' ') = true := by
    intro c hc
    exact decide_eq_true (List.eq_of_mem_replicate hc)
  have hshort : (text.takeWhile (· = ' ')).length ≠ text.length := by
    intro hlength
    obtain ⟨c, hc, hne⟩ := h
    rw [← (List.takeWhile_prefix _).eq_of_length hlength] at hc
    have hblank := List.mem_takeWhile_imp hc
    exact hne (of_decide_eq_true hblank)
  rw [List.takeWhile_append_of_pos hblanks, List.takeWhile_append, if_neg hshort,
    List.length_append, List.length_replicate]

end BlockOutline.Text
