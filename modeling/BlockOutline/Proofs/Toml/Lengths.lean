import BlockOutline.Toml.DateTime
import BlockOutline.Toml.Number
import BlockOutline.Toml.QuotedText
import BlockOutline.Proofs.Fallible

/-! # Lengths of what is read

How many characters belong to a number, a date or an escape is settled by these characters: where the
text ends right behind them they are read as before. -/

namespace BlockOutline.Toml

open Fallible

variable {α : Type}

/-- A length that does not depend on the characters that it does not count. -/
def Settled (length : List Char → ℕ) : Prop :=
  ∀ cs ds, length (cs ++ ds) ≤ cs.length → length cs = length (cs ++ ds)

/-- What is read of some characters is read of them alone as well. -/
def SettledRead (read : List Char → Except (Fault × ℕ) (α × ℕ)) : Prop :=
  ∀ cs ds value n, read (cs ++ ds) = .ok (value, n) → n ≤ cs.length → read cs = .ok (value, n)

/-! ## Runs -/

theorem settled_takeWhile (test : Char → Bool) :
    Settled fun cs => (cs.takeWhile test).length := by
  intro cs ds h
  induction cs with
  | nil => exact (Nat.le_zero.mp h).symm
  | cons c cs ih =>
      by_cases hc : test c
      · simp only [List.cons_append, List.takeWhile_cons_of_pos hc, List.length_cons,
          Nat.add_le_add_iff_right, Nat.add_right_cancel_iff] at h ih ⊢
        exact ih h
      · simp [hc]

/-- A run that goes no further than some characters consists of them alone. -/
theorem takeWhile_append_of_length_le {test : Char → Bool} {cs ds : List Char}
    (h : ((cs ++ ds).takeWhile test).length ≤ cs.length) :
    (cs ++ ds).takeWhile test = cs.takeWhile test := by
  have hlength : (cs.takeWhile test).length = ((cs ++ ds).takeWhile test).length :=
    settled_takeWhile test cs ds h
  have hprefix : cs.takeWhile test <+: cs ++ ds :=
    (List.takeWhile_prefix test).trans (List.prefix_append cs ds)
  have hboth := List.prefix_of_prefix_length_le hprefix (List.takeWhile_prefix test) (Nat.le_of_eq hlength)
  exact (hboth.eq_of_length hlength).symm

theorem takeWhile_ne_nil_append {test : Char → Bool} {cs : List Char} (ds : List Char)
    (h : cs.takeWhile test ≠ []) : (cs ++ ds).takeWhile test ≠ [] := by
  cases cs with
  | nil => exact absurd rfl h
  | cons c cs =>
      by_cases hc : test c
      · simp [hc]
      · simp [hc] at h

theorem settled_runLength (test : Char → Bool) (afterDigit : Bool) :
    Settled (runLength test afterDigit) := by
  intro cs ds h
  induction cs generalizing afterDigit with
  | nil => exact (Nat.le_zero.mp h).symm
  | cons c cs ih =>
      rw [List.cons_append, runLength] at h ⊢
      rw [runLength]
      by_cases hc : test c
      · simp only [hc, if_true, List.length_cons, Nat.add_le_add_iff_right] at h ⊢
        rw [ih true h]
      · by_cases hmark : c = '_' ∧ afterDigit = true
        · -- An underscore counts only with a digit behind it, so it is not the last that counts.
          obtain ⟨rfl, rfl⟩ := hmark
          cases cs with
          | nil =>
              cases ds with
              | nil => rfl
              | cons d ds =>
                  by_cases hd : test d
                  · simp [hc, hd, runLength] at h
                  · simp [hc, hd]
          | cons d cs =>
              by_cases hd : test d
              · simp only [hc, hd, List.cons_append, List.head?_cons, Option.any_some, Bool.and_self,
                  decide_true, Bool.false_eq_true, if_false, if_true,
                  List.length_cons, Nat.add_le_add_iff_right] at h ⊢
                have hrest := ih false h
                rw [List.cons_append] at hrest
                rw [hrest]
              · simp [hc, hd]
        · have hfalse : (decide (c = '_') && afterDigit) = false := by
            simpa using hmark
          simp [hc, hfalse]

/-- Whether there is a line ending shows in two characters. -/
theorem lineEnding_cons_cons (c d : Char) (cs ds : List Char) :
    lineEnding (c :: d :: cs) = lineEnding (c :: d :: ds) := by
  by_cases hn : c = '\n'
  · subst hn
    rfl
  · by_cases hr : c = '\r' ∧ d = '\n'
    · obtain ⟨rfl, rfl⟩ := hr
      rfl
    · rw [not_and] at hr
      unfold lineEnding
      split <;> split <;> simp_all

theorem settled_lineEnding : Settled lineEnding := by
  intro cs ds h
  match cs with
  | [] => exact (Nat.le_zero.mp h).symm
  | c :: d :: cs => exact lineEnding_cons_cons c d cs (cs ++ ds)
  | [c] =>
      cases ds with
      | nil => rfl
      | cons d ds =>
          by_cases hn : c = '\n'
          · subst hn
            rfl
          · by_cases hr : c = '\r' ∧ d = '\n'
            · obtain ⟨rfl, rfl⟩ := hr
              simp [lineEnding] at h
            · simp only [List.cons_append, List.nil_append]
              rw [not_and] at hr
              unfold lineEnding
              split <;> split <;> simp_all

/-! ## Numbers -/

theorem settled_wholeLength : Settled wholeLength := by
  intro cs ds h
  cases cs with
  | nil => exact (Nat.le_zero.mp h).symm
  | cons c cs =>
      by_cases hzero : c = '0'
      · simp [wholeLength, hzero]
      · simp only [wholeLength, List.cons_append, List.head?_cons, Option.some.injEq, hzero,
          if_false] at h ⊢
        exact settled_runLength Char.isDigit false (c :: cs) ds h

theorem settled_fractionLength : Settled fractionLength := by
  intro cs ds h
  cases cs with
  | nil => exact (Nat.le_zero.mp h).symm
  | cons c cs =>
      by_cases hc : c = '.'
      · subst hc
        have hrun := settled_runLength Char.isDigit false cs ds
        simp only [List.cons_append, fractionLength, List.length_cons] at h ⊢
        split at h
        · next hnone => rw [hrun (by omega)]
        · rw [hrun (by omega)]
      · simp [fractionLength, hc]

def signLength (cs : List Char) : ℕ :=
  if cs.head?.any (['+', '-'].contains ·) then 1 else 0

theorem signLength_le (c : Char) (cs : List Char) : signLength (c :: cs) ≤ (c :: cs).length := by
  unfold signLength
  split <;> simp

/-- What an exponent has behind its letter, with the letter counted if there is a digit. -/
def signedLength (cs : List Char) : ℕ :=
  let run := runLength Char.isDigit false (cs.drop (signLength cs))
  if run = 0 then 0 else run + signLength cs + 1

theorem signedLength_append {cs ds : List Char} (h : signedLength (cs ++ ds) ≤ cs.length + 1) :
    signedLength cs = signedLength (cs ++ ds) := by
  unfold signedLength at h ⊢
  cases cs with
  | nil =>
      -- An exponent has a digit behind its letter.
      dsimp only [List.nil_append, List.length_nil] at h ⊢
      split at h
      · next hnone =>
        rw [if_pos hnone]
        rfl
      · omega
  | cons c cs =>
      have hsign : signLength (c :: cs ++ ds) = signLength (c :: cs) := rfl
      have hle := signLength_le c cs
      have hrun := settled_runLength Char.isDigit false ((c :: cs).drop (signLength (c :: cs))) ds
      simp only [hsign, List.drop_append_of_le_length hle] at h ⊢
      rw [List.length_drop] at hrun
      split at h
      · next hnone =>
        rw [if_pos hnone, hrun (by omega), if_pos hnone]
      · next hsome =>
        rw [if_neg hsome, hrun (by omega), if_neg hsome]

theorem settled_exponentLength : Settled exponentLength := by
  intro cs ds h
  cases cs with
  | nil => exact (Nat.le_zero.mp h).symm
  | cons letter cs =>
      have hexponent (cs : List Char) : exponentLength (letter :: cs) =
          if letter = 'e' || letter = 'E' then signedLength cs else 0 := rfl
      rw [List.cons_append, hexponent] at h ⊢
      rw [hexponent]
      split at h
      · next hletter => rw [if_pos hletter, if_pos hletter, signedLength_append h]
      · next hletter => rw [if_neg hletter, if_neg hletter]

/-- All of a decimal number: whole part, fraction and exponent. -/
def decimalLength (cs : List Char) : ℕ :=
  let mantissa := wholeLength cs + fractionLength (cs.drop (wholeLength cs))
  mantissa + exponentLength (cs.drop mantissa)

theorem eq_decimalLength_of_readDecimal {negative : Bool} {cs : List Char} {value : Number} {n : ℕ}
    (h : readDecimal negative cs = .ok (value, n)) : n = decimalLength cs := by
  unfold readDecimal at h
  dsimp only at h
  split at h
  · cases h
  · split at h
    · next hnone =>
      obtain ⟨a, -, ha⟩ := map_eq_ok_iff.mp h
      cases ha
      have hexponent := hnone.2
      rw [hnone.1, Nat.add_zero] at hexponent
      simp [decimalLength, hnone.1, hexponent]
    · obtain ⟨a, -, ha⟩ := map_eq_ok_iff.mp h
      cases ha
      rfl

theorem settledRead_readDecimal (negative : Bool) : SettledRead (readDecimal negative) := by
  intro cs ds value n h hn
  rw [eq_decimalLength_of_readDecimal h] at hn
  unfold decimalLength at hn
  dsimp only at hn
  -- The three parts are settled one after the other.
  have hwhole : wholeLength cs = wholeLength (cs ++ ds) := settled_wholeLength cs ds (by omega)
  rw [← hwhole] at hn
  have hdropWhole : (cs ++ ds).drop (wholeLength cs) = cs.drop (wholeLength cs) ++ ds :=
    List.drop_append_of_le_length (by omega)
  rw [hdropWhole] at hn
  have hfraction : fractionLength (cs.drop (wholeLength cs)) =
      fractionLength (cs.drop (wholeLength cs) ++ ds) := by
    refine settled_fractionLength _ ds ?_
    rw [List.length_drop]
    omega
  rw [← hfraction] at hn
  generalize hm : wholeLength cs + fractionLength (cs.drop (wholeLength cs)) = mantissa at hn
  have hdropMantissa : (cs ++ ds).drop mantissa = cs.drop mantissa ++ ds :=
    List.drop_append_of_le_length (by omega)
  rw [hdropMantissa] at hn
  have hexponent : exponentLength (cs.drop mantissa) = exponentLength (cs.drop mantissa ++ ds) := by
    refine settled_exponentLength _ ds ?_
    rw [List.length_drop]
    omega
  rw [← hexponent] at hn
  have htake (k) (hk : k ≤ cs.length) : (cs ++ ds).take k = cs.take k :=
    List.take_append_of_le_length hk
  have htakeWhole : (cs ++ ds).take (wholeLength cs) = cs.take (wholeLength cs) :=
    htake _ (by omega)
  have htakeMantissa : (cs ++ ds).take mantissa = cs.take mantissa := htake _ (by omega)
  have htakeFraction : (cs.drop (wholeLength cs) ++ ds).take
      (fractionLength (cs.drop (wholeLength cs))) = (cs.drop (wholeLength cs)).take
      (fractionLength (cs.drop (wholeLength cs))) := by
    refine List.take_append_of_le_length ?_
    rw [List.length_drop]
    omega
  have htakeExponent : (cs.drop mantissa ++ ds).take (exponentLength (cs.drop mantissa)) =
      (cs.drop mantissa).take (exponentLength (cs.drop mantissa)) := by
    refine List.take_append_of_le_length ?_
    rw [List.length_drop]
    omega
  unfold readDecimal at h ⊢
  simpa only [← hwhole, hdropWhole, ← hfraction, hm, hdropMantissa, ← hexponent, htakeWhole,
    htakeMantissa, htakeFraction, htakeExponent] using h

theorem special?_append (negative : Bool) (ds : List Char) {cs : List Char} (h : 3 ≤ cs.length) :
    special? negative (cs ++ ds) = special? negative cs := by
  match cs with
  | a :: b :: c :: cs =>
      simp only [List.cons_append]
      unfold special?
      split <;> split <;> simp_all
  | [] | [_] | [_, _] => simp at h

theorem special?_of_length_lt (negative : Bool) {cs : List Char} (h : cs.length < 3) :
    special? negative cs = none := by
  match cs with
  | [] | [_] | [_, _] => simp [special?]
  | _ :: _ :: _ :: _ =>
      simp only [List.length_cons] at h
      omega

theorem basedInteger?_cons_cons (c d : Char) (cs : List Char) :
    basedInteger? (c :: d :: cs) = if c = '0' then (base? d).bind (fun (base, test) =>
      let run := runLength test false cs
      if run = 0 then none else some (runValue base (cs.take run), run + 2)) else none := by
  by_cases hc : c = '0'
  · subst hc
    rfl
  · simp [basedInteger?, hc]

theorem lt_of_basedInteger? {cs : List Char} {value n : ℕ}
    (h : basedInteger? cs = some (value, n)) : 2 < n := by
  match cs with
  | [] | [_] => simp [basedInteger?] at h
  | c :: d :: cs =>
      rw [basedInteger?_cons_cons] at h
      split at h
      · obtain ⟨⟨base, test⟩, -, h⟩ := Option.bind_eq_some_iff.mp h
        dsimp only at h
        split at h
        · cases h
        · cases h
          omega
      · cases h

theorem basedInteger?_append {cs ds : List Char}
    (h : ∀ value n, basedInteger? (cs ++ ds) = some (value, n) → n ≤ cs.length) :
    basedInteger? cs = basedInteger? (cs ++ ds) := by
  match cs with
  | c :: d :: cs =>
      simp only [List.cons_append, basedInteger?_cons_cons] at h ⊢
      by_cases hc : c = '0'
      · simp only [hc, if_true] at h ⊢
        cases hbase : base? d with
        | none => rfl
        | some base =>
            obtain ⟨base, test⟩ := base
            simp only [hbase, Option.bind_some] at h ⊢
            have hrun := settled_runLength test false cs ds
            by_cases hnone : runLength test false (cs ++ ds) = 0
            · rw [if_pos hnone, hrun (by omega), if_pos hnone]
            · have hlength := h _ _ (if_neg hnone)
              rw [List.length_cons, List.length_cons, Nat.add_le_add_iff_right] at hlength
              rw [if_neg hnone, hrun hlength, if_neg hnone, List.take_append_of_le_length hlength]
      · simp only [hc, if_false]
  | [] | [_] =>
      -- The shortest number of this kind has three characters.
      refine Eq.trans (by simp [basedInteger?]) (Option.eq_none_iff_forall_ne_some.mpr ?_).symm
      rintro ⟨value, n⟩ hsome
      have hlt := lt_of_basedInteger? hsome
      have hle := h value n hsome
      simp only [List.length_nil, List.length_cons] at hle
      omega

/-- The three ways in which characters begin with a number. -/
theorem readNumber_eq_ok_iff {cs : List Char} {value : Number} {n : ℕ} :
    readNumber cs = .ok (value, n) ↔
      let special := special? (cs.head? = some '-') (cs.drop (signLength cs))
      let based := if signLength cs = 0 then basedInteger? cs else none
      (special = some value ∧ n = signLength cs + 3) ∨
      (special = none ∧ ∃ v, based = some (v, n) ∧ boundedInteger v = .ok value) ∨
      (special = none ∧ based = none ∧ ∃ k, n = signLength cs + k ∧
        readDecimal (cs.head? = some '-') (cs.drop (signLength cs)) = .ok (value, k)) := by
  unfold readNumber
  rw [← signLength]
  dsimp only
  generalize special? (cs.head? = some '-') (cs.drop (signLength cs)) = special
  generalize (if signLength cs = 0 then basedInteger? cs else none) = based
  generalize readDecimal (cs.head? = some '-') (cs.drop (signLength cs)) = decimal
  cases special with
  | some number => simp [eq_comm]
  | none =>
      cases based with
      | some b =>
          obtain ⟨v, k⟩ := b
          cases hbounded : boundedInteger v <;> simp [Except.map, hbounded, and_comm]
      | none =>
          cases decimal with
          | error e => simp [Except.map]
          | ok r =>
              obtain ⟨v, k⟩ := r
              simp only [Except.map, Except.ok.injEq, Prod.mk.injEq, reduceCtorEq, false_and,
                exists_false, true_and, false_or]
              constructor
              · rintro ⟨rfl, rfl⟩
                exact ⟨k, rfl, rfl, rfl⟩
              · rintro ⟨k', rfl, rfl, rfl⟩
                exact ⟨rfl, rfl⟩

theorem readNumber_pos {cs : List Char} {value : Number} {n : ℕ}
    (h : readNumber cs = .ok (value, n)) : 0 < n := by
  rcases readNumber_eq_ok_iff.mp h with ⟨-, rfl⟩ | ⟨-, v, hbased, -⟩ | ⟨-, -, k, rfl, hdecimal⟩
  · omega
  · split at hbased
    · have := lt_of_basedInteger? hbased
      omega
    · cases hbased
  · have hwhole : wholeLength (cs.drop (signLength cs)) ≠ 0 := by
      intro hzero
      simp [readDecimal, hzero] at hdecimal
    have hk := eq_decimalLength_of_readDecimal hdecimal
    simp only [decimalLength] at hk
    omega

/-- A number is settled by its characters. -/
theorem settledRead_readNumber : SettledRead readNumber := by
  intro cs ds value n h hn
  cases cs with
  | nil =>
      have hpos := readNumber_pos h
      rw [List.length_nil] at hn
      omega
  | cons c cs =>
      have hsign : signLength (c :: cs ++ ds) = signLength (c :: cs) := rfl
      have hhead : (c :: cs ++ ds).head? = (c :: cs).head? := rfl
      have hle := signLength_le c cs
      have hbody : ((c :: cs).drop (signLength (c :: cs))).length =
          (c :: cs).length - signLength (c :: cs) := List.length_drop
      have h := readNumber_eq_ok_iff.mp h
      dsimp only at h
      rw [hsign, hhead, List.drop_append_of_le_length hle] at h
      refine readNumber_eq_ok_iff.mpr ?_
      dsimp only
      generalize hcs : c :: cs = cs' at *
      generalize decide (cs'.head? = some '-') = negative at *
      have hspecial (hnone : special? negative (cs'.drop (signLength cs') ++ ds) = none) :
          special? negative (cs'.drop (signLength cs')) = none := by
        rcases Nat.lt_or_ge (cs'.drop (signLength cs')).length 3 with hshort | hlong
        · exact special?_of_length_lt negative hshort
        · rwa [special?_append negative ds hlong] at hnone
      have hbased (hdepth : ∀ v k, (if signLength cs' = 0 then basedInteger? (cs' ++ ds) else none) =
          some (v, k) → k ≤ cs'.length) : (if signLength cs' = 0 then basedInteger? cs' else none) =
            if signLength cs' = 0 then basedInteger? (cs' ++ ds) else none := by
        split
        · next hzero =>
          refine basedInteger?_append fun v k hvk => hdepth v k ?_
          rwa [if_pos hzero]
        · rfl
      rcases h with ⟨hsome, rfl⟩ | ⟨hnone, v, hv, hbounded⟩ | ⟨hnone, hv, k, rfl, hdecimal⟩
      · rw [special?_append negative ds (by omega)] at hsome
        exact .inl ⟨hsome, rfl⟩
      · have hsame := hbased fun v' k hvk => by
          cases hv.symm.trans hvk
          exact hn
        exact .inr (.inl ⟨hspecial hnone, v, hsame.trans hv, hbounded⟩)
      · have hsame := hbased fun v' k hvk => by
          cases hv.symm.trans hvk
        refine .inr (.inr ⟨hspecial hnone, hsame.trans hv, k, rfl, ?_⟩)
        exact settledRead_readDecimal negative _ ds value k hdecimal (by omega)

/-! ## Dates -/

section Fields

variable {cs ds : List Char}

theorem numberField_append {position count : ℕ} (h : position + count ≤ cs.length) (low high : ℕ) :
    numberField (cs ++ ds) position count low high = numberField cs position count low high := by
  have htake : ((cs ++ ds).drop position).take count = (cs.drop position).take count := by
    rw [List.drop_append_of_le_length (by omega), List.take_append_of_le_length]
    rw [List.length_drop]
    omega
  simp only [numberField, htake]

theorem mark_append {position : ℕ} (h : position < cs.length) (wanted : Char) :
    mark (cs ++ ds) position wanted = mark cs position wanted := by
  simp only [mark, List.getElem?_append_left h]

theorem digitsBefore_append {position count : ℕ} (h : position + count < cs.length)
    (wanted : Char) :
    digitsBefore (cs ++ ds) position count wanted = digitsBefore cs position count wanted := by
  have htake : ((cs ++ ds).drop position).take count = (cs.drop position).take count := by
    rw [List.drop_append_of_le_length (by omega), List.take_append_of_le_length]
    rw [List.length_drop]
    omega
  simp only [digitsBefore, htake, List.getElem?_append_left h]

theorem digitsBefore_mono {position count : ℕ} {wanted : Char}
    (h : digitsBefore cs position count wanted = true) :
    digitsBefore (cs ++ ds) position count wanted = true := by
  have hlength : position + count < cs.length := by
    simp only [digitsBefore, decide_eq_true_eq] at h
    exact (List.getElem?_eq_some_iff.mp h.2).1
  rwa [digitsBefore_append hlength]

theorem readDate_append (h : 10 ≤ cs.length) : readDate (cs ++ ds) = readDate cs := by
  have hfield (position count low high : ℕ) (hp : position + count ≤ 10) :
      numberField (cs ++ ds) position count low high = numberField cs position count low high :=
    numberField_append (by omega) low high
  have hmark (position : ℕ) (hp : position < 10) (wanted : Char) :
      mark (cs ++ ds) position wanted = mark cs position wanted := mark_append (by omega) wanted
  simp [readDate, hfield, hmark]

theorem readTime_bounds {position : ℕ} {time : Time} {after : ℕ}
    (h : readTime cs position = .ok (time, after)) : position + 8 ≤ after := by
  unfold readTime at h
  obtain ⟨hour, -, h⟩ := bind_eq_ok_iff.mp h
  obtain ⟨-, -, h⟩ := bind_eq_ok_iff.mp h
  obtain ⟨minute, -, h⟩ := bind_eq_ok_iff.mp h
  obtain ⟨-, -, h⟩ := bind_eq_ok_iff.mp h
  obtain ⟨second, -, h⟩ := bind_eq_ok_iff.mp h
  dsimp only at h
  split at h
  · cases h
    omega
  · cases h
    omega

theorem readTime_settled {position : ℕ} {time : Time} {after : ℕ}
    (h : readTime (cs ++ ds) position = .ok (time, after)) (hn : after ≤ cs.length) :
    readTime cs position = .ok (time, after) := by
  have hbounds := readTime_bounds h
  have hfield (position' count low high : ℕ) (hp : position' + count ≤ position + 8) :
      numberField (cs ++ ds) position' count low high = numberField cs position' count low high :=
    numberField_append (by omega) low high
  have hmark (position' : ℕ) (hp : position' < position + 8) (wanted : Char) :
      mark (cs ++ ds) position' wanted = mark cs position' wanted := mark_append (by omega) wanted
  unfold readTime at h ⊢
  simp only [hfield _ _ _ _ (show position + 2 ≤ position + 8 by omega),
    hfield _ _ _ _ (show position + 3 + 2 ≤ position + 8 by omega),
    hfield _ _ _ _ (show position + 6 + 2 ≤ position + 8 by omega),
    hmark _ (show position + 2 < position + 8 by omega),
    hmark _ (show position + 5 < position + 8 by omega)] at h
  refine bind_eq_ok_mono h fun hour h => bind_eq_ok_mono h fun _ h => ?_
  refine bind_eq_ok_mono h fun minute h => bind_eq_ok_mono h fun _ h => ?_
  refine bind_eq_ok_mono h fun second h => ?_
  have hdot (hp : position + 8 < cs.length) : (cs ++ ds)[position + 8]? = cs[position + 8]? :=
    List.getElem?_append_left hp
  have hdrop (hp : position + 9 ≤ cs.length) :
      (cs ++ ds).drop (position + 9) = cs.drop (position + 9) ++ ds :=
    List.drop_append_of_le_length hp
  dsimp only at h ⊢
  split at h
  · next hfraction =>
    cases h
    have hlength : (((cs.drop (position + 9)) ++ ds).takeWhile Char.isDigit).length ≤
        (cs.drop (position + 9)).length := by
      rw [hdrop (by omega)] at hn
      rw [List.length_drop]
      omega
    have hsame := takeWhile_append_of_length_le hlength
    rw [hdot (by omega), hdrop (by omega), hsame] at hfraction
    rw [hdrop (by omega), hsame, if_pos hfraction]
    rfl
  · next hnone =>
    cases h
    refine if_neg ?_
    rintro ⟨hsome, hne⟩
    have hp : position + 8 < cs.length := (List.getElem?_eq_some_iff.mp hsome).1
    refine hnone ⟨(hdot hp).trans hsome, ?_⟩
    rw [hdrop (by omega)]
    exact takeWhile_ne_nil_append ds hne

theorem readOffset_settled {position : ℕ} {offset : Option Int} {after : ℕ}
    (h : readOffset (cs ++ ds) position = .ok (offset, after)) (hn : after ≤ cs.length)
    (hp : position ≤ cs.length) : readOffset cs position = .ok (offset, after) := by
  have hfield (position' count low high : ℕ) (hp : position' + count ≤ cs.length) :
      numberField (cs ++ ds) position' count low high = numberField cs position' count low high :=
    numberField_append hp low high
  have hmark (position' : ℕ) (hp : position' < cs.length) (wanted : Char) :
      mark (cs ++ ds) position' wanted = mark cs position' wanted := mark_append hp wanted
  unfold readOffset at h ⊢
  dsimp only at h ⊢
  rcases Nat.lt_or_eq_of_le hp with hp | hp
  · rw [List.getElem?_append_left hp] at h
    split at h
    · exact h
    · exact h
    · have hafter : after = position + 6 := by
        obtain ⟨distance, -, h⟩ := bind_eq_ok_iff.mp h
        cases h
        rfl
      rw [hfield _ _ _ _ (by omega), hmark _ (by omega), hfield _ _ _ _ (by omega)] at h
      exact h
    · have hafter : after = position + 6 := by
        obtain ⟨distance, -, h⟩ := bind_eq_ok_iff.mp h
        cases h
        rfl
      rw [hfield _ _ _ _ (by omega), hmark _ (by omega), hfield _ _ _ _ (by omega)] at h
      exact h
    · exact h
  · -- Nothing is left for a distance.
    have hnone : cs[position]? = none := List.getElem?_eq_none (by omega)
    rw [hnone]
    split at h
    · cases h
      omega
    · cases h
      omega
    · obtain ⟨distance, -, h⟩ := bind_eq_ok_iff.mp h
      cases h
      omega
    · obtain ⟨distance, -, h⟩ := bind_eq_ok_iff.mp h
      cases h
      omega
    · exact h

theorem readOffset_bounds {position : ℕ} {offset : Option Int} {after : ℕ}
    (h : readOffset cs position = .ok (offset, after)) : position ≤ after := by
  unfold readOffset at h
  dsimp only at h
  split at h
  · cases h
    omega
  · cases h
    omega
  · obtain ⟨distance, -, h⟩ := bind_eq_ok_iff.mp h
    cases h
    omega
  · obtain ⟨distance, -, h⟩ := bind_eq_ok_iff.mp h
    cases h
    omega
  · cases h
    omega

end Fields

theorem readDateTime_bounds {cs : List Char} {value : DateTime} {n : ℕ}
    (h : readDateTime cs = .ok (value, n)) : 8 ≤ n := by
  unfold readDateTime at h
  split at h
  · obtain ⟨date, -, h⟩ := bind_eq_ok_iff.mp h
    split at h
    · obtain ⟨⟨time, afterTime⟩, htime, h⟩ := bind_eq_ok_iff.mp h
      obtain ⟨⟨offset, after⟩, hoffset, h⟩ := bind_eq_ok_iff.mp h
      cases h
      have := readTime_bounds htime
      have := readOffset_bounds hoffset
      omega
    · cases h
      omega
  · obtain ⟨⟨time, after⟩, htime, h⟩ := bind_eq_ok_iff.mp h
    cases h
    have := readTime_bounds htime
    omega

/-- What characters begin as does not change with those behind a date or a time. -/
theorem settledRead_readDateTime : SettledRead readDateTime := by
  intro cs ds value n h hn
  have hbounds := readDateTime_bounds h
  unfold readDateTime at h ⊢
  rw [digitsBefore_append (show 0 + 4 < cs.length by omega)] at h
  split at h
  · next hdate =>
    rw [if_pos hdate]
    obtain ⟨date, hd, h⟩ := bind_eq_ok_iff.mp h
    have hten : 10 ≤ n := by
      split at h
      · obtain ⟨⟨time, afterTime⟩, htime, h⟩ := bind_eq_ok_iff.mp h
        obtain ⟨⟨offset, after⟩, hoffset, h⟩ := bind_eq_ok_iff.mp h
        cases h
        have := readTime_bounds htime
        have := readOffset_bounds hoffset
        omega
      · cases h
        omega
    rw [readDate_append (by omega)] at hd
    refine bind_eq_ok_iff.mpr ⟨date, hd, ?_⟩
    split at h
    · next htime =>
      obtain ⟨⟨time, afterTime⟩, hread, h⟩ := bind_eq_ok_iff.mp h
      obtain ⟨⟨offset, after⟩, hoffset, h⟩ := bind_eq_ok_iff.mp h
      cases h
      have htimeBounds := readTime_bounds hread
      have hoffsetBounds := readOffset_bounds hoffset
      rw [List.getElem?_append_left (by omega), digitsBefore_append (by omega)] at htime
      rw [if_pos htime]
      refine bind_eq_ok_iff.mpr ⟨(time, afterTime), readTime_settled hread (by omega), ?_⟩
      exact bind_eq_ok_iff.mpr ⟨(offset, n), readOffset_settled hoffset hn (by omega), rfl⟩
    · next hnone =>
      cases h
      refine if_neg ?_
      rintro ⟨hmark, hdigits⟩
      have hlength : 10 < cs.length := by
        by_contra hshort
        rw [List.getElem?_eq_none (by omega)] at hmark
        cases hmark
      have hsame : (cs ++ ds)[10]? = cs[10]? := List.getElem?_append_left hlength
      exact hnone ⟨hsame ▸ hmark, digitsBefore_mono hdigits⟩
  · next hdate =>
    rw [if_neg hdate]
    obtain ⟨⟨time, after⟩, hread, h⟩ := bind_eq_ok_iff.mp h
    cases h
    exact bind_eq_ok_iff.mpr ⟨(time, n), readTime_settled hread hn, rfl⟩

theorem beginsDateTime_mono {cs : List Char} (ds : List Char) (h : beginsDateTime cs = true) :
    beginsDateTime (cs ++ ds) = true := by
  simp only [beginsDateTime, Bool.or_eq_true] at h ⊢
  exact h.imp digitsBefore_mono digitsBefore_mono

theorem beginsDateTime_append {cs : List Char} (ds : List Char) (h : 8 ≤ cs.length) :
    beginsDateTime (cs ++ ds) = beginsDateTime cs := by
  simp only [beginsDateTime, digitsBefore_append (show 0 + 4 < cs.length by omega),
    digitsBefore_append (show 0 + 2 < cs.length by omega)]

/-! ## Parts of strings -/

theorem settledRead_escape : SettledRead escape := by
  intro cs ds value n h hn
  unfold escape at h
  dsimp only at h
  cases cs with
  | nil =>
      repeat' split at h
      all_goals first
        | cases h
          simp at hn
        | cases h
  | cons c cs =>
      rw [List.length_cons] at hn
      have htake (count : Nat) (hcount : count ≤ cs.length) :
          ((c :: cs ++ ds).drop 1).take count = ((c :: cs).drop 1).take count :=
        List.take_append_of_le_length hcount
      split at h
      iterate 7
        next heq =>
          cases heq
          exact h
      iterate 2
        next heq =>
          cases heq
          split at h
          · next named =>
            cases h
            rw [htake _ (by omega)] at named
            unfold escape
            dsimp only
            rw [named]
            rfl
          · cases h
      · cases h

theorem whiteLength_crlf (rest : List Char) :
    whiteLength ('\r' :: '\n' :: rest) = whiteLength rest + 2 := by
  rw [whiteLength]

theorem whiteLength_cons {c : Char} {rest : List Char}
    (h : c = '\r' → rest.head? ≠ some '\n') :
    whiteLength (c :: rest) = if isBlank c || c = '\n' then whiteLength rest + 1 else 0 := by
  rw [whiteLength]
  rintro tail rfl rfl
  exact h rfl rfl

theorem settled_whiteLength : Settled whiteLength := by
  intro cs ds h
  fun_induction whiteLength cs with
  | case1 rest ih =>
      rw [List.cons_append, List.cons_append, whiteLength_crlf, List.length_cons,
        List.length_cons] at h
      rw [List.cons_append, List.cons_append, whiteLength_crlf, ih (by omega)]
  | case2 c rest hcrlf hwhite ih =>
      have hc : c ≠ '\r' := by
        rintro rfl
        simp [isBlank] at hwhite
      rw [List.cons_append, whiteLength_cons (fun hr => absurd hr hc), if_pos hwhite] at h ⊢
      rw [ih (by simpa using h)]
  | case3 c rest hcrlf hwhite =>
      have hnone (hhead : c = '\r' → (rest ++ ds).head? ≠ some '\n') :
          0 = whiteLength (c :: rest ++ ds) := by
        rw [List.cons_append, whiteLength_cons hhead, if_neg hwhite]
      cases rest with
      | cons d rest =>
          refine hnone ?_
          rintro rfl hhead
          cases hhead
          exact hcrlf rest rfl rfl
      | nil =>
          by_cases hhead : c = '\r' ∧ ds.head? = some '\n'
          · obtain ⟨rfl, hd⟩ := hhead
            obtain ⟨tail, rfl⟩ := List.head?_eq_some_iff.mp hd
            rw [List.cons_append, List.nil_append, whiteLength_crlf] at h
            simp at h
          · refine hnone fun hc => ?_
            rw [not_and] at hhead
            exact hhead hc
  | case4 => exact (Nat.le_zero.mp h).symm

/-- The end of a line that is joined to the next one belongs to the white space skipped. -/
theorem blanks_add_lineEnding_le (cs : List Char) :
    (cs.takeWhile isBlank).length + lineEnding (cs.drop (cs.takeWhile isBlank).length) ≤
      whiteLength cs := by
  fun_induction whiteLength cs with
  | case1 rest ih =>
      simp [isBlank, lineEnding]
  | case2 c rest hcrlf hwhite ih =>
      by_cases hc : isBlank c
      · simp only [hc, List.takeWhile_cons_of_pos, List.length_cons, List.drop_succ_cons]
        omega
      · have hn : c = '\n' := by simpa [hc] using hwhite
        subst hn
        simp [isBlank, lineEnding]
  | case3 c rest hcrlf hwhite =>
      simp only [Bool.or_eq_true, decide_eq_true_eq, not_or] at hwhite
      have hnone : lineEnding (c :: rest) = 0 := by
        unfold lineEnding
        split
        · next heq =>
          cases heq
          exact absurd rfl hwhite.2
        · next tail heq =>
          cases heq
          exact absurd rfl (hcrlf tail rfl)
        · rfl
      simp [hwhite.1, hnone]
  | case4 => simp [lineEnding]

/-- What ends a line ends it with any characters behind as well. -/
theorem lineEnding_mono {cs : List Char} (ds : List Char) (h : lineEnding cs ≠ 0) :
    lineEnding (cs ++ ds) = lineEnding cs := by
  unfold lineEnding at h
  split at h
  · rfl
  · rfl
  · exact absurd rfl h

theorem lineJoin?_eq_none_of_append {cs ds : List Char} (h : lineJoin? (cs ++ ds) = none) :
    lineJoin? cs = none := by
  have hblanks := settled_takeWhile isBlank cs ds
  unfold lineJoin? at h ⊢
  dsimp only at h ⊢
  by_contra hjoin
  have hends : lineEnding (cs.drop (cs.takeWhile isBlank).length) ≠ 0 := by
    intro hnone
    exact hjoin (if_pos hnone)
  have hlt : (cs.takeWhile isBlank).length < cs.length := by
    by_contra hge
    rw [List.drop_eq_nil_of_le (by omega)] at hends
    exact hends rfl
  have hsame : (cs ++ ds).takeWhile isBlank = cs.takeWhile isBlank := by
    rw [List.takeWhile_append, if_neg (Nat.ne_of_lt hlt)]
  rw [hsame, List.drop_append_of_le_length (Nat.le_of_lt hlt), lineEnding_mono ds hends,
    if_neg hends] at h
  cases h

theorem lineJoin?_eq_some_of_append {cs ds : List Char} {n : ℕ}
    (h : lineJoin? (cs ++ ds) = some n) (hn : n ≤ cs.length) : lineJoin? cs = some n := by
  unfold lineJoin? at h ⊢
  dsimp only at h ⊢
  split at h
  · cases h
  · next hends =>
    have hwhite : whiteLength (cs ++ ds) = n := Option.some.inj h
    have hle := blanks_add_lineEnding_le (cs ++ ds)
    have hblanks : (cs ++ ds).takeWhile isBlank = cs.takeWhile isBlank :=
      takeWhile_append_of_length_le (by omega)
    rw [hblanks] at hends hle
    have hlength : (cs.takeWhile isBlank).length ≤ cs.length := by omega
    rw [List.drop_append_of_le_length hlength] at hends hle
    have hending := settled_lineEnding (cs.drop (cs.takeWhile isBlank).length) ds (by
      rw [List.length_drop]
      omega)
    rw [hending, if_neg hends, settled_whiteLength cs ds (by omega), hwhite]

theorem opening?_append {cs ds : List Char} {kind : StringKind} {n : ℕ}
    (h : opening? (cs ++ ds) = some (kind, n)) (hn : n ≤ cs.length) :
    opening? cs = some (kind, n) := by
  have hthree {a b c : Char} {rest : List Char} (hcs : cs ++ ds = a :: b :: c :: rest)
      (hlong : lineEnding rest + 3 ≤ cs.length) :
      ∃ rest', cs = a :: b :: c :: rest' ∧ lineEnding rest' = lineEnding rest := by
    match cs with
    | [] | [_] | [_, _] => simp at hlong
    | _ :: _ :: _ :: rest' =>
        cases hcs
        refine ⟨rest', rfl, settled_lineEnding rest' ds ?_⟩
        simpa using hlong
  have hone {a : Char} {rest : List Char} (hcs : cs ++ ds = a :: rest) (hlong : 1 ≤ cs.length) :
      ∃ rest', cs = a :: rest' := by
    cases cs with
    | nil => simp at hlong
    | cons _ rest' =>
        cases hcs
        exact ⟨rest', rfl⟩
  unfold opening? at h
  split at h
  · next rest hcs =>
    cases h
    obtain ⟨rest', rfl, hending⟩ := hthree hcs hn
    rw [opening?, hending]
  · next rest hcs =>
    cases h
    obtain ⟨rest', rfl, hending⟩ := hthree hcs hn
    rw [opening?, hending]
  · next rest hother hcs =>
    cases h
    obtain ⟨rest', rfl⟩ := hone hcs hn
    rw [opening?]
    rintro rest'' rfl
    exact hother (rest'' ++ ds) (List.cons.inj hcs).2.symm
  · next rest hother hcs =>
    cases h
    obtain ⟨rest', rfl⟩ := hone hcs hn
    rw [opening?]
    rintro rest'' rfl
    exact hother (rest'' ++ ds) (List.cons.inj hcs).2.symm
  · cases h

theorem opening?_eq_none_iff {cs : List Char} :
    opening? cs = none ↔ cs.head? ≠ some '"' ∧ cs.head? ≠ some '\'' := by
  unfold opening?
  split
  · simp
  · simp
  · simp
  · simp
  · next hbasic hliteral =>
    refine iff_of_true rfl ⟨fun hhead => ?_, fun hhead => ?_⟩
    · obtain ⟨tail, htail⟩ := List.head?_eq_some_iff.mp hhead
      exact hbasic tail htail
    · obtain ⟨tail, htail⟩ := List.head?_eq_some_iff.mp hhead
      exact hliteral tail htail

end BlockOutline.Toml
