import Mathlib.Data.Nat.Notation
import BlockOutline.Terminal.Control
import BlockOutline.Terminal.Styled

/-! # Styles as control sequences

Without its control sequences a styled text is the text of its pieces: behind every piece no sequence
is open, and of the text of the piece nothing is taken for one. -/

namespace BlockOutline.Terminal

namespace Reader

/-- What is known when some characters are read. -/
def after (r : Reader) (cs : List Char) : Reader :=
  cs.foldl (fun r c => (r.read c).1) r

theorem shown_append (r : Reader) (xs ys : List Char) :
    r.shown (xs ++ ys) = r.shown xs ++ (r.after xs).shown ys := by
  induction xs generalizing r with
  | nil => rfl
  | cons c xs ih =>
      have hrest := ih (r.read c).1
      simp only [List.cons_append, shown, hrest]
      split <;> rfl

theorem after_append (r : Reader) (xs ys : List Char) : r.after (xs ++ ys) = (r.after xs).after ys :=
  List.foldl_append

theorem state_read_of_isPrintable {c : Char} (hc : isPrintable c = true) (showing : Bool) :
    (read ⟨.outside, showing⟩ c).1.state = .outside := by
  have hescape : c ≠ '\x1b' := by
    rintro rfl
    revert hc
    decide
  cases showing <;> simp [read, hc, SequenceState.next, hescape]

theorem state_after_of_isPrintable {cs : List Char} (h : ∀ c ∈ cs, isPrintable c = true) {r : Reader}
    (hr : r.state = .outside) : (r.after cs).state = .outside := by
  induction cs generalizing r with
  | nil => exact hr
  | cons c cs ih =>
      obtain ⟨state, showing⟩ := r
      cases hr
      exact ih (fun d hd => h d (List.mem_cons_of_mem c hd))
        (state_read_of_isPrintable (h c List.mem_cons_self) showing)

end Reader

/-- A text of which a reader outside of control sequences shows a part, and is outside again. -/
def Shows (text part : String) : Prop :=
  ∀ r : Reader, r.state = .outside →
    r.shown text.toList = part.toList ∧ (r.after text.toList).state = .outside

theorem Shows.append {text text' part part' : String} (h : Shows text part) (h' : Shows text' part') :
    Shows (text ++ text') (part ++ part') := by
  intro r hr
  obtain ⟨hshown, hstate⟩ := h r hr
  obtain ⟨hshown', hstate'⟩ := h' _ hstate
  rw [String.toList_append, String.toList_append, Reader.shown_append, Reader.after_append, hshown,
    hshown']
  exact ⟨rfl, hstate'⟩

theorem shows_self {text : String} (h : ∀ c ∈ text.toList, isPrintable c = true) : Shows text text := by
  intro r hr
  refine ⟨?_, Reader.state_after_of_isPrintable h hr⟩
  obtain ⟨state, showing⟩ := r
  cases hr
  exact Reader.shown_eq_self h showing

namespace Style

theorem shows_beginning (s : Style) : Shows s.beginning "" := by
  rintro ⟨state, showing⟩ hr
  cases hr
  cases s <;> cases showing <;> decide

theorem shows_ending (s : Style) : Shows s.ending "" := by
  rintro ⟨state, showing⟩ hr
  cases hr
  cases s <;> cases showing <;> decide

end Style

/-- Pieces of printable characters. -/
def Printable (pieces : List Piece) : Prop :=
  ∀ p ∈ pieces, p.text.toList.all isPrintable = true

instance (pieces : List Piece) : Decidable (Printable pieces) :=
  inferInstanceAs (Decidable (∀ p ∈ pieces, _))

theorem shows_render {pieces : List Piece} (h : Printable pieces) :
    Shows (render true pieces) (text pieces) := by
  induction pieces with
  | nil => exact shows_self (by simp [render, String.join])
  | cons p pieces ih =>
      have hp := List.all_eq_true.mp (h p List.mem_cons_self)
      have hpiece := ((Style.shows_beginning p.style).append (shows_self hp)).append
        (Style.shows_ending p.style)
      rw [String.empty_append, String.append_empty] at hpiece
      have hrest := ih fun q hq => h q (List.mem_cons_of_mem p hq)
      rw [render, text, List.map_cons, List.map_cons, String.join_cons, String.join_cons]
      exact hpiece.append hrest

/-- Of a styled text that begins with some printable pieces the text of these is left first. -/
theorem exists_withoutControls_eq {pieces : List Piece} (h : Printable pieces) (more : List Piece) :
    ∃ rest, (withoutControls (render true (pieces ++ more))).toList = (text pieces).toList ++ rest := by
  obtain ⟨hshown, -⟩ := shows_render h {} rfl
  have hrender : render true (pieces ++ more) = render true pieces ++ render true more := by
    rw [render, List.map_append, String.join_append, render, render]
  refine ⟨(Reader.after {} (render true pieces).toList).shown (render true more).toList, ?_⟩
  rw [withoutControls, String.toList_ofList, hrender, String.toList_append, Reader.shown_append, hshown]

/-- Texts that begin with different pieces are different without their control sequences. -/
theorem withoutControls_append_ne {pieces pieces' : List Piece} (h : Printable pieces)
    (h' : Printable pieces')
    (hne : ¬((text pieces).toList <+: (text pieces').toList ∨
      (text pieces').toList <+: (text pieces).toList)) (more more' : List Piece) :
    withoutControls (render true (pieces ++ more)) ≠ withoutControls (render true (pieces' ++ more')) := by
  intro htext
  obtain ⟨rest, hrest⟩ := exists_withoutControls_eq h more
  obtain ⟨rest', hrest'⟩ := exists_withoutControls_eq h' more'
  rw [htext, hrest'] at hrest
  exact hne (List.prefix_or_prefix_of_prefix ⟨rest, hrest.symm⟩ (List.prefix_append _ rest'))

theorem withoutControls_render {pieces : List Piece} (h : Printable pieces) :
    withoutControls (render true pieces) = text pieces := by
  obtain ⟨hshown, -⟩ := shows_render h {} rfl
  rw [withoutControls, hshown, String.ofList_toList]

end BlockOutline.Terminal
