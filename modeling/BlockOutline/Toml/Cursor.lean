import BlockOutline.Text.Bytes

/-!
Cursors into a text. A cursor knows its byte offset and the characters after it, and moves forward
only: `Reaches` says that one cursor comes from another by skipping characters. A reader returns
what it found together with a cursor that is reached from the one it started at.
-/

namespace BlockOutline.Toml

open Text

structure Span where
  start : Nat
  stop : Nat
deriving Inhabited, Repr, BEq, DecidableEq

/-- A place in a text: its byte offset, and what follows. -/
structure Cursor where
  offset : Nat
  rest : List Char
deriving Inhabited, Repr, BEq, DecidableEq

namespace Cursor

def ofText (text : String) : Cursor :=
  ⟨0, text.toList⟩

def skip (c : Cursor) (count : Nat) : Cursor :=
  ⟨c.offset + byteLength (c.rest.take count), c.rest.drop count⟩

/-- The cursor after the characters that pass a test. -/
def skipWhile (c : Cursor) (test : Char → Bool) : Cursor :=
  c.skip (c.rest.takeWhile test).length

def upTo (c after : Cursor) : Span :=
  ⟨c.offset, after.offset⟩

/-- One cursor is found by moving forward from another. -/
def Reaches (c after : Cursor) : Prop :=
  ∃ count, after = c.skip count

theorem skip_zero (c : Cursor) : c.skip 0 = c := by
  simp [skip]

theorem skip_skip (c : Cursor) (m n : Nat) : (c.skip m).skip n = c.skip (m + n) := by
  simp [skip, List.take_add, Nat.add_assoc]

theorem Reaches.refl (c : Cursor) : c.Reaches c :=
  ⟨0, c.skip_zero.symm⟩

theorem Reaches.trans {a b c : Cursor} : a.Reaches b → b.Reaches c → a.Reaches c
  | ⟨m, hm⟩, ⟨n, hn⟩ => ⟨m + n, by rw [hn, hm, skip_skip]⟩

theorem reaches_skip (c : Cursor) (count : Nat) : c.Reaches (c.skip count) :=
  ⟨count, rfl⟩

theorem reaches_skipWhile (c : Cursor) (test : Char → Bool) : c.Reaches (c.skipWhile test) :=
  c.reaches_skip _

theorem Reaches.length_le {c after : Cursor} : c.Reaches after →
    after.rest.length ≤ c.rest.length
  | ⟨count, h⟩ => by
    subst h
    simp [skip]

theorem Reaches.offset_le {c after : Cursor} : c.Reaches after → c.offset ≤ after.offset
  | ⟨count, h⟩ => by
    subst h
    exact Nat.le_add_right _ _

theorem Reaches.skip {c after : Cursor} (h : c.Reaches after) (count : Nat) :
    c.Reaches (after.skip count) :=
  h.trans (after.reaches_skip count)

theorem Reaches.skipWhile {c after : Cursor} (h : c.Reaches after) (test : Char → Bool) :
    c.Reaches (after.skipWhile test) :=
  h.trans (after.reaches_skipWhile test)

/-- Skipping shortens a rest that is not empty. -/
theorem length_skip_lt {c : Cursor} {head : Char} {tail : List Char} (h : c.rest = head :: tail)
    (count : Nat) : (c.skip (count + 1)).rest.length < c.rest.length := by
  simp only [Cursor.skip, h, List.length_drop, List.length_cons]
  omega

end Cursor

/-- What a reader found at a cursor, and where it stopped. -/
structure Found (α : Type) (c : Cursor) where
  value : α
  after : Cursor
  reaches : c.Reaches after

namespace Found

variable {α β : Type} {c : Cursor}

def map (f : α → β) (found : Found α c) : Found β c :=
  ⟨f found.value, found.after, found.reaches⟩

/-- Lets a find count from an earlier cursor. -/
def since {c' : Cursor} (found : Found α c') (h : c.Reaches c') : Found α c :=
  ⟨found.value, found.after, h.trans found.reaches⟩

/-- Lets a find count from before the characters that were skipped. -/
def unskip {count : Nat} (found : Found α (c.skip count)) : Found α c :=
  found.since (c.reaches_skip count)

end Found

end BlockOutline.Toml
