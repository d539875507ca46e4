/-
A cursor: a place in a text from which reading goes on. It knows what is left,
the character just passed, and its place, so a token takes its place from the
cursor and never has to look back.
-/
import Lox.Token

namespace Lox

structure Cursor where
  /-- The character before the cursor; none at the start of the text. -/
  previous : Option Char
  /-- The text from the cursor on. -/
  rest : List Char
  offset : Nat
  line : Nat
  column : Nat
deriving DecidableEq

namespace Cursor

/-- The cursor before a whole text. -/
def start (text : List Char) : Cursor := ⟨none, text, 0, 1, 1⟩

/-- The place of the cursor. -/
def place (c : Cursor) : Place := ⟨c.line, c.column, c.offset⟩

/-- Passes one character; a newline starts a new line. At the end of the text the cursor stays. -/
def next (c : Cursor) : Cursor :=
  match c.rest with
  | [] => c
  | '\n' :: rest => ⟨some '\n', rest, c.offset + 1, c.line + 1, 1⟩
  | x :: rest => ⟨some x, rest, c.offset + 1, c.line, c.column + 1⟩

/-- Passes `n` characters, or as many as there are. -/
def advance (c : Cursor) : Nat → Cursor
  | 0 => c
  | n + 1 => c.next.advance n

/-- Whether the whole text lies before the cursor. -/
def atEnd (c : Cursor) : Bool := c.rest.isEmpty

-- ================================================================== laws

@[simp] theorem advance_zero (c : Cursor) : c.advance 0 = c := rfl

@[simp] theorem advance_succ (c : Cursor) (n : Nat) : c.advance (n + 1) = c.next.advance n := rfl

/-- Passing a character takes it off what is left. -/
@[simp] theorem rest_next (c : Cursor) : c.next.rest = c.rest.drop 1 := by
  unfold next
  split <;> simp_all

/-- Passing `n` characters takes them off what is left. -/
@[simp] theorem rest_advance (c : Cursor) (n : Nat) : (c.advance n).rest = c.rest.drop n := by
  induction n generalizing c with
  | zero => simp
  | succ n ih => simp [ih]

/-- Two moves are one. -/
theorem advance_add (c : Cursor) (m n : Nat) : c.advance (m + n) = (c.advance m).advance n := by
  induction m generalizing c with
  | zero => simp
  | succ m ih => rw [Nat.succ_add, advance_succ, advance_succ, ih]

end Cursor

/-- The place at an offset of a text. Offsets behind the end lie on the last line, as if it went
on. -/
def Place.ofOffset (text : List Char) (offset : Nat) : Place :=
  let cursor := (Cursor.start text).advance offset
  ⟨cursor.line, cursor.column + (offset - cursor.offset : Nat), offset⟩

end Lox
