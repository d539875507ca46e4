/-
Parsers: readers of one rule of the grammar. A parser moves a cursor over the
text or fails, and a failure has one of three weights:

* a soft failure says that the rule does not apply, and lets another be tried;
* a refusal comes from a rule that applied to a text it must not allow;
* a committed failure comes from behind a point of no return.

An alternative is given up for the next one on an soft failure only. What a
failure leaves behind is kept: node numbers that were handed out stay used, and
faults that recovery has dealt with stay on record.
-/
import Lox.Grammar.Fault
import Lox.Source.Trivia
import Lox.Syntax.Basic

namespace Lox

/-- How binding a failure is. -/
inductive Weight where
  | soft
  | refusal
  | committed
deriving DecidableEq

structure Failure where
  weight : Weight
  fault : Fault

/-- How far reading has come. -/
structure Progress where
  cursor : Cursor
  /-- The number of the next node. -/
  nextId : NodeId
  /-- The faults that recovery has passed over, in the order in which they were met. -/
  recovered : List Fault
  /-- More rounds than this no repetition can take: the length of the whole text. -/
  bound : Nat

abbrev Parser := EStateM Failure Progress

namespace Parser

variable {α β : Type}

-- ============================================================== failures

/-- Fails at the given place. -/
def failAt (weight : Weight) (cause : FaultCause) (place : Place) : Parser α := fun s =>
  .error ⟨weight, ⟨cause, place⟩⟩ s

/-- The rule does not apply at the cursor. -/
def reject (what : Expectation) : Parser α := fun s =>
  .error ⟨.soft, ⟨.expected what, s.cursor.place⟩⟩ s

/-- Behind a point of no return every failure is committed. -/
def committed (p : Parser α) : Parser α := fun s =>
  match p s with
  | .ok a s' => .ok a s'
  | .error e s' => .error { e with weight := .committed } s'

-- ============================================================== movement

/-- The cursor. -/
def here : Parser Cursor := fun s => .ok s.cursor s

/-- Passes trivia; the place behind it is where a rule begins. -/
def skipTrivia : Parser Place := fun s =>
  let c := s.cursor.skipTrivia
  .ok c.place { s with cursor := c }

/-- Passes `n` characters. -/
def take (n : Nat) : Parser Unit := fun s =>
  .ok () { s with cursor := s.cursor.advance n }

/-- A fresh node number. -/
def freshId : Parser NodeId := fun s =>
  .ok s.nextId { s with nextId := s.nextId + 1 }

-- =========================================================== combinators

/-- Tries a parser. A soft failure puts the cursor back and yields nothing. -/
def optional (p : Parser α) : Parser (Option α) := fun s =>
  match p s with
  | .ok a s' => .ok (some a) s'
  | .error e s' =>
    match e.weight with
    | .soft => .ok none { s' with cursor := s.cursor }
    | _ => .error e s'

/-- Repeats a parser until it fails softly, for `rounds` rounds at most. -/
def manyWithin (p : Parser α) : Nat → Parser (List α)
  | 0 => pure []
  | rounds + 1 => do
    match ← optional p with
    | none => pure []
    | some a => do
      let more ← manyWithin p rounds
      pure (a :: more)

/-- Repeats a parser until it fails softly. Every round takes a character, so the length of the
text bounds the rounds. -/
def many (p : Parser α) : Parser (List α) := fun s => manyWithin p (s.bound + 1) s

/-- Of two failures the one further on; of two at one offset the first. -/
def Failure.further (a : Option Failure) (b : Failure) : Failure :=
  match a with
  | none => b
  | some a => if a.fault.place.offset < b.fault.place.offset then b else a

/-- The first alternative that applies, all of them tried from the same cursor. If none does, the
failure that came furthest counts, here `best` as far as it is known. -/
def firstOf (best : Option Failure) : List (Parser α) → Parser α
  | [] => fun s =>
    match best with
    | some e => .error e s
    | none => .error ⟨.soft, ⟨.expected .expression, s.cursor.place⟩⟩ s
  | p :: others => fun s =>
    match p s with
    | .ok a s' => .ok a s'
    | .error e s' =>
      match e.weight with
      | .soft => firstOf (some (Failure.further best e)) others { s' with cursor := s.cursor }
      | _ => .error e s'

/-- A choice with a name: when no alternative came further than the first character, what is
missing is the whole choice. -/
def choice (name : Expectation) (alternatives : List (Parser α)) : Parser α := fun s =>
  let cursor := s.cursor.skipTrivia
  match firstOf none alternatives { s with cursor } with
  | .ok a s' => .ok a s'
  | .error e s' =>
    if e.weight = .soft && e.fault.place.offset = cursor.offset then
      .error { e with fault := { e.fault with cause := .expected name } } s'
    else .error e s'

/-- A reader that has run out of nesting; a text cannot nest deeper than it is long. -/
def exhausted : Parser α := reject .expression

end Parser

end Lox
