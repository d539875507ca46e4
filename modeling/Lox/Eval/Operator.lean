/-
Operators on values; they leave the state alone, whatever it is. Arithmetic is
that of doubles; dividing by zero is no fault. The sign of addition also joins
strings, and nothing is converted.
-/
import Lox.Eval.Machine

namespace Lox.Eval

variable {σ : Type}

/-- Numbers divide as doubles do: a quotient by zero is infinite or no number. -/
def divide (a b : Float) : Float := a / b

/-- The operand must be a number. -/
def needNumber (operator : Token) : Value → Halting σ Float
  | .number x => pure x
  | _ => fault operator .operandNotNumber

/-- Both operands must be numbers. -/
def needNumbers (operator : Token) : Value → Value → Halting σ (Float × Float)
  | .number a, .number b => pure (a, b)
  | _, _ => fault operator .operandsNotNumbers

def unary (operator : Token) (operand : Value) : Halting σ Value :=
  match operator.lexeme with
  | "-" => do pure (.number (-(← needNumber operator operand)))
  | "!" => pure (.boolean (!operand.isTruthy))
  | lexeme => broken (.unknownUnary lexeme)

/-- The sum of two numbers or the second string behind the first. -/
def add (operator : Token) : Value → Value → Halting σ Value
  | .number a, .number b => pure (.number (a + b))
  | .string a, .string b => pure (.string (a ++ b))
  | _, _ => fault operator .operandsNotAddable

/-- The operators that work on numbers alone. -/
def numeric (operator : Token) (left right : Value) : Halting σ Value := do
  let (a, b) ← needNumbers operator left right
  match operator.lexeme with
  | "-" => pure (.number (a - b))
  | "*" => pure (.number (a * b))
  | "/" => pure (.number (divide a b))
  | ">" => pure (.boolean (b < a))
  | ">=" => pure (.boolean (b ≤ a))
  | "<" => pure (.boolean (a < b))
  | "<=" => pure (.boolean (a ≤ b))
  | lexeme => broken (.unknownBinary lexeme)

def binary (operator : Token) (left right : Value) : Halting σ Value :=
  match operator.lexeme with
  | "+" => add operator left right
  | "==" => pure (.boolean (left.equals right))
  | "!=" => pure (.boolean (!left.equals right))
  | _ => numeric operator left right

/-- Whether the left side of a logical operator settles its value. -/
def settles (operator : Token) (left : Value) : Bool :=
  if operator.lexeme == "or" then left.isTruthy else !left.isTruthy

end Lox.Eval
