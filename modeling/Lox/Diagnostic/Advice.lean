/-
Advice: what may help, judged by the message of a report. A message of the form
"Expected …" names what was missing, up to a remark on what was found instead.
-/
import Lox.Text.Blank
import Lox.Diagnostic.Found

namespace Lox.Diagnostic

-- ================================================= what a message asks for

/-- Whether a text goes on with a comma, blanks and the word `found`. -/
def startsRemark (cs : List Char) : Bool :=
  match cs with
  | ',' :: c :: rest => Text.isBlank c && "found".toList.isPrefixOf (Text.trimLeft rest)
  | _ => false

/-- The rest of a line up to a remark on what was found; nothing when the line ends otherwise than
with the text or the text's last newline. -/
def upToRemark : List Char → Option (List Char)
  | [] => some []
  | ['\n'] => some []
  | c :: rest =>
    if startsRemark (c :: rest) then some []
    else if c == '\n' then none
    else (upToRemark rest).map (c :: ·)

/-- What is asked for behind the word `Expected`, when blanks and at least one further character
follow. The first character always counts, even if it begins a remark or is a blank, for which the
run of blanks before it then ends earlier. -/
def askedFor? : List Char → Option (List Char)
  | [] => none
  | c :: rest =>
    if !Text.isBlank c then none
    else
      match askedFor? rest with
      | some asked => some asked
      | none =>
        match rest with
        | first :: others =>
          if first == '\n' then none else (upToRemark others).map (first :: ·)
        | [] => none

/-- What a message asks for: the text behind the first `Expected` that is followed by one. -/
def expectedIn (message : List Char) : Option String :=
  match message with
  | [] => none
  | _ :: rest =>
    let here :=
      if "Expected".toList.isPrefixOf message then askedFor? (message.drop 8) else none
    match here with
    | some asked => some (String.ofList asked)
    | none => expectedIn rest

-- ================================================================== advice

/-- Whether one text occurs in another. -/
def occursIn (part : List Char) : List Char → Bool
  | [] => part.isEmpty
  | c :: rest => part.isPrefixOf (c :: rest) || occursIn part rest

/-- Whether some entry names a symbol in quotes. -/
def mentions (symbol : String) (expected : List String) : Bool :=
  expected.any fun entry => occursIn symbol.toList entry.toList

/-- What may help against a fault with the given message, where `found` was read in place of one
of `expected`. -/
def advice (message found : String) (expected : List String) : List String :=
  (if mentions "';'" expected || expected.contains ";" then ["Statements end with ';'"] else [])
    ++ (if mentions "'\x7d'" expected then
          ["Check that every '\x7b' has a matching '\x7d'"] else [])
    ++ (if mentions "')'" expected then ["Check that every '(' has a matching ')'"] else [])
    ++ (if occursIn "Invalid assignment target".toList message.toList then
          ["Only variables and instance fields can be assigned to"]
        else if found == "'='" && !expected.isEmpty then ["Use '==' to compare values"]
        else [])

end Lox.Diagnostic
