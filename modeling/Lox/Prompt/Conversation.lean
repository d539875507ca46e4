/-
A conversation at the prompt: a greeting, and then line by line until the input
ends, a line asks to quit, or a program leaves.
-/
import Lox.Prompt.Line

namespace Lox.Prompt

/-- The version of the language and how it is run. -/
def version : String := "Lox v1.0.0 (Tree-walking Interpreter)"

def greeting (tracing : Bool) : List String :=
  [version ++ " - Interactive Mode",
   "Type ':quit' or Ctrl-D to exit, ':help' for commands",
   "Readline enabled: Use ↑/↓ for history, Tab for completion"]
    ++ (if tracing then ["Debug mode enabled"] else []) ++ [""]

def help : List String :=
  ["REPL Commands:",
   "  :parse <code>     - Show the parsed syntax tree",
   "  :analyze <code>   - Show resolved scope distances",
   "  :env              - Show global bindings",
   "  :help             - Show this help",
   "  :quit             - Exit REPL",
   "",
   "A line without a trailing ';' is evaluated as an expression and printed."]

/-- What invites to a line. -/
def invitation : String := "> "

/-- What is shown when the input ends: the line of the last invitation is left empty. -/
def farewell : List String := ["", "Goodbye!"]

/-- What a line does to a conversation. -/
inductive Turn where
  /-- The conversation is over. -/
  | quit
  | goOn (shown : Transcript) (next : Session)

/-- Takes one line of a conversation. A line of blanks is passed over. -/
def turn (s : Session) (line : List Char) : Turn :=
  let trimmed := Text.trim line
  if trimmed == ":quit".toList then .quit
  else if trimmed.isEmpty then .goOn .silent s
  else if trimmed == ":help".toList then .goOn (.say help) s
  else
    let (shown, next) := answer s line
    .goOn shown next

/-- The conversation about some lines, from the first invitation on. -/
def converse (s : Session) : List (List Char) → Transcript
  | [] => ⟨invitation ++ ended farewell, "", none⟩
  | line :: rest =>
    let invited : Transcript := ⟨invitation, "", none⟩
    invited.andThen fun _ =>
      match turn s line with
      | .quit => .silent
      | .goOn shown next => shown.andThen fun _ => converse next rest

/-- The lines of an input; behind the last newline there is no further line. -/
def inputLines (input : List Char) : List (List Char) :=
  let lines := Text.lines input
  if lines.getLast? == some [] then lines.dropLast else lines

/-- A whole conversation. -/
def hold (tracing : Bool) (clock : Float) (input : List Char) : Transcript :=
  (Transcript.say (greeting tracing)).andThen fun _ =>
    converse (Session.start tracing clock) (inputLines input)

end Lox.Prompt
