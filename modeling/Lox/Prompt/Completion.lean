/-
Completion: the words that a word under way can become.
-/
import Lox.Text.Name
import Lox.Store.Value

namespace Lox.Prompt

/-- The commands of the prompt. -/
def commandWords : List String := [":parse", ":analyze", ":env", ":help", ":quit"]

/-- All words that are offered: those of the language, the native functions, and commands. -/
def completions : List String :=
  Text.reservedWords ++ Native.all.map Native.name ++ commandWords

/-- The offered words that begin with a given text. -/
def complete (text : String) : List String :=
  completions.filter fun word => text.toList.isPrefixOf word.toList

end Lox.Prompt
