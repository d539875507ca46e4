/-
A sample program, read with all traces on: the smallest check that reading
works.
-/
import Lox.Transcript
import Lox.Syntax.Printer

namespace Lox.Sample

def text : String :=
  "\n        ".intercalate
    ["", "// Simple Lox program", "fun add(a, b) \x7b return a + b; \x7d", "print add(3, 4);", ""]

/-- The trees of the sample, and the trace of reading it. -/
def transcript : Transcript :=
  match (Session.start true 0).read text.toList "<input>" with
  | (.ok body, s) => (s.transcript none .completed).andThen fun _ => .say (body.map Stmt.view)
  | (.error outcome, s) => s.transcript none outcome

end Lox.Sample
