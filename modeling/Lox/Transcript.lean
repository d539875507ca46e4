/-
Transcripts: what a run shows to the outside. Output and error channel are kept
apart, each in the order in which it was written, and an exit code is there when
the run ended the process.
-/
import Lox.Report

namespace Lox

structure Transcript where
  out : String
  err : String
  exit : Option Int

namespace Transcript

/-- A run that showed nothing and went on. -/
def silent : Transcript := ⟨"", "", none⟩

/-- Lines on the output channel. -/
def say (lines : List String) : Transcript := ⟨ended lines, "", none⟩

/-- Lines on the error channel, and the end of the process. -/
def fail (code : Int) (lines : List String) : Transcript := ⟨"", ended lines, some code⟩

/-- One run after another. Nothing follows the end of the process. -/
def andThen (a : Transcript) (b : Unit → Transcript) : Transcript :=
  match a.exit with
  | some _ => a
  | none =>
    let b := b ()
    ⟨a.out ++ b.out, a.err ++ b.err, b.exit⟩

end Transcript

/-- The exit code that a program asked for. -/
def Outcome.exitCode : Outcome → Option Int
  | .stopped (.exit code) => some code
  | _ => none

/-- What a session has shown since it was last hushed, and the report on how it ended. -/
def Session.transcript (s : Session) (source : Option (List Char)) (outcome : Outcome) :
    Transcript :=
  ⟨s.machine.output, s.machine.trace ++ outcome.report source, outcome.exitCode⟩

end Lox
