/-
The program: words of the command line in, text on the two channels and an exit
code out. Only this module touches files and channels; what it says and does is
decided by `CommandLine/Run.lean` and `Prompt/Conversation.lean`.
-/
import Lox.CommandLine.Run

namespace Lox.Main

/-- Writes a transcript to the two channels. -/
def emit (t : Transcript) : IO Unit := do
  let out ← IO.getStdout
  let err ← IO.getStderr
  out.putStr t.out
  err.putStr t.err
  out.flush
  err.flush

/-- The content of a file; nothing when it cannot be had. -/
def content? (path : String) : IO (Option (List UInt8)) := do
  try
    let bytes ← IO.FS.readBinFile path
    pure (some bytes.toList)
  catch _ => pure none

/-- Goes on with a conversation over the standard input. -/
partial def converse (s : Session) : IO (Option Int) := do
  emit ⟨Prompt.invitation, "", none⟩
  let line ← (← IO.getStdin).getLine
  if line.isEmpty then
    emit (.say Prompt.farewell)
    return none
  match Prompt.turn s (Text.withoutFinalNewline line.toList) with
  | .quit => return none
  | .goOn shown next =>
    emit shown
    match shown.exit with
    | some code => return some code
    | none => converse next

/-- The seconds that the clock of a new session shows. -/
def now : IO Float := do
  let ms ← IO.monoMsNow
  pure (ms.toFloat / 1000.0)

/-- Does what the words of the command line ask for. -/
def run (words : List String) : IO (Option Int) := do
  let clock ← now
  match CommandLine.Command.ofWords words with
  | .run options =>
    match options.scriptPath? with
    | some path => do
      let content ← content? (Script.plainPath path)
      let files : Script.Files := fun _ => content
      let shown := CommandLine.withScript options clock files path
      emit shown
      pure shown.exit
    | none => do
      emit (.say (Prompt.greeting options.debug))
      converse (Session.start options.debug clock)
  | _ => do
    let shown := CommandLine.run words clock (fun _ => none) []
    emit shown
    pure shown.exit

end Lox.Main

/-- The process ends with the last eight bits of the exit code. -/
def main (words : List String) : IO UInt32 := do
  let code ← Lox.Main.run words
  pure (UInt32.ofNat (((code.getD 0) % 256).toNat))
