/-
The command line as a whole: options are taken, and a script is run or shown, or
a conversation is held over the standard input. Files and input are handed in,
so what a command line does is a function of its words, the files and the input.
-/
import Lox.CommandLine.Options
import Lox.Prompt.Conversation
import Lox.Script

namespace Lox.CommandLine

def usage : String :=
  "usage: lox [-h] [-i] [--parse] [--analyze] [--debug] [--version] [script]"

def helpLines : List String :=
  [usage,
   "",
   "Lox Programming Language - closures, classes and single inheritance",
   "",
   "positional arguments:",
   "  script             Lox script file to execute",
   "",
   "options:",
   "  -h, --help         show this help message and exit",
   "  -i, --interactive  Start interactive mode",
   "  --parse            Parse file and show the syntax tree (for debugging)",
   "  --analyze          Parse and resolve file, show scope distances (for",
   "                     debugging)",
   "  --debug            Enable debug output for all stages",
   "  --version          show program's version number and exit",
   "",
   "Examples:",
   "  lox script.lox            # Run a Lox script",
   "  lox -i                    # Interactive mode",
   "  lox --parse script.lox    # Parse and show the syntax tree",
   "  lox --analyze script.lox  # Parse, resolve and show scope distances",
   "  lox --debug script.lox    # Run with debug output",
   "        "]

/-- The exit code of a command line that cannot be understood. -/
def usageError : Int := 2

/-- Works on a script as the options say; showing its tree goes before showing its references. -/
def withScript (options : Options) (clock : Float) (files : Script.Files) (path : String) :
    Transcript :=
  if (Script.bytesAt? files path).isNone then
    .fail Script.unreadableFile [s!"Error: Script file '{path}' does not exist"]
  else
    match Script.read files path with
    | .error shown => shown
    | .ok text =>
      let session := Session.start options.debug clock
      if options.parse then Script.showTree session text path
      else if options.analyze then Script.showReferences session text path
      else Script.run session text path

/-- The script of the options; an empty path is none. -/
def Options.scriptPath? (options : Options) : Option String :=
  options.script.filter fun path => !path.isEmpty

/-- What a command line does. -/
def run (words : List String) (clock : Float) (files : Script.Files) (input : List Char) :
    Transcript :=
  match Command.ofWords words with
  | .showHelp => ⟨ended helpLines, "", some 0⟩
  | .showVersion => ⟨ended [Prompt.version], "", some 0⟩
  | .refuse message => .fail usageError [usage, "lox: error: " ++ message]
  | .run options =>
    match options.scriptPath? with
    | some path => withScript options clock files path
    | none => Prompt.hold options.debug clock input

end Lox.CommandLine
