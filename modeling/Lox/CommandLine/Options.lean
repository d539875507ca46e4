/-
The options of the command line and how words are taken for them.

A word that starts with a hyphen is an option unless it is a hyphen alone, looks
like a negative number, or holds a space; behind a word `--` there are no
options. Long options may be cut short as long as one option fits, short ones
may share a hyphen, with or without an equals sign behind the first. No option
takes a value, so what is written to an option and names no further ones is an
error.
-/
import Lox.Text.Digit
import Lox.Text.Lines
import Lox.Text.Quoted

namespace Lox.CommandLine

/-- What an option does. -/
inductive Switch where
  | help
  | interactive
  | parse
  | analyze
  | debug
  | version
deriving DecidableEq

namespace Switch

/-- The spellings of an option, the short one first. -/
def spellings : Switch → List String
  | .help => ["-h", "--help"]
  | .interactive => ["-i", "--interactive"]
  | .parse => ["--parse"]
  | .analyze => ["--analyze"]
  | .debug => ["--debug"]
  | .version => ["--version"]

def all : List Switch := [.help, .interactive, .parse, .analyze, .debug, .version]

/-- All spellings, each with its option. -/
def table : List (String × Switch) :=
  all.flatMap fun switch => switch.spellings.map fun spelling => (spelling, switch)

/-- The option of a spelling. -/
def ofSpelling? (spelling : String) : Option Switch :=
  (table.find? fun entry => entry.1 == spelling).map Prod.snd

/-- How messages name an option. -/
def fullName (switch : Switch) : String := "/".intercalate switch.spellings

end Switch

-- ========================================================== single words

/-- What is written to an option in its own word. -/
inductive Attached where
  | nothing
  /-- Letters behind a short option, each of them to name an option of its own. -/
  | joined (letters : List Char)
  /-- A value behind an equals sign. -/
  | assigned (value : String)

/-- What a word of the command line is. -/
inductive Word where
  /-- No option. -/
  | plain
  /-- An option, and what is written to it. -/
  | switch (switch : Switch) (attached : Attached)
  /-- An option that there is not. -/
  | unknown
  /-- A spelling cut so short that several options fit. -/
  | ambiguous (candidates : List String)

/-- A word cut at its first equals sign. -/
def splitValue (word : String) : String × Option String :=
  let cs := word.toList
  let name := cs.takeWhile (· ≠ '=')
  match cs.drop name.length with
  | _ :: value => (String.ofList name, some (String.ofList value))
  | [] => (word, none)

/-- Whether one text begins another. -/
def begins (start word : String) : Bool := start.toList.isPrefixOf word.toList

/-- Whether a spelling begins with two hyphens. -/
def isLong (spelling : String) : Bool := begins "--" spelling

/-- What a value behind an equals sign is to the spelling before it. A short option shares its
hyphen with the letters of the value. -/
def attach (spelling value : String) : Attached :=
  if isLong spelling || value.isEmpty then .assigned value else .joined value.toList

/-- Whether a word looks like a negative number; a newline may end it. -/
def isNegativeNumber (word : String) : Bool :=
  match Text.withoutFinalNewline word.toList with
  | '-' :: rest =>
    let whole := rest.takeWhile Text.isDigit
    match rest.drop whole.length with
    | [] => !whole.isEmpty
    | '.' :: fraction => !fraction.isEmpty && fraction.all Text.isDigit
    | _ => false
  | _ => false

/-- The options that a word can be short for. Behind two hyphens the part before an equals sign
counts; behind one the first letter can be an option and others can follow it. -/
def candidates (word : String) : List (String × Switch × Attached) :=
  if isLong word then
    let (start, value) := splitValue word
    (Switch.table.filter fun entry => begins start entry.1).map
      fun (spelling, switch) => (spelling, switch, value.elim .nothing .assigned)
  else
    let cs := word.toList
    Switch.table.filterMap fun (spelling, switch) =>
      if spelling == String.ofList (cs.take 2) then
        some (spelling, switch, .joined (cs.drop 2))
      else none

/-- A word with a hyphen that is no spelling of an option as it stands. -/
def classifyOther (word : String) : Word :=
  match candidates word with
  | [(_, switch, attached)] => .switch switch attached
  | [] =>
    if isNegativeNumber word || word.toList.contains ' ' then .plain else .unknown
  | several => .ambiguous (several.map Prod.fst)

/-- What a word is that stands before any `--`. -/
def classify (word : String) : Word :=
  match word.toList with
  | [] | ['-'] => .plain
  | '-' :: _ =>
    match Switch.ofSpelling? word with
    | some switch => .switch switch .nothing
    | none =>
      match splitValue word with
      | (name, some value) =>
        match Switch.ofSpelling? name with
        | some switch => .switch switch (attach name value)
        | none => classifyOther word
      | _ => classifyOther word
  | _ => .plain

-- ============================================================ whole lines

/-- What a command line asks for, as far as it is known. -/
structure Options where
  script : Option String
  interactive : Bool
  parse : Bool
  analyze : Bool
  debug : Bool

def Options.initial : Options := ⟨none, false, false, false, false⟩

/-- What to do with a command line. -/
inductive Command where
  | run (options : Options)
  | showHelp
  | showVersion
  | refuse (message : String)

/-- What an option does to the rest: it is noted, or it settles the command line at once. -/
def apply (options : Options) : Switch → Except Command Options
  | .help => .error .showHelp
  | .version => .error .showVersion
  | .interactive => .ok { options with interactive := true }
  | .parse => .ok { options with parse := true }
  | .analyze => .ok { options with analyze := true }
  | .debug => .ok { options with debug := true }

/-- The message about a value that was written to an option. -/
def ignoredValue (switch : Switch) (value : String) : Command :=
  .refuse ("argument " ++ switch.fullName ++ ": ignored explicit argument " ++ Text.quoted value)

/-- The options that share a hyphen. A letter that names none stops them: it and what follows it
were written to the option before. -/
def cluster (switch : Switch) : List Char → Except Command (List Switch)
  | [] => .ok [switch]
  | c :: rest =>
    match Switch.ofSpelling? (String.ofList ['-', c]) with
    | none => .error (ignoredValue switch (String.ofList (c :: rest)))
    | some other => (cluster other rest).map (switch :: ·)

/-- All options of one word. -/
def expand (switch : Switch) : Attached → Except Command (List Switch)
  | .nothing => .ok [switch]
  | .joined letters => cluster switch letters
  | .assigned value => .error (ignoredValue switch value)

/-- How far a command line has been taken in. -/
structure Intake where
  options : Options
  /-- Whether the place of the script has been filled or passed. -/
  placed : Bool
  /-- Words that have no place. -/
  surplus : List String

/-- Takes the words behind the last option, where a `--` may stand among plain words. The script
is the first plain word if its place is open. A `--` next to the script, or in place of it, goes
with it; any other one has no place. -/
def takeTail (intake : Intake) (words : List String) : Intake :=
  if intake.placed then { intake with surplus := intake.surplus ++ words }
  else
    let place (script : Option String) (rest : List String) : Intake :=
      ⟨{ intake.options with script }, true, intake.surplus ++ rest⟩
    match words with
    | [] => intake
    | "--" :: [] => place none []
    | "--" :: script :: rest => place (some script) rest
    | script :: "--" :: rest => place (some script) rest
    | script :: rest => place (some script) rest

/-- Takes one plain word before the last option. -/
def takePlain (intake : Intake) (word : String) : Intake :=
  if intake.placed then { intake with surplus := intake.surplus ++ [word] }
  else { intake with options := { intake.options with script := some word }, placed := true }

/-- Takes the words in order; `lastOption` of them reach up to the last option. -/
def takeWords (intake : Intake) : Nat → List String → Except Command Intake
  | 0, words => .ok (takeTail intake words)
  | _ + 1, [] => .ok intake
  | n + 1, word :: rest =>
    match classify word with
    | .plain => takeWords (takePlain intake word) n rest
    | .switch switch attached => do
      let switches ← expand switch attached
      let options ← switches.foldlM apply intake.options
      takeWords { intake with options } n rest
    | _ => takeWords { intake with surplus := intake.surplus ++ [word] } n rest

/-- Whether a word is taken for an option. -/
def isOption (word : String) : Bool :=
  match classify word with
  | .plain => false
  | _ => true

/-- How many words reach up to the last option before any `--`. -/
def optionReach (words : List String) : Nat :=
  let head := words.takeWhile (· ≠ "--")
  (head.reverse.dropWhile fun word => !isOption word).length

/-- The first word before any `--` that several options fit. -/
def ambiguity? (words : List String) : Option Command :=
  (words.takeWhile (· ≠ "--")).findSome? fun word =>
    match classify word with
    | .ambiguous several =>
      some (.refuse ("ambiguous option: " ++ word ++ " could match " ++ ", ".intercalate several))
    | _ => none

/-- What a command line asks for. -/
def Command.ofWords (words : List String) : Command :=
  match ambiguity? words with
  | some command => command
  | none =>
    match takeWords ⟨Options.initial, false, []⟩ (optionReach words) words with
    | .error command => command
    | .ok intake =>
      if intake.surplus.isEmpty then .run intake.options
      else .refuse ("unrecognized arguments: " ++ " ".intercalate intake.surplus)

end Lox.CommandLine
