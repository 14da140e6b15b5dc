/-
Module: Letterline.CommandLine
Purpose: The commands of the command line, from arguments to what is written.
Trusted boundary: none
Main exports:
  Command, Invocation, Invocation.ofArguments?, Invocation.plan, Terminal,
  respond
-/
import Letterline.Program.Json
import Letterline.Session
import Letterline.Settings

namespace Letterline

/-!
A command is a dialogue: what it writes goes to the standard output, what it asks for
comes from the standard input.  It ends with a code and with what is left to report.
-/

/-! ### Arguments -/

/-- What to do. -/
inductive Command where
  | run (file : String)
  | parse (file : String) (pretty : Bool)
  | check (file : String)
  | config
  | help
deriving Repr, DecidableEq

/-- A command and the configuration file that was named. -/
structure Invocation where
  config : Option String
  command : Command
deriving Repr, DecidableEq

namespace Invocation

/-- The words that follow the name of a command. -/
structure Words where
  config : Option String
  pretty : Bool
  files : List String
deriving Repr, DecidableEq

/-- What the arguments come to so far. -/
inductive Progress where
  | words (words : Words)
  | help
  | usageError
deriving Repr, DecidableEq

/-- The value of an option that is written in one word with it. -/
def inlineValue? (option word : String) : Option String :=
  let start := (option ++ "=").toList
  if start.isPrefixOf word.toList then
    some (String.ofList (word.toList.drop start.length))
  else
    none

/-- Says whether a word is taken for an option. -/
def isOption (word : String) : Bool :=
  word != "-" && word.toList.head? == some '-'

/-- Takes the value of the option that names a configuration file, which may be given
once. -/
def withConfig (value : String) (words : Words) : Option Words :=
  if value = "" ∨ words.config.isSome then none else some { words with config := some value }

/-- Takes a file, which has a name. -/
def withFile (word : String) (words : Words) : Option Words :=
  if word = "" then none else some { words with files := words.files ++ [word] }

/-- Takes the words behind the name of a command.  `literal` words are not looked at
for options. -/
def readWords (takesPretty : Bool) : (literal : Bool) → Words → List String → Progress
  | _, words, [] => .words words
  | true, words, word :: rest =>
      match withFile word words with
      | some words => readWords takesPretty true words rest
      | none => .usageError
  | false, words, [word] =>
      if word = "--config" then .usageError
      else readWord words word
  | false, words, word :: value :: rest =>
      if word = "--config" then
        if isOption value then .usageError
        else match withConfig value words with
          | some words => readWords takesPretty false words rest
          | none => .usageError
      else if word = "--" then readWords takesPretty true words (value :: rest)
      else match readWord words word with
        | .words words => readWords takesPretty false words (value :: rest)
        | other => other
where
  /-- Takes a word that stands for itself. -/
  readWord (words : Words) (word : String) : Progress :=
    if word = "-h" ∨ word = "--help" then .help
    else if word = "--" then .words words
    else if takesPretty && (word == "-p" || word == "--pretty") then
      if words.pretty then .usageError else .words { words with pretty := true }
    else
      let taken :=
        match inlineValue? "--config" word with
        | some value => withConfig value words
        | none => if isOption word then none else withFile word words
      match taken with
      | some words => .words words
      | none => .usageError

/-- The command of a name with a number of files, if they fit. -/
def commandOf? (name : String) (words : Words) : Option Command :=
  match name, words.files with
  | "run", [file] => some (.run file)
  | "parse", [file] => some (.parse file words.pretty)
  | "check", [file] => some (.check file)
  | "config", [] => some .config
  | _, _ => none

/-- Reads the name of a command and the words behind it.  A configuration file named
behind the command counts more than one named before. -/
def ofCommand? (config : Option String) (name : String) (rest : List String) :
    Option Invocation :=
  if name = "help" then
    some ⟨config, .help⟩
  else if name ∈ ["run", "parse", "check", "config"] then
    match readWords (name == "parse") false ⟨none, false, []⟩ rest with
    | .usageError => none
    | .help => some ⟨config, .help⟩
    | .words words => (commandOf? name words).map fun command => ⟨words.config.or config, command⟩
  else
    none

/-- Reads the arguments.  There is no invocation if they are used wrongly. -/
def ofArguments? : (config : Option String) → List String → Option Invocation
  | _, [] => none
  | config, [word] => ofWord? config word []
  | config, word :: value :: rest =>
      if word = "--config" then
        if isOption value || value == "" || config.isSome then none
        else ofArguments? (some value) rest
      else
        match inlineValue? "--config" word with
        | some path =>
            if path == "" || config.isSome then none
            else ofArguments? (some path) (value :: rest)
        | none => ofWord? config word (value :: rest)
where
  /-- Reads a word that is the name of a command or asks for help. -/
  ofWord? (config : Option String) (word : String) (rest : List String) : Option Invocation :=
    if word = "-h" ∨ word = "--help" then some ⟨config, .help⟩
    else ofCommand? config word rest

end Invocation

/-- How the program is used. -/
def usage : String :=
  "Usage: lettercode [--config <FILE>] <COMMAND>\n\n"
    ++ "Commands:\n"
    ++ "  run <FILE>         Run a program\n"
    ++ "  parse [-p] <FILE>  Print the parsed program as JSON\n"
    ++ "  check <FILE>       Parse and validate a program without running it\n"
    ++ "  config             Print the effective configuration\n"

/-! ### Commands -/

/-- What a command ends with. -/
structure Exit where
  code : Nat
  /-- What is written to the standard error at the end. -/
  report : String
deriving Repr, DecidableEq

namespace Exit

/-- The end of a command that did what was asked. -/
def success : Exit :=
  ⟨0, ""⟩

/-- The end of a command that failed for a reason. -/
def failure (reason : String) : Exit :=
  ⟨1, "Error: " ++ reason ++ "\n"⟩

/-- The end of a command that failed because a file has no program line. -/
def ofLoadError (path : String) (error : SourceFile.LoadError) : Exit :=
  let cause :=
    match error with
    | .unreadable _ reason => ": " ++ reason
    | _ => ""
  failure ("Failed to load " ++ path ++ ": " ++ error.message ++ cause)

/-- The end of a command that a source is not fit for. -/
def ofRejection : Rejection → Exit
  | .unreadable error => failure ((Failure.unreadable error).message ++ ": " ++ error.message)
  | .invalid findings => failure (Failure.invalid findings).message

/-- The end of a command that ran a program. -/
def ofEnding : Ending → Exit
  | .proceeds => success
  | .exits => success
  | .fails error =>
      let cause :=
        match error with
        | .input reason => ": " ++ reason
        | .output reason => ": " ++ reason
        | _ => ""
      failure (error.message ++ cause)
  | .unfinished => failure "A loop did not end"

end Exit

namespace Command

/-- Writes a text and ends. -/
def writeText (text : String) (exit : Exit) : Dialogue Exit :=
  if text = "" then
    .done exit
  else
    .tell text fun
      | .ok () => .done exit
      | .error reason => .done (.failure (RuntimeError.output reason).message)

/-- Reads the source that a command is about, and goes on with it. -/
def withSource (look : String → FileEntry) (settings : Settings) (path : String)
    (next : String → Dialogue Exit) : Dialogue Exit :=
  match SourceFile.load path settings.source (look path) with
  | .error error => .done (.ofLoadError path error)
  | .ok source => next source

/-- Runs a program from a fresh store. -/
def runSource (limit : Nat) (source : String) : Dialogue Exit :=
  match Program.prepare source with
  | .error rejection => .done (.ofRejection rejection)
  | .ok program => (program.execute limit .empty).bind fun (ending, _) => .done (.ofEnding ending)

/-- Writes a program as JSON. -/
def parseSource (pretty : Bool) (source : String) : Dialogue Exit :=
  match Program.parse source with
  | .error error => .done (.failure error.message)
  | .ok program =>
      writeText (program.jsonText (if pretty then .indented else .compact) ++ "\n") .success

/-- Writes what the checks find. -/
def checkSource (path source : String) : Dialogue Exit :=
  match Program.parse source with
  | .error error => .done (.failure error.message)
  | .ok program =>
      let lines := program.findings.map fun finding => finding.text ++ "\n"
      if program.findings.isEmpty then writeText (path ++ ": ok\n") .success
      else if program.errors.isEmpty then writeText (String.join lines) .success
      else writeText (String.join lines) (.failure (path ++ " has errors"))

/-- What a command does under some settings. -/
def perform (limit : Nat) (look : String → FileEntry) (settings : Settings) :
    Command → Dialogue Exit
  | .run path => withSource look settings path (runSource limit)
  | .parse path pretty => withSource look settings path (parseSource pretty)
  | .check path => withSource look settings path (checkSource path)
  | .config => writeText settings.toToml .success
  | .help => writeText usage .success

end Command

/-- What an invocation does, and what is written before each request for input. -/
structure Plan where
  prompt : String
  dialogue : Dialogue Exit

namespace Invocation

/-- What to do for an invocation.  Settings are loaded before anything else, so
their errors come first. -/
def plan (limit : Nat) (look : String → FileEntry) (environment : Environment)
    (invocation : Invocation) : Plan :=
  match invocation.command with
  | .help => ⟨"", invocation.command.perform limit look .default⟩
  | command =>
      match Settings.load look invocation.config (some environment) with
      | .error error => ⟨"", .done (.failure error.message)⟩
      | .ok settings => ⟨settings.prompt, command.perform limit look settings⟩

/-- The files that an invocation may look at. -/
def files (invocation : Invocation) : List String :=
  let configs :=
    (invocation.config.getD Settings.defaultFile) :: Settings.Format.all.map fun format =>
      invocation.config.getD Settings.defaultFile ++ "." ++ format.extension
  let sources :=
    match invocation.command with
    | .run path => [path]
    | .parse path _ => [path]
    | .check path => [path]
    | _ => []
  Settings.variableFile :: configs ++ sources

end Invocation

/-! ### The terminal -/

/-- A line of input without the line feeds and carriage returns at its end. -/
def inputLine (line : List Char) : List Char :=
  (line.reverse.dropWhile fun c => c == '\n' || c == '\r').reverse

/-- The text that a line of input holds, or the reason why it holds none. -/
def inputText (line : ByteArray) : Except String String :=
  match String.fromUTF8? line with
  | some text => .ok (String.ofList (inputLine text.toList))
  | none => .error "stream did not contain valid UTF-8"

/-- The standard streams. -/
structure Terminal where
  /-- What is written before each request. -/
  prompt : String
  /-- The input that was not read yet. -/
  input : List UInt8
  output : String
  errors : String

namespace Terminal

/-- What a request writes to the standard error. -/
def promptLine (prompt : String) : String :=
  if prompt = "" then "" else prompt ++ "\n"

/-- Reads the next line, which is empty at the end of the input. -/
def answer (terminal : Terminal) : Except String String × Terminal :=
  let line := terminal.input.takeWhile (· != 10)
  let rest := (terminal.input.drop line.length).drop 1
  (inputText (ByteArray.mk line.toArray),
    { terminal with input := rest, errors := terminal.errors ++ promptLine terminal.prompt })

/-- Writes a text to the standard output. -/
def write (text : String) (terminal : Terminal) : Except String Unit × Terminal :=
  (.ok (), { terminal with output := terminal.output ++ text })

/-- The console of a terminal. -/
def console : Console Terminal :=
  ⟨answer, write, fun terminal => (.ok (), terminal)⟩

end Terminal

/-- What a command leaves behind. -/
structure Response where
  code : Nat
  output : String
  errors : String
deriving Repr, DecidableEq

/-- The code for arguments that are used wrongly. -/
def usageCode : Nat := 2

/-- The response to arguments, files, variables and input. -/
def respond (limit : Nat) (look : String → FileEntry) (environment : Environment)
    (input : List UInt8) (arguments : List String) : Response :=
  match Invocation.ofArguments? none arguments with
  | none => ⟨usageCode, "", usage⟩
  | some invocation =>
      let plan := invocation.plan limit look environment
      let (exit, terminal) := plan.dialogue.run Terminal.console ⟨plan.prompt, input, "", ""⟩
      ⟨exit.code, terminal.output, terminal.errors ++ exit.report⟩

end Letterline
