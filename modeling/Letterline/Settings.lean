/-
Module: Letterline.Settings
Purpose: The settings of the command line, and the layers that they come from.
Trusted boundary: none
Main exports:
  Settings, Settings.default, Settings.load, Settings.toToml
-/
import Letterline.Json.Reader
import Letterline.Settings.Environment
import Letterline.SourceFile
import Letterline.Toml.Printer
import Letterline.Toml.Reader

namespace Letterline

/-!
Settings have defaults.  A file is laid over them, and over that the environment
variables whose names begin with `LETTERCODE__`; two underscores in a name separate
the keys of nested tables.
-/

/-- The settings. -/
structure Settings where
  /-- What source files are called. -/
  source : SourceFile.Requirement
  /-- What is written before a request for input.  Nothing is if it is empty. -/
  prompt : String
  /-- What is logged. -/
  logFilter : String
deriving Repr, DecidableEq

namespace Settings

/-- The settings without any file or variable. -/
def default : Settings where
  source := ⟨"lc", true⟩
  prompt := "The program asked for input."
  logFilter := "warn"

/-- Why there are no settings. -/
inductive LoadError where
  /-- A file is missing or cannot be read. -/
  | unloadable
  /-- A value does not fit. -/
  | invalid
deriving Repr, DecidableEq

/-- The text that reports an error. -/
def LoadError.message : LoadError → String
  | .unloadable => "Failed to load configuration"
  | .invalid => "Invalid configuration"

/-! ### Settings and configuration values -/

/-- Settings as a configuration table. -/
def toConfig (settings : Settings) : Config :=
  .table [
    ("source", .table [("extension", .text settings.source.extension),
      ("require_extension", .flag settings.source.isRequired)]),
    ("input", .table [("prompt", .text settings.prompt)]),
    ("log", .table [("filter", .text settings.logFilter)])]

/-- The settings of a configuration table.  Other keys are ignored. -/
def ofConfig? (config : Config) : Option Settings := do
  let source ← config.value? "source"
  let input ← config.value? "input"
  let log ← config.value? "log"
  match source.record? ["extension", "require_extension"], input.record? ["prompt"],
      log.record? ["filter"] with
  | some [extension, isRequired], some [prompt], some [logFilter] => do
      let extension ← extension.text?
      let isRequired ← isRequired.flag?
      let prompt ← prompt.text?
      let logFilter ← logFilter.text?
      some ⟨⟨extension, isRequired⟩, prompt, logFilter⟩
  | _, _, _ => none

/-- A line of a TOML table. -/
def tomlLine (key value : String) : String :=
  key ++ " = " ++ value ++ "\n"

/-- A text as a TOML string. -/
def tomlText (text : String) : String :=
  String.ofList (Toml.quote text.toList)

/-- Settings as a TOML document. -/
def toToml (settings : Settings) : String :=
  "[source]\n"
    ++ tomlLine "extension" (tomlText settings.source.extension)
    ++ tomlLine "require_extension" (if settings.source.isRequired then "true" else "false")
    ++ "\n[input]\n"
    ++ tomlLine "prompt" (tomlText settings.prompt)
    ++ "\n[log]\n"
    ++ tomlLine "filter" (tomlText settings.logFilter)

/-! ### Files -/

/-- The formats of configuration files. -/
inductive Format where
  | toml
  | json
deriving Repr, DecidableEq

/-- The formats in the order in which they are looked for. -/
def Format.all : List Format :=
  [.toml, .json]

/-- The extension of a format. -/
def Format.extension : Format → String
  | .toml => "toml"
  | .json => "json"

mutual

/-- A JSON value as a configuration value. -/
def configOfJson : Json → Config
  | .null => .nil
  | .bool value => .flag value
  | .int value => .integer value
  | .double value => .number value
  | .string value => .text value
  | .array items => .list (configsOfJson items)
  | .object fields => .table (entriesOfJson fields)

/-- JSON items as configuration values. -/
def configsOfJson : List Json → List Config
  | [] => []
  | item :: rest => configOfJson item :: configsOfJson rest

/-- JSON fields as entries of a table. -/
def entriesOfJson : List (String × Json) → List (String × Config)
  | [] => []
  | (key, value) :: rest => (key, configOfJson value) :: entriesOfJson rest

end

/-- Reads a configuration table. -/
def Format.read? (text : String) : Format → Option Config
  | .toml => Toml.ofText? text
  | .json =>
      match Json.ofText? text with
      | some (.object fields) => some (.table (entriesOfJson fields))
      | _ => none

/-- The file that is looked up unless another one is named. -/
def defaultFile : String := "lettercode.toml"

/-- The text of a file, if a path leads to one. -/
def fileText? (look : String → FileEntry) (path : String) : Option String :=
  (SourceFile.textOf (look path)).toOption

/-- Says whether a path leads to a file. -/
def isFile (look : String → FileEntry) (path : String) : Bool :=
  match look path with
  | .file _ => true
  | _ => false

/-- The path and format of a named file: the path itself if there is such a file, or
else the path with an extension added. -/
def namedFile? (look : String → FileEntry) (path : String) : Option (String × Format) :=
  if isFile look path then
    (Format.all.find? fun format => PathName.extension? path == some format.extension).map
      fun format => (path, format)
  else
    (Format.all.map fun format => (path ++ "." ++ format.extension, format)).find?
      fun (path, _) => isFile look path

/-- The table of a configuration file.  A named one has to be there. -/
def fileConfig (look : String → FileEntry) : (named : Option String) →
    Except LoadError Config
  | some path =>
      match namedFile? look path with
      | none => .error .unloadable
      | some (path, format) =>
          match (fileText? look path).bind format.read? with
          | some config => .ok config
          | none => .error .unloadable
  | none =>
      let path :=
        if isFile look defaultFile then defaultFile
        else defaultFile ++ "." ++ Format.toml.extension
      match fileText? look path with
      | none => .ok (.table [])
      | some text =>
          match Format.toml.read? text with
          | some config => .ok config
          | none => .error .unloadable

/-! ### Layers -/

/-- The characters that the parts of a key path are made of. -/
def isPathChar (c : Char) : Bool :=
  c.isAlphanum || c == '_' || c == '-' || c == ' '

/-- The parts of a key between dots, or the key itself if one of them is not fit. -/
def keyPath (key : String) : List String :=
  let parts := key.splitOn "."
  if parts.all fun part => !part.isEmpty && part.all isPathChar then parts else [key]

/-- Lays a table over a configuration.  The keys at its top may be paths. -/
def layer (base incoming : Config) : Config :=
  incoming.entries.foldl (fun config (key, value) => Config.insertAt (keyPath key) value config)
    base

/-- What the names of environment variables begin with, in lower case. -/
def variableStart : String := "lettercode__"

/-- The value of an environment variable: a flag, a whole number or a number if it
reads as one. -/
def variableValue (text : String) : Config :=
  match text.map Char.toLower with
  | "true" => .flag true
  | "false" => .flag false
  | _ =>
      match (signedDigits? text.toList).bind Toml.integerOf? with
      | some value => value
      | none =>
          match Numeral.ofText? text.toList with
          | some numeral => .number numeral.toDouble
          | none =>
              let (negative, word) := splitSign text.toList
              match String.ofList (word.map Char.toLower) with
              | "inf" | "infinity" => .number (.infinite negative)
              | "nan" => .number .nan
              | _ => .text text

/-- The table of the environment. -/
def environmentConfig (environment : Environment) : Config :=
  .table (environment.filterMap fun (name, text) =>
    let key := (name.map Char.toLower).toList
    if variableStart.toList.isPrefixOf key then
      let path := String.ofList (key.drop variableStart.length)
      some (".".intercalate (path.splitOn "__"), variableValue text)
    else
      none)

/-- The file of variables that adds to the environment. -/
def variableFile : String := ".env"

/-- Loads the settings from a named file, or the one that is looked up, and from the
environment unless it is left out. -/
def load (look : String → FileEntry) (named : Option String)
    (environment : Option Environment) : Except LoadError Settings := do
  let file ← fileConfig look named
  let config := layer default.toConfig file
  let config :=
    match environment with
    | none => config
    | some environment =>
        layer config (environmentConfig
          (environment.extend ((fileText? look variableFile).getD "")))
  match ofConfig? config with
  | some settings => .ok settings
  | none => .error .invalid

end Settings

end Letterline
