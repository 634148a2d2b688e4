/-!
Invocations: what a command line asks the checker to do. Flags may stand before
and behind the command, options behind it only. An option is written with its
value attached or with the value as the next word, short names may share one
dash, and nothing may be given twice at the same place.
-/

namespace GraphQL.Check

/-- The ways to report diagnostics. -/
inductive Format where
  | pretty
  | json
deriving DecidableEq

/-- The name of a format. -/
def Format.name : Format → String
  | .pretty => "pretty"
  | .json => "json"

/-- The format with a name. -/
def Format.ofName? (name : String) : Option Format :=
  [Format.pretty, .json].find? fun format => format.name == name

/-- The switches that every command has. -/
inductive Flag where
  | verbose
  | quiet
deriving DecidableEq

/-- The settings that have a value. -/
inductive Setting where
  | schema
  | document
  | format
deriving DecidableEq

/-- What the program can be asked to do. -/
inductive Command where
  | validate (schema document : String) (format : Format)
  | version
deriving DecidableEq

/-- A command and the switches that are on. -/
structure Invocation where
  verbose : Bool
  quiet : Bool
  command : Command
deriving DecidableEq

/-- An option, told by its name. -/
inductive Switch where
  | flag (flag : Flag)
  | setting (setting : Setting)
deriving DecidableEq

namespace Switch

/-- The long name of an option. -/
def name : Switch → String
  | .flag .verbose => "verbose"
  | .flag .quiet => "quiet"
  | .setting .schema => "schema"
  | .setting .document => "document"
  | .setting .format => "format"

/-- The short name of an option: the first letter of the long one. -/
def letter : Switch → Char
  | .flag .verbose => 'v'
  | .flag .quiet => 'q'
  | .setting .schema => 's'
  | .setting .document => 'd'
  | .setting .format => 'f'

/-- The options that stand everywhere. -/
def shared : List Switch := [.flag .verbose, .flag .quiet]

/-- The options that stand behind the command `validate`. -/
def ofValidate : List Switch :=
  shared ++ [.setting .schema, .setting .document, .setting .format]

end Switch

/-- The options found at one place. -/
structure Options where
  flags : List Flag
  settings : List (Setting × String)

namespace Options

/-- No options. -/
def none : Options := ⟨[], []⟩

/-- The options with some flags in front. -/
def withFlags (options : Options) (flags : List Flag) : Options :=
  { options with flags := flags ++ options.flags }

/-- The options with a setting in front. -/
def withSetting (options : Options) (setting : Setting) (value : String) : Options :=
  { options with settings := (setting, value) :: options.settings }

/-- Nothing is given twice. -/
def areDistinct (options : Options) : Bool :=
  decide options.flags.Nodup && decide (options.settings.map Prod.fst).Nodup

/-- The value of a setting. -/
def value? (options : Options) (setting : Setting) : Option String :=
  (options.settings.find? fun entry => entry.1 == setting).map Prod.snd

/-- The path that a setting gives, which must not be empty. -/
def path? (options : Options) (setting : Setting) : Option String :=
  (options.value? setting).filter fun path => path ≠ ""

/-- The format that the options ask for; pretty unless they say otherwise. -/
def format? (options : Options) : Option Format :=
  match options.value? .format with
  | some name => Format.ofName? name
  | .none => some .pretty

end Options

/-- One argument taken apart: the flags in it, and at its end perhaps a setting, whose value may be attached. -/
structure Parsed where
  flags : List Flag
  setting : Option (Setting × Option String)

/-- The argument is a word and no option; a single dash is a word. -/
def isWord (argument : String) : Bool :=
  match argument.toList with
  | '-' :: _ :: _ => false
  | _ => true

/-- The options behind a single dash. A setting takes the rest as its value, without an equals sign. -/
def Parsed.ofLetters? (known : List Switch) : List Char → Option Parsed
  | [] => some ⟨[], none⟩
  | c :: rest =>
    match known.find? fun switch => switch.letter == c with
    | none => none
    | some (.flag flag) => (ofLetters? known rest).map fun parsed => { parsed with flags := flag :: parsed.flags }
    | some (.setting setting) =>
      match rest with
      | [] => some ⟨[], some (setting, none)⟩
      | '=' :: value => some ⟨[], some (setting, some (String.ofList value))⟩
      | value => some ⟨[], some (setting, some (String.ofList value))⟩

/-- The option behind two dashes. -/
def Parsed.ofName? (known : List Switch) (text : List Char) : Option Parsed :=
  let name := text.takeWhile (· ≠ '=')
  match known.find? (fun switch => switch.name.toList == name), text.dropWhile (· ≠ '=') with
  | some (.flag flag), [] => some ⟨[flag], none⟩
  | some (.setting setting), [] => some ⟨[], some (setting, none)⟩
  | some (.setting setting), _ :: value => some ⟨[], some (setting, some (String.ofList value))⟩
  | _, _ => none

/-- The options that one argument holds. -/
def Parsed.ofArgument? (known : List Switch) (argument : String) : Option Parsed :=
  match argument.toList with
  | '-' :: '-' :: text => ofName? known text
  | '-' :: letters => ofLetters? known letters
  | _ => none

/-- The options at the front of some arguments, and what stands behind them,
from the first word or double dash on. -/
def options? (known : List Switch) : List String → Option (Options × List String)
  | [] => some (.none, [])
  | argument :: arguments =>
    if isWord argument || argument == "--" then some (.none, argument :: arguments)
    else match Parsed.ofArgument? known argument with
      | none => none
      | some ⟨flags, none⟩ =>
        (options? known arguments).map fun (options, rest) => (options.withFlags flags, rest)
      | some ⟨flags, some (setting, some value)⟩ =>
        (options? known arguments).map fun (options, rest) =>
          ((options.withSetting setting value).withFlags flags, rest)
      | some ⟨flags, some (setting, none)⟩ =>
        match arguments with
        | value :: arguments =>
          if isWord value then
            (options? known arguments).map fun (options, rest) =>
              ((options.withSetting setting value).withFlags flags, rest)
          else none
        | [] => none

/-- The options of a command, which nothing but a double dash may follow. -/
def commandOptions? (known : List Switch) (arguments : List String) : Option Options :=
  match options? known arguments with
  | some (options, []) | some (options, ["--"]) => if options.areDistinct then some options else none
  | _ => none

/-- The command with a name, and its options. -/
def Command.ofArguments? (name : String) (arguments : List String) : Option (Command × Options) := do
  if name = "version" then
    let options ← commandOptions? Switch.shared arguments
    return (.version, options)
  else if name = "validate" then
    let options ← commandOptions? Switch.ofValidate arguments
    return (.validate (← options.path? .schema) (← options.path? .document) (← options.format?), options)
  else none

/-- The invocation that some arguments are. -/
def Invocation.ofArguments? (arguments : List String) : Option Invocation :=
  match options? Switch.shared arguments with
  | some (outer, name :: arguments) =>
    if outer.areDistinct then
      (Command.ofArguments? name arguments).map fun (command, inner) =>
        let flags := outer.flags ++ inner.flags
        ⟨flags.contains .verbose, flags.contains .quiet, command⟩
    else none
  | _ => none

end GraphQL.Check
