/-!
# Options of the program

The program is started with options and nothing else. An option that takes a value has it
either as the next argument or behind an equals sign, and a short option also right
behind its letter. Each may be given once.
-/

namespace TermShell

/-- How the program is to run. -/
structure Options where
  /-- The script to run; without one, lines are read from standard input. -/
  script : Option String
  /-- The file that a save writes. -/
  savePath : Option String
  /-- How much the program is to log. It keeps no log, so the level has no effect. -/
  logLevel : Option String
  /-- Never write colours. -/
  plain : Bool
  deriving DecidableEq

/-- What the arguments ask for. -/
inductive Invocation where
  | run (options : Options)
  | help
  | version
  deriving DecidableEq

/-- Why the arguments make no sense. -/
inductive UsageError where
  | unexpected (argument : String)
  | missingValue (usage : String)
  | unwantedValue (option value : String)
  | repeated (usage : String)
  deriving DecidableEq

namespace Options

/-- No options. -/
def none : Options := ⟨.none, .none, .none, false⟩

/-- The place of a save, if no other is given. -/
def defaultSavePath : String := "terminal-os-save.json"

/-- The options that take a value. -/
inductive Key where
  | script
  | savePath
  | logLevel
  deriving DecidableEq

/-- An option with its value, as the help writes it. -/
def Key.usage : Key → String
  | .script => "--script <SCRIPT>"
  | .savePath => "--save-path <SAVE_PATH>"
  | .logLevel => "--log-level <LOG_LEVEL>"

/-- The option of this long name. -/
def Key.ofName? : List Char → Option Key
  | name =>
    if name = "script".toList then some .script
    else if name = "save-path".toList then some .savePath
    else if name = "log-level".toList then some .logLevel
    else .none

/-- The value that an option has so far. -/
def get? (o : Options) : Key → Option String
  | .script => o.script
  | .savePath => o.savePath
  | .logLevel => o.logLevel

/-- The options with one more value. -/
def set (o : Options) (key : Key) (value : String) : Except UsageError Options :=
  if (o.get? key).isSome then .error (.repeated key.usage)
  else .ok (match key with
    | .script => { o with script := some value }
    | .savePath => { o with savePath := some value }
    | .logLevel => { o with logLevel := some value })

/-- A long option, cut at the equals sign if it has one. -/
def cutValue (text : List Char) : List Char × Option String :=
  match text.dropWhile (· != '=') with
  | _ :: value => (text.takeWhile (· != '='), some (String.ofList value))
  | [] => (text, .none)

/-- Reads the arguments after the options read so far. -/
def parseAfter (o : Options) : List String → Except UsageError Invocation
  | [] => .ok (.run o)
  | argument :: rest =>
    match argument.toList with
    | ['-', 'h'] => .ok .help
    | ['-', 'V'] => .ok .version
    | ['-', 's'] => withNext o .script rest
    | '-' :: 's' :: '=' :: value => do parseAfter (← o.set .script (String.ofList value)) rest
    | '-' :: 's' :: value => do parseAfter (← o.set .script (String.ofList value)) rest
    | '-' :: '-' :: text =>
      let option := cutValue text
      match Key.ofName? option.1, option.2 with
      | some key, some value => do parseAfter (← o.set key value) rest
      | some key, .none => withNext o key rest
      | .none, value =>
        if option.1 = "plain".toList then
          match value with
          | some value => .error (.unwantedValue "--plain" value)
          | .none =>
            if o.plain then .error (.repeated "--plain")
            else parseAfter { o with plain := true } rest
        else if text = "help".toList then .ok .help
        else if text = "version".toList then .ok .version
        else .error (.unexpected argument)
    | _ => .error (.unexpected argument)
where
  /-- Takes the next argument as the value of an option. -/
  withNext (o : Options) (key : Key) : List String → Except UsageError Invocation
    | [] => .error (.missingValue key.usage)
    | value :: rest => do parseAfter (← o.set key value) rest

/-- Reads the arguments of the program. -/
def parse (arguments : List String) : Except UsageError Invocation := parseAfter none arguments

/-- The page that explains the options. -/
def helpText : String := String.intercalate "\n" [
  "A simulated operating system shell over an in-memory file system",
  "",
  "Usage: terminal-os [OPTIONS]",
  "",
  "Options:",
  "  -s, --script <SCRIPT>        Input script to run instead of reading stdin",
  "      --save-path <SAVE_PATH>  Where the `save` command writes its snapshot [default: " ++
    defaultSavePath ++ "]",
  "      --log-level <LOG_LEVEL>  Log level (trace, debug, info, warn, error)",
  "      --plain                  Never colour output",
  "  -h, --help                   Print help",
  "  -V, --version                Print version"]

/-- The name and version of the program. -/
def versionText : String := "terminal-os 0.1.0"

end Options

/-- A usage error in words. -/
def UsageError.message (e : UsageError) : String :=
  (match e with
    | .unexpected argument => "error: unexpected argument '" ++ argument ++ "' found"
    | .missingValue usage =>
      "error: a value is required for '" ++ usage ++ "' but none was supplied"
    | .unwantedValue option value =>
      "error: unexpected value '" ++ value ++ "' for '" ++ option ++ "' found; no more were expected"
    | .repeated usage => "error: the argument '" ++ usage ++ "' cannot be used multiple times") ++
  "\n\nUsage: terminal-os [OPTIONS]\n\nFor more information, try '--help'."

end TermShell
