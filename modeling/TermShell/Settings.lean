import TermShell.Config
import TermShell.Rgb
import TermShell.Volume

/-!
# Settings kept in files

The settings of the system are ordinary files of the volume, and whoever may write them
can change them. Two of them have a fixed place: the colours that the terminal offers and
the preferences of the user.

A colour that is not written as one is passed over, and so never hides a later colour of
the same name.
-/

namespace TermShell

/-- Why settings cannot be had. -/
inductive SettingsError where
  /-- There is no file at this path. -/
  | notFound (path : String)
  /-- The file at this path holds no setting. -/
  | empty (path : String)
  /-- The text is not a colour. -/
  | invalidHex (text : String)
  /-- The volume refuses. -/
  | volume (cause : VolumeError)
  deriving DecidableEq

/-- A failure in words. -/
def SettingsError.message : SettingsError → String
  | .notFound path => "Config file not found: " ++ path
  | .empty path => "No configuration in " ++ path
  | .invalidHex text => "\"" ++ text ++ "\" is not a valid hex color"
  | .volume cause => "Directory error: " ++ cause.message

namespace Settings

/-- The configuration in the file at a path, seen from the root. -/
def load (v : Volume) (path : String) : Except SettingsError Config :=
  match v.tree.findFile v.tree.rootNode path with
  | none => .error (.notFound path)
  | some file =>
    match Config.parse file.text with
    | some config => .ok config
    | none => .error (.empty path)

/-- The configuration of the colours. -/
def colorConfig (v : Volume) : Except SettingsError Config := load v Layout.colorConfigPath

/-- The configuration of the user. -/
def userConfig (v : Volume) : Except SettingsError Config := load v Layout.userConfigPath

/-- The colour that a text stands for. -/
def parseColor (text : String) : Except SettingsError Rgb :=
  match Rgb.ofHex? text with
  | some color => .ok color
  | none => .error (.invalidHex text)

/-- The settings of a configuration that are colours. -/
def colorsOf (config : Config) : List (String × Rgb) :=
  config.settings.filterMap fun kv => (Rgb.ofHex? kv.2).map fun color => (kv.1, color)

/-- The colours that the terminal offers, in the order of the file. -/
def colors (v : Volume) : Except SettingsError (List (String × Rgb)) :=
  (colorConfig v).map colorsOf

/-- The first of some named colours that has the name. -/
def named? (name : String) (colors : List (String × Rgb)) : Option Rgb :=
  (colors.find? (·.1 == name)).map Prod.snd

/-- The colour of this name. -/
def color (v : Volume) (name : String) : Except SettingsError (Option Rgb) :=
  (colors v).map (named? name)

/-- The path of the program whose help lists the colours. -/
def colorProgramPath : String := Program.path "color"

/-- A text with the names of the colours in the place of the placeholder. -/
def fillColors (colors : List (String × Rgb)) (text : String) : String :=
  Text.replace Program.colorsPlaceholder (String.intercalate ", " (colors.map Prod.fst)) text

/-- Writes the names of the colours into the help of the color program. -/
def updateColorProgram (v : Volume) : Except SettingsError Volume :=
  match colors v with
  | .error e => .error e
  | .ok colors =>
    match v.tree.findFile v.tree.rootNode colorProgramPath with
    | none => .error (.notFound colorProgramPath)
    | some program =>
      match v.write program.id (fillColors colors program.text) with
      | .ok v' => .ok v'
      | .error e => .error (.volume e)

/-- The volume after an update of the color program. A refusal is let pass, and the volume is then
as it was. -/
def refreshed (v : Volume) : Volume :=
  match updateColorProgram v with
  | .ok v' => v'
  | .error _ => v

end Settings

end TermShell
