import PlsqlNav.Files.Tree
import PlsqlNav.Search.Synonyms
import PlsqlNav.Settings.Layer

/-! Settings: built-in ones, changed by the configuration file of the user and then by that of the
workspace. -/
namespace PlsqlNav

structure Settings where
  /-- Extensions of candidate files, without points in front. -/
  extensions : List String
  /-- Directories that are searched besides the workspace. -/
  roots : List Path
  synonyms : Synonyms
  format : Format
  /-- Patterns of what is not searched. -/
  exclusions : List String
  deriving DecidableEq, Repr

namespace Settings

def builtIn : Settings where
  extensions :=
    ["sql", "pks", "pkb", "pls", "plb", "pck", "pkg", "prc", "fnc", "trg", "tps", "tpb"]
  roots := []
  synonyms := []
  format := .grep
  exclusions := []

def dropPoints (extension : String) : String :=
  String.ofList (extension.toList.dropWhile (· == '.'))

/-- Settings changed by a layer. Lists are replaced as a whole, synonyms one by one, and roots are
taken from the directory `base`. -/
def overlay (s : Settings) (layer : Layer) (base : Path) : Settings where
  extensions := (layer.extensions.map fun es => es.map dropPoints).getD s.extensions
  roots := (layer.roots.map fun rs => rs.map fun r => base.join ⟨r⟩).getD s.roots
  synonyms := s.synonyms.merge layer.synonyms
  format := layer.format.getD s.format
  exclusions := layer.exclusions.getD s.exclusions

inductive Error where
  | unreadable (file : Path) (error : IoError)
  | invalid (file : Path) (error : Toml.Error)
  deriving DecidableEq, Repr

namespace Error

def summary : Error → String
  | unreadable file _ => "cannot read config file " ++ file.text
  | invalid file _ => "invalid config file " ++ file.text

def detail : Error → String
  | unreadable _ error => error.text
  | invalid _ error => error.message

def message (e : Error) : String := e.summary ++ ": " ++ e.detail

end Error

def fileOf (base : Path) : Path := (base.join ⟨".plnav"⟩).join ⟨"config.toml"⟩

/-- Settings changed by the configuration file of a directory, if there is one. -/
def overlayFrom (disk : Disk) (base : Path) (s : Settings) : Except Error Settings :=
  match disk.read (fileOf base) with
  | .error e => if e.cause = .missing then .ok s else .error (.unreadable (fileOf base) e)
  | .ok text =>
    match Layer.ofText text with
    | .error e => .error (.invalid (fileOf base) e)
    | .ok layer => .ok (s.overlay layer base)

/-- The settings of a user whose home is `home` in a workspace. -/
def load (disk : Disk) (home workspace : Option Path) : Except Error Settings :=
  [home, workspace].foldlM (fun s base =>
    match base with
    | none => .ok s
    | some base => s.overlayFrom disk base) builtIn

end Settings

end PlsqlNav
