import PlsqlNav.Path
import PlsqlNav.Symbol

/-! What can be asked on a command line. -/
namespace PlsqlNav

/-- A line and a column of a file, both counted from one. -/
structure Location where
  file : Path
  line : Nat
  column : Nat
  deriving DecidableEq, Repr

inductive Command where
  /-- The outline of a file. -/
  | symbols (file : Path)
  /-- The definition of the word at a location, and with `doc` its documentation. -/
  | goto (location : Location) (wanted : Flavour) (doc : Bool)
  /-- The other flavour of the package or routine at a location. -/
  | switch (location : Location)
  /-- The members of the package before the point at a location. -/
  | complete (location : Location)
  /-- The parameters of a routine. -/
  | params (file : Path) (name : String)
  deriving DecidableEq, Repr

def Command.file : Command → Path
  | symbols file | params file _ => file
  | goto l _ _ | switch l | complete l => l.file

/-- A command with what goes for all of them: whether JSON is asked for, and the directory that is
searched for other files. -/
structure Invocation where
  json : Bool
  root : Path
  command : Command
  deriving DecidableEq, Repr

end PlsqlNav
