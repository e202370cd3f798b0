/-! How results are written. -/
namespace PlsqlNav

inductive Format where
  /-- Lines for people and text tools. -/
  | grep
  /-- One JSON record a line. -/
  | json
  deriving DecidableEq, Repr

def Format.named? (name : String) : Option Format :=
  if name = "grep" then some .grep else if name = "json" then some .json else none

end PlsqlNav
