import PlsqlNav.Text.Case

/-! Synonyms of package names. -/
namespace PlsqlNav

/-- Aliases and the package names they stand for. -/
abbrev Synonyms : Type := List (String × String)

namespace Synonyms

/-- The name that `name` stands for. Aliases match in any letter case, and of several the last one
counts. -/
def translate (table : Synonyms) (name : String) : String :=
  match table.reverse.find? fun entry => Text.sameName entry.1 name with
  | some (_, target) => target
  | none => name

/-- Sets the target of an alias, in the byte order of aliases. -/
def insert (table : Synonyms) (name target : String) : Synonyms :=
  match table with
  | [] => [(name, target)]
  | (n, t) :: rest =>
    if name < n then (name, target) :: (n, t) :: rest
    else if name = n then (name, target) :: rest
    else (n, t) :: insert rest name target

/-- A table with the aliases of `newer` set after those of `table`. -/
def merge (table newer : Synonyms) : Synonyms :=
  newer.foldl (fun t entry => t.insert entry.1 entry.2) table

end Synonyms

end PlsqlNav
