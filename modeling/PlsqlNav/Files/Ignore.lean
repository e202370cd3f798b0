import PlsqlNav.Files.Rule
import PlsqlNav.Files.Tree

/-! Ignore files: `.ignore` anywhere, `.gitignore` and the exclusions of a repository inside one. The
files of inner directories come before those of outer ones. -/
namespace PlsqlNav

structure IgnoreLevel where
  /-- How many names lead to the directory. -/
  depth : Nat
  general : List Rule
  git : List Rule
  gitExclude : List Rule
  /-- Whether the directory is the root of a git repository. -/
  isRepository : Bool

namespace IgnoreLevel

def rulesOf (node : Option FileTree) : List Rule :=
  match node with
  | some (.file content) => Rule.ofFile content
  | _ => []

def nodeAt (disk : Disk) (path : Path) : Option FileTree :=
  (disk.find path).toOption.map fun place => place.here

def firstLine (content : ByteArray) : Option (List Char) :=
  match Rule.readableLines content with
  | [] => none
  | line :: _ => if line.isEmpty then none else some (Text.dropReturn line)

/-- The repository that a linked working tree names in its `.git` file. -/
def linkedRepository (disk : Disk) (content : ByteArray) : Option Path := do
  let line ← firstLine content
  let mark := "gitdir: ".toList
  guard (mark.isPrefixOf line)
  let directory : Path := ⟨String.ofList (line.drop mark.length)⟩
  match nodeAt disk (directory.join ⟨"commondir"⟩) with
  | some (.file content) =>
    let common ← firstLine content
    let path : Path := ⟨String.ofList common⟩
    some (if common.head? = some '.' then directory.join path else path)
  | _ => none

def ofDirectory (disk : Disk) (depth : Nat) (directory : FileTree) : IgnoreLevel where
  depth := depth
  general := rulesOf (directory.entries.lookup ".ignore")
  git := rulesOf (directory.entries.lookup ".gitignore")
  gitExclude :=
    match directory.entries.lookup ".git" with
    | none => []
    | some (.directory es) =>
      match es.lookup "info" with
      | some info => rulesOf (info.entries.lookup "exclude")
      | none => []
    | some (.file content) =>
      match linkedRepository disk content with
      | some repository => rulesOf (nodeAt disk (repository.join ⟨"info/exclude"⟩))
      | none => []
  isRepository := (directory.entries.lookup ".git").isSome

/-- The levels up to the innermost repository root; none outside a repository. -/
def insideRepository : List IgnoreLevel → List IgnoreLevel
  | [] => []
  | l :: ls =>
    if l.isRepository then [l]
    else
      match insideRepository ls with
      | [] => []
      | inner => l :: inner

/-- The rule that decides about what the names lead to: the one of the innermost level that has one
that applies. -/
def deciding? (rules : IgnoreLevel → List Rule) (levels : List IgnoreLevel) (names : List String)
    (isDirectory : Bool) : Option Rule :=
  levels.findSome? fun l =>
    Rule.last? (rules l) (String.intercalate "/" (names.drop l.depth)) isDirectory

/-- Whether the levels, innermost first, ignore what the names lead to. Their `.ignore` files come
before `.gitignore` files, and these before exclusions. -/
def ignores (levels : List IgnoreLevel) (names : List String) (isDirectory : Bool) : Bool :=
  let inside := insideRepository levels
  let rule :=
    deciding? general levels names isDirectory <|>
    deciding? git inside names isDirectory <|>
    deciding? gitExclude inside names isDirectory
  rule.any fun r => !r.negated

end IgnoreLevel

end PlsqlNav
