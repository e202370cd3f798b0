import PlsqlNav.Files.Ignore

/-! Listing the files below a directory. What is listed is chosen by the patterns of a selection, then
by ignore files; hidden files and directories are left out. Entries that cannot be read are not
represented on a disk, so a walk fails over its root or its patterns and never halfway. -/
namespace PlsqlNav

/-- Patterns that choose files, taken below the directory that is searched. They compare without
letter case and come before all ignore files. -/
structure Selection where
  rules : List Rule

namespace Selection

def excludedDirectories : List String :=
  ["node_modules", "vendor", "target", "build", "dist", "__pycache__", ".venv"]

/-- What a selection says: to list, to leave out, or nothing. -/
inductive Choice where
  | list
  | leaveOut
  | undecided
  deriving DecidableEq, Repr

def readRules : List String → Except Glob.Error (List Rule)
  | [] => .ok []
  | line :: lines =>
    match Rule.ofLine false true line.toList with
    | .error e => .error e
    | .ok rule =>
      match readRules lines with
      | .error e => .error e
      | .ok rules => .ok (rule.toList ++ rules)

/-- Chooses what matches `includes`, where there are any, and leaves out what matches `excludes`. -/
def ofPatterns (includes excludes : List String) : Except Glob.Error Selection :=
  let negate (pattern : String) : String := "!" ++ pattern
  let directories := excludedDirectories.map fun d => negate (d ++ "/")
  (readRules (includes ++ directories ++ excludes.map negate)).map Selection.mk

/-- The last rule that applies decides. A file that none applies to is left out when the selection
includes anything. -/
def choose (s : Selection) (path : String) (isDirectory : Bool) : Choice :=
  match Rule.last? s.rules path isDirectory with
  | some r => if r.negated then .leaveOut else .list
  | none => if !isDirectory && s.rules.any (!·.negated) then .leaveOut else .undecided

end Selection

namespace Walk

/-- Names that start with a point are hidden, except `.github`. -/
def isHidden (name : String) : Bool := name.toList.head? == some '.' && name != ".github"

/-- What a walk works with: all files, the selection, and how many names lead to where the walk
began. -/
structure Context where
  disk : Disk
  selection : Selection
  rootDepth : Nat

/-- Whether the walk leaves out what the names lead to. -/
def skips (c : Context) (levels : List IgnoreLevel) (names : List String) (name : String)
    (isDirectory : Bool) : Bool :=
  let ignored :=
    match c.selection.choose (String.intercalate "/" (names.drop c.rootDepth)) isDirectory with
    | .list => false
    | .leaveOut => true
    | .undecided => IgnoreLevel.ignores levels names isDirectory
  ignored || isHidden name

mutual

/-- The files below a directory, spelled from `path`; `levels` are those above it. -/
def below (c : Context) (levels : List IgnoreLevel) (path : Path) (names : List String) :
    FileTree → List Path
  | .file _ => []
  | .directory es =>
    let level := IgnoreLevel.ofDirectory c.disk names.length (.directory es)
    among c (level :: levels) path names es

def among (c : Context) (levels : List IgnoreLevel) (path : Path) (names : List String) :
    List (String × FileTree) → List Path
  | [] => []
  | (name, node) :: rest =>
    let names' := names ++ [name]
    let here :=
      if skips c levels names' name node.isDirectory then []
      else if node.isDirectory then below c levels (path.join ⟨name⟩) names' node
      else [path.join ⟨name⟩]
    here ++ among c levels path names rest

end

/-- The levels of directories, innermost first, each taken by the way through it. -/
def levelsAbove (disk : Disk) : List (FileTree × String) → List IgnoreLevel
  | [] => []
  | (directory, _) :: outer =>
    IgnoreLevel.ofDirectory disk outer.length directory :: levelsAbove disk outer

/-- The files below `root` that the patterns choose, in the order of paths. A root that is a file is
listed as it is. The name `-` stands for standard input, which holds no files. -/
def files (disk : Disk) (root : Path) (includes excludes : List String) :
    Except SearchError (List Path) :=
  match disk.find root with
  | .error _ => .error (.walk (root.text ++ " does not exist"))
  | .ok place =>
    match Selection.ofPatterns includes excludes with
    | .error e => .error (.pattern e.message)
    | .ok selection =>
      if root.components = [.name "-"] then .ok []
      else if !place.here.isDirectory then .ok [root]
      else
        let context : Context := ⟨disk, selection, place.above.length⟩
        let found := below context (levelsAbove disk place.above) root place.names place.here
        .ok (found.mergeSort Path.ordered)

end Walk

end PlsqlNav
