import PlsqlNav.Command.Arguments
import PlsqlNav.Command.Run

/-! The program: it reads the files that a command may look at, runs the command on them, and prints
the answer. -/
namespace PlsqlNav.Main

def readFile? (path : String) : IO (Option FileTree) := do
  try return some (.file (← IO.FS.readBinFile path)) catch _ => return none

def namesIn? (path : String) : IO (Option (List String)) := do
  try return some ((← (← IO.FS.realPath path).readDir).toList.map fun entry => entry.fileName)
  catch _ => return none

/-- Whether a path leads where it says, and not through a link. -/
def isDirect (path : String) : IO Bool := do
  try return (← IO.FS.realPath path).toString == path catch _ => return false

/-- What matters of a repository: that it is one, and its exclusions. -/
def repositoryAt? (path : String) : IO (Option FileTree) := do
  match ← namesIn? path with
  | none => readFile? path
  | some _ =>
    match ← readFile? (path ++ "/info/exclude") with
    | none => return some .empty
    | some exclude => return some (FileTree.empty.put ["info", "exclude"] exclude)

def isClosed (name : String) : Bool :=
  Walk.isHidden name || Selection.excludedDirectories.contains name

/-- The files at a path that leads through no link. -/
partial def treeAt? (path : String) : IO (Option FileTree) := do
  if !(← isDirect path) then return none
  match ← namesIn? path with
  | none => readFile? path
  | some names =>
    let entries ← names.filterMapM fun name => do
      let inner := path ++ "/" ++ name
      let node ←
        if name == ".git" then repositoryAt? inner
        else if isClosed name then readFile? inner
        else treeAt? inner
      return node.map (name, ·)
    return some (.directory entries)

/-- The files of a directory that may itself be reached through a link. -/
def rootAt? (path : String) : IO (Option FileTree) := do
  try treeAt? (← IO.FS.realPath path).toString catch _ => return none

/-- Adds what is found under the names, unless that is nothing. -/
def add (disk : Disk) (names : List String) (node? : String → IO (Option FileTree)) : IO Disk := do
  match ← node? ("/" ++ String.intercalate "/" names) with
  | none => return disk
  | some node => return { disk with tree := disk.tree.put names node }

/-- Adds a directory that is searched, with the ignore files of the directories around it. -/
def addRoot (disk : Disk) (root : Path) : IO Disk := do
  let names := disk.names root
  let disk ← add disk names rootAt?
  (List.range names.length).foldlM (fun disk depth => do
    let around := names.take depth
    let disk ← add disk (around ++ [".ignore"]) readFile?
    let disk ← add disk (around ++ [".gitignore"]) readFile?
    add disk (around ++ [".git"]) repositoryAt?) disk

def addFile (disk : Disk) (file : Path) : IO Disk := add disk (disk.names file) readFile?

def diskFor (i : Invocation) (home : Option Path) : IO Disk := do
  let start : Disk := ⟨.empty, []⟩
  let start := { start with workingDirectory := start.names ⟨(← IO.currentDir).toString⟩ }
  let start := { start with tree := start.tree.put start.workingDirectory .empty }
  let configuration := (i.root :: home.toList).map Settings.fileOf
  let extra := match Settings.load (← configuration.foldlM addFile start) home (some i.root) with
    | .ok s => s.roots
    | .error _ => []
  let disk ← (i.root :: extra).foldlM addRoot start
  (i.command.file :: configuration).foldlM addFile disk

def run (args : List String) : IO UInt32 := do
  match Arguments.read args with
  | .error r =>
    if r.exitCode = 0 then IO.println r.message else IO.eprintln ("error: " ++ r.message)
    return r.exitCode.toUInt32
  | .ok i =>
    let home : Option Path := (← IO.getEnv "HOME").map fun text => ⟨text⟩
    let output := i.answer (← diskFor i home) home
    IO.print output.out
    IO.eprint output.err
    return output.code.toUInt32

end PlsqlNav.Main

def main (args : List String) : IO UInt32 := PlsqlNav.Main.run args
