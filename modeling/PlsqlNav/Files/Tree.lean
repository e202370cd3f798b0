import PlsqlNav.Failure

/-! Files and directories as a value, and what paths lead to in it. Entries that cannot be read are not
represented: there are no permissions and no links, every directory can be listed and every file opened.
What fails here fails over a path or over a content that is no text, and never with the cause `denied`. -/
namespace PlsqlNav

inductive FileTree where
  | file (content : ByteArray)
  | directory (entries : List (String × FileTree))

namespace FileTree

def empty : FileTree := directory []

def isDirectory : FileTree → Bool
  | directory _ => true
  | file _ => false

def entries : FileTree → List (String × FileTree)
  | directory es => es
  | file _ => []

def setEntry (name : String) (node : FileTree) :
    List (String × FileTree) → List (String × FileTree)
  | [] => [(name, node)]
  | (n, t) :: rest => if n = name then (n, node) :: rest else (n, t) :: setEntry name node rest

/-- Puts `node` where the names lead, making directories on the way. -/
def put : FileTree → List String → FileTree → FileTree
  | _, [], node => node
  | here, name :: rest, node =>
    let next := (here.entries.lookup name).getD empty
    directory (setEntry name (next.put rest node) here.entries)

/-- Takes away what the names lead to, if anything is there. -/
def remove : FileTree → List String → FileTree
  | here, [] => here
  | here, [name] =>
    if here.isDirectory then directory (here.entries.filter fun e => e.1 ≠ name) else here
  | here, name :: rest =>
    match here.entries.lookup name with
    | none => here
    | some next => directory (setEntry name (next.remove rest) here.entries)

/-- A file or directory and the way to it: the directories above, innermost first, each with the name
taken there. -/
structure Place where
  above : List (FileTree × String)
  here : FileTree

/-- The names on the way to a place. -/
def Place.names (p : Place) : List String := p.above.reverse.map (·.2)

/-- The place that the segments of a path lead to. An empty segment or `.` stays, but only in a
directory, and nothing is above the root. -/
def Place.follow (p : Place) : List String → Except IoError Place
  | [] => .ok p
  | segment :: rest =>
    match p.here with
    | file _ => .error .notDirectory
    | directory es =>
      if segment = "" ∨ segment = "." then p.follow rest
      else if segment = ".." then
        match p.above with
        | [] => p.follow rest
        | (outer, _) :: above => follow ⟨above, outer⟩ rest
      else if segment.utf8ByteSize > 255 then .error .nameTooLong
      else
        match es.lookup segment with
        | none => .error .noEntry
        | some next => follow ⟨(p.here, segment) :: p.above, next⟩ rest

end FileTree

/-- All files, and the names that lead to the directory from which relative paths start. -/
structure Disk where
  tree : FileTree
  workingDirectory : List String

namespace Disk

open FileTree (Place)

def find (d : Disk) (path : Path) : Except IoError Place :=
  let root : Place := ⟨[], d.tree⟩
  if path.text.toList.contains '\x00' then .error .nulInName
  else if path.text = "" then .error .noEntry
  else if path.text.utf8ByteSize ≥ 4096 then .error .nameTooLong
  else if path.isAbsolute then root.follow path.segments
  else
    match root.follow d.workingDirectory with
    | .error e => .error e
    | .ok start => start.follow path.segments

def has (d : Disk) (path : Path) : Bool := (d.find path).toOption.isSome

/-- The content of a file as text. -/
def read (d : Disk) (path : Path) : Except IoError String :=
  match d.find path with
  | .error e => .error e
  | .ok ⟨_, .directory _⟩ => .error .isDirectory
  | .ok ⟨_, .file content⟩ =>
    match String.fromUTF8? content with
    | some text => .ok text
    | none => .error .notText

/-- The names that lead to a path from the root, each `..` taking one back. -/
def names (d : Disk) (path : Path) : List String :=
  path.components.foldl (fun ns c =>
    match c with
    | .root => []
    | .current => ns
    | .parent => ns.dropLast
    | .name n => ns ++ [n]) d.workingDirectory

def put (d : Disk) (path : Path) (node : FileTree) : Disk :=
  { d with tree := d.tree.put (d.names path) node }

def remove (d : Disk) (path : Path) : Disk := { d with tree := d.tree.remove (d.names path) }

end Disk

end PlsqlNav
