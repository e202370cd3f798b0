import PlsqlNav.Files.Walk
import PlsqlNav.Search.Cache
import PlsqlNav.Search.Source
import PlsqlNav.Settings

/-! Workspaces: directories whose files are candidates by their names. Their outlines are kept. -/
namespace PlsqlNav

structure Workspace where
  /-- The directories, in the order in which they are searched. -/
  roots : List Path
  extensions : List String
  exclusions : List String

namespace Workspace

def ofRoot (root : Path) : Workspace := ⟨[root], Settings.builtIn.extensions, []⟩

def ofSettings (root : Path) (s : Settings) : Workspace :=
  ⟨root :: s.roots, s.extensions, s.exclusions⟩

def hasMeaning (c : Char) : Bool := ['*', '?', '[', ']', '\x7b', '\x7d', '\\', '!'].contains c

/-- A pattern for the text itself. -/
def literally (text : String) : String :=
  String.ofList (text.toList.flatMap fun c => if hasMeaning c then ['\\', c] else [c])

/-- Patterns for the files whose names hold a hint before one of the extensions. Empty hints have
none. -/
def patterns (hints extensions : List String) : List String :=
  (hints.filter (· ≠ "")).flatMap fun hint =>
    extensions.map fun e => "*" ++ literally hint ++ "*." ++ Settings.dropPoints e

/-- The paths without repetitions; the first spelling of a path stays. -/
def distinct (paths : List Path) : List Path :=
  paths.foldl (fun ps p => if ps.any p.same then ps else ps ++ [p]) []

variable (w : Workspace) (disk : Disk)

/-- The candidates for some hints, in the order of the roots. Without a hint no root is looked at. -/
def candidates (hints : List String) : Except SearchError (List Path) :=
  let includes := patterns hints w.extensions
  if includes.isEmpty then .ok []
  else (w.roots.mapM fun root => Walk.files disk root includes w.exclusions).map fun found =>
    distinct found.flatten

def read (path : Path) : Except SearchError String :=
  match disk.read path with
  | .ok text => .ok text
  | .error e => .error (.read path e)

/-- Reads a file unless the cache has its outline already. -/
def load (path : Path) (cache : Cache) : Except SearchError Kept × Cache :=
  match read disk path with
  | .error e => (.error e, cache)
  | .ok text =>
    let (kept, cache) := cache.get path text
    (.ok kept, cache)

/-- The files as a source, with a cache as its state. -/
def source : CandidateSource Cache where
  candidates hints := ExceptT.mk (pure (w.candidates disk hints))
  load path := ExceptT.mk fun cache =>
    let (kept, cache) := load disk path cache
    (kept.map Kept.outline, cache)

end Workspace

end PlsqlNav
