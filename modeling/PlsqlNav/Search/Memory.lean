import PlsqlNav.Search.Source

/-! Files held in memory, listed in the order in which they were given. -/
namespace PlsqlNav

structure MemoryFiles where
  files : List (Path × String)

namespace MemoryFiles

def occurs (part : List Char) : List Char → Bool
  | [] => part.isEmpty
  | c :: cs => part.isPrefixOf (c :: cs) || occurs part cs

/-- Whether the file name of a path holds a hint, in any letter case. Empty hints hold nothing. -/
def matchesHint (hints : List String) (path : Path) : Bool :=
  let name := (Text.lower (path.fileName?.getD "")).toList
  hints.any fun h => h ≠ "" && occurs (Text.lower h).toList name

def candidates (m : MemoryFiles) (hints : List String) : List Path :=
  (m.files.map (·.1)).filter (matchesHint hints)

def read (m : MemoryFiles) (path : Path) : Except SearchError String :=
  match m.files.find? fun f => f.1.same path with
  | some (_, text) => .ok text
  | none => .error (.read path ⟨.missing, "no such file"⟩)

def load (m : MemoryFiles) (path : Path) : Except SearchError Outline :=
  (m.read path).map (Outline.ofText path.text)

def source (m : MemoryFiles) : CandidateSource Unit where
  candidates hints := pure (m.candidates hints)
  load path := ExceptT.mk (pure (m.load path))

end MemoryFiles

end PlsqlNav
