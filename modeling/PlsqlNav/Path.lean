/-! File paths. A path is kept as it was written; what it means is its components, in which repeated
separators and inner `.` do not show. -/
namespace PlsqlNav

structure Path where
  text : String
  deriving DecidableEq, Repr

namespace Path

inductive Component where
  | root
  | current
  | parent
  | name (text : String)
  deriving DecidableEq, Repr

/-- The texts between the separators of a path, empty ones included. -/
def segmentsOf : List Char → List (List Char)
  | [] => [[]]
  | c :: cs =>
    if c = '/' then [] :: segmentsOf cs
    else match segmentsOf cs with
      | [] => [[c]]
      | s :: ss => (c :: s) :: ss

def segments (p : Path) : List String := (segmentsOf p.text.toList).map String.ofList

def isAbsolute (p : Path) : Bool := p.text.toList.head? == some '/'

def componentOf (segment : String) : Option Component :=
  if segment = "" ∨ segment = "." then none
  else if segment = ".." then some .parent
  else some (.name segment)

/-- A `.` counts only at the front. -/
def components (p : Path) : List Component :=
  let front : List Component :=
    if p.isAbsolute then [.root] else if p.segments.head? = some "." then [.current] else []
  front ++ p.segments.filterMap componentOf

/-- Paths are the same when their components are. -/
def same (p q : Path) : Bool := p.components == q.components

/-- The last component, where it is a name. -/
def fileName? (p : Path) : Option String :=
  match p.components.getLast? with
  | some (.name n) => some n
  | _ => none

/-- `q` as seen from the directory `p`. -/
def join (p q : Path) : Path :=
  if q.isAbsolute then q
  else if p.text = "" ∨ p.text.toList.getLast? = some '/' then ⟨p.text ++ q.text⟩
  else ⟨p.text ++ "/" ++ q.text⟩

def Component.rank : Component → Nat
  | root => 0
  | current => 1
  | parent => 2
  | name _ => 3

/-- Whether a component comes before another: by rank, and names by their characters. -/
def Component.before : Component → Component → Bool
  | name a, name b => a < b
  | a, b => a.rank < b.rank

def orderedComponents : List Component → List Component → Bool
  | [], _ => true
  | _ :: _, [] => false
  | a :: as, b :: bs => a.before b || (a == b && orderedComponents as bs)

/-- Paths are listed by their components, so that a directory comes before what it holds. -/
def ordered (p q : Path) : Bool := orderedComponents p.components q.components

end Path

end PlsqlNav
