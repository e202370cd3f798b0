import PlsqlNav.Failure
import PlsqlNav.Outline.Scan

/-! Where a search finds files. A source lists candidate files for some hints and loads them one at a
time; it may keep a state of its own. -/
namespace PlsqlNav

/-- A search that may fail. The state of the source outlives a failure. -/
abbrev Search (σ : Type) : Type → Type := ExceptT SearchError (StateM σ)

structure CandidateSource (σ : Type) where
  /-- Files whose names hold a hint, in the order in which they are to be tried. -/
  candidates : List String → Search σ (List Path)
  load : Path → Search σ Outline

namespace CandidateSource

inductive Event where
  | listed (hints : List String) (answer : Except SearchError (List Path))
  | loaded (path : Path) (answer : Except SearchError Outline)

/-- The same source, keeping a record of its uses, the latest last. -/
def recording {σ : Type} (source : CandidateSource σ) : CandidateSource (σ × List Event) where
  candidates hints := ExceptT.mk fun (s, events) =>
    let (answer, s) := (source.candidates hints).run.run s
    (answer, s, events ++ [.listed hints answer])
  load path := ExceptT.mk fun (s, events) =>
    let (answer, s) := (source.load path).run.run s
    (answer, s, events ++ [.loaded path answer])

end CandidateSource

end PlsqlNav
