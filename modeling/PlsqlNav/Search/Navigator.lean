import PlsqlNav.Cursor
import PlsqlNav.Outline.Query
import PlsqlNav.Search.Source

/-! Going to definitions, switching between specification and body, and completing members. Each
query is answered from the outline of the edited file where it can be, and else by trying candidate
files one after another until one is accepted. -/
namespace PlsqlNav

structure Hit where
  outline : Outline
  id : outline.Id

def Hit.symbol (h : Hit) : Symbol := h.outline.get h.id

/-- A symbol in the edited file or in another one. -/
inductive Found (edited : Outline) where
  | here (id : edited.Id)
  | elsewhere (hit : Hit)

def Found.hit {edited : Outline} : Found edited → Hit
  | here id => ⟨edited, id⟩
  | elsewhere hit => hit

/-- What one candidate file says. -/
inductive Verdict (α : Type) where
  | accept (a : α)
  /-- Of the wrong flavour: good enough if nothing better follows. -/
  | tentative (a : α)
  | reject

structure Navigator (σ : Type) where
  source : CandidateSource σ
  /-- The package name that a qualifier stands for. -/
  translate : String → String

/-- Where the cursor is: in which outline, at which offset, on which words. -/
structure Spot where
  outline : Outline
  offset : Nat
  cursor : Cursor

namespace Outline

/-- The symbol called `name` in the subtree of `scope`. One of the wrong flavour gives way to its
counterpart in the same subtree. -/
def resolveIn (o : Outline) (scope : o.Id) (name : String) (wanted : Flavour) : Option o.Id := do
  let found ← o.namedFrom? [scope] true name 0
  let kind := (o.get found).kind
  if kind.mismatches wanted then
    return (o.namedOf? [scope] true name [kind.counterpart]).getD found
  else return found

/-- Looks for the definition of `word` in the packages called `qualifier`, or without a qualifier in
all units of a file. -/
def judge (qualifier word : String) (wanted : Flavour) (o : Outline) : Verdict Hit :=
  let units := o.topLevel.filter fun i =>
    qualifier == "" || ((o.get i).kind.isPackage && (o.get i).isNamed qualifier)
  let found := units.filterMap fun i => o.resolveIn i word wanted
  match found.find? fun i => !(o.get i).kind.mismatches wanted with
  | some i => .accept ⟨o, i⟩
  | none =>
    match found with
    | i :: _ => .tentative ⟨o, i⟩
    | [] => .reject

end Outline

namespace Navigator

variable {σ : Type} (n : Navigator σ)

/-- Loads candidates in order up to the first accepted one. Without one, the first tentative verdict
stands. -/
def tryEach {α : Type} (judge : Outline → Verdict α) (fallback : Option α) :
    List Path → Search σ (Option α)
  | [] => return fallback
  | path :: rest => do
    match judge (← n.source.load path) with
    | .accept a => return some a
    | .tentative a => tryEach judge (fallback <|> some a) rest
    | .reject => tryEach judge fallback rest

def scan {α : Type} (hints : List String) (judge : Outline → Verdict α) : Search σ (Option α) := do
  n.tryEach judge none (← n.source.candidates hints)

/-- Searches for the definition of `word` in packages called `qualifier`. Where nothing matches, the
qualifier may have been a schema, and one more search goes without it. -/
def searchDefinition (qualifier word : String) (wanted : Flavour) : Search σ (Option Hit) := do
  let found ← n.scan [qualifier, word] (Outline.judge qualifier word wanted)
  if found.isSome || qualifier == "" then return found
  else n.scan [word] (Outline.judge "" word wanted)

def searchElsewhere (edited : Outline) (qualifier word : String) (wanted : Flavour) :
    Search σ (Option (Found edited)) := do
  return (← n.searchDefinition qualifier word wanted).map .elsewhere

/-- The counterpart of a routine of a package: beside it as a forward declaration or its body, in
the other part of the package, or in another file. Other routines have none. -/
def counterpartOf (o : Outline) (i : o.Id) (wanted : Flavour) : Search σ (Option (Found o)) :=
  let s := o.get i
  let kind := s.kind.counterpart
  match o.parent? i with
  | none => return none
  | some parent =>
    if wanted = .spec ∧ s.kind.isSpec then return none
    else
      let beside :=
        if (o.get parent).kind = .package .spec then none
        else (o.children parent).find? fun c =>
          c ≠ i && (o.get c).kind == kind && (o.get c).isNamed s.name
      match beside with
      | some c => return some (.here c)
      | none =>
        let other := o.packageCounterpart parent
        if other ≠ parent then
          return (o.namedOf? (o.children other) false s.name [kind]).map .here
        else if (o.parent? parent).isSome then return none
        else
          n.searchElsewhere o (o.get parent).name s.name (if kind.isSpec then .spec else .body)

/-- A definition of `word` in the edited file: in a scope around `e`, from the inside out, or in the
other part of the package. The wrong flavour stands only where the other part has nothing. -/
def resolveHere (o : Outline) (e : o.Id) (qualifier word : String) (wanted : Flavour) :
    Option o.Id :=
  let top := o.outermost e
  let other := o.packageCounterpart top
  let qualifies (i : o.Id) : Bool := qualifier == "" || (o.get i).isNamed qualifier
  let around := ((o.ancestors e).filter qualifies).findSome? fun i => o.resolveIn i word wanted
  let across := if other ≠ top ∧ qualifies other then o.resolveIn other word wanted else none
  match around with
  | some i => if (o.get i).kind.mismatches wanted then across <|> some i else some i
  | none => across

/-- The definition of a word that is used at a spot. Inside a package specification nothing is
looked up. In a package body whose specification is not in the same file, what is not found here is
looked for in the package first. -/
def gotoCall (spot : Spot) (wanted : Flavour) : Search σ (Option (Found spot.outline)) :=
  let o := spot.outline
  let word := spot.cursor.currentWord
  let qualifier :=
    if spot.cursor.previousDot then (spot.cursor.previousWord.map n.translate).getD "" else ""
  match o.enclosing? spot.offset with
  | none => n.searchElsewhere o qualifier word wanted
  | some e =>
    if (o.get e).kind = .package .spec then return none
    else
      match resolveHere o e qualifier word wanted with
      | some i => return some (.here i)
      | none =>
        let top := o.outermost e
        let alone := (o.get top).kind = .package .body ∧ o.packageCounterpart top = top
        let qualifier := if qualifier = "" ∧ alone then (o.get top).name else qualifier
        n.searchElsewhere o qualifier word wanted

/-- The definition of the word under the cursor, in the wanted flavour where there are two. On the
header of a routine, that is its counterpart. -/
def goto (spot : Spot) (wanted : Flavour) : Search σ (Option (Found spot.outline)) :=
  if spot.cursor.currentWord = "" then return none
  else if spot.cursor.isDeclaration then
    match spot.outline.declarationAt? spot.cursor.currentWord spot.offset with
    | none => return none
    | some i => n.counterpartOf spot.outline i wanted
  else n.gotoCall spot wanted

def switch (spot : Spot) : Search σ (Option (Found spot.outline)) :=
  let o := spot.outline
  let target :=
    if spot.cursor.isDeclaration then o.declarationAt? spot.cursor.currentWord spot.offset
    else o.enclosing? spot.offset
  match target with
  | none => return none
  | some i =>
    let s := o.get i
    if !s.kind.isPackage then n.counterpartOf o i (if s.kind.isSpec then .body else .spec)
    else
      let other := o.packageCounterpart i
      if other ≠ i then return some (.here other)
      else do
        let hit ← n.scan [s.name] fun c =>
          match c.namedOf? c.topLevel false s.name [s.kind.counterpart] with
          | some found => .accept (Hit.mk c found)
          | none => .reject
        return hit.map .elsewhere

/-- The members of the package named by the word before the cursor, from the first specification of
that name. None without a previous word or without such a package. -/
def complete (cursor : Cursor) : Search σ (Option (List Hit)) :=
  match cursor.previousWord with
  | none => return none
  | some previous =>
    let qualifier := n.translate previous
    n.scan [qualifier, cursor.currentWord] fun c =>
      let spec := c.topLevel.find? fun i =>
        (c.get i).kind == .package .spec && (c.get i).isNamed qualifier
      match spec with
      | some i => .accept ((c.children i).map (Hit.mk c))
      | none => .reject

end Navigator

end PlsqlNav
