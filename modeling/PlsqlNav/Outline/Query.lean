import PlsqlNav.Outline.Traversal

/-! Questions about an outline. Names compare without letter case, and the first symbol in preorder
answers unless a question says otherwise. -/
namespace PlsqlNav.Outline

variable (o : Outline)

def plainDeclarations : List o.Id :=
  o.everySymbol.filter fun i => !(o.get i).kind.isPackage && !(o.get i).kind.isRoutine

/-- A symbol called `name` that starts at or after `offset`. -/
def namedFrom? (scope : List o.Id) (deep : Bool) (name : String) (offset : Nat) : Option o.Id :=
  (o.walk scope deep).find? fun i => (o.get i).isNamed name && offset ≤ (o.get i).start

def namedOf? (scope : List o.Id) (deep : Bool) (name : String) (kinds : List Symbol.Kind) :
    Option o.Id :=
  (o.walk scope deep).find? fun i => (o.get i).isNamed name && kinds.contains (o.get i).kind

/-- The last symbol in preorder that starts before `offset`. -/
def lastBefore? (scope : List o.Id) (deep : Bool) (offset : Nat) : Option o.Id :=
  ((o.walk scope deep).filter fun i => (o.get i).start < offset).getLast?

/-- The specification of a package body, or the body of a specification, where the file has it
among its top-level symbols; otherwise, and for other kinds, the symbol itself. -/
def packageCounterpart (i : o.Id) : o.Id :=
  let s := o.get i
  if s.kind.isPackage then (o.namedOf? o.topLevel false s.name [s.kind.counterpart]).getD i
  else i

/-- A symbol and all around it, from the inside out. -/
def ancestors (i : o.Id) : List o.Id :=
  match h : o.parent? i with
  | some p =>
    have : p.val < i.val := parent?_lt h
    i :: ancestors p
  | none => [i]
termination_by i.val

/-- The top-level symbol around `i`, or `i` itself. -/
def outermost (i : o.Id) : o.Id := (o.ancestors i).getLastD i

/-- The innermost package or routine whose scope is open at `offset`: among the nearest symbol
before and all around it, the first block that has not closed. -/
def enclosing? (offset : Nat) : Option o.Id := do
  let near ← o.lastBefore? o.topLevel true offset
  (o.ancestors near).find? fun i =>
    (o.get i).kind.isBlock && (o.get i).stop.all (offset < ·)

/-- The later of two starts wins, and of equal ones the later symbol. -/
def latest (found : Option o.Id) (i : o.Id) : Option o.Id :=
  match found with
  | some j => if (o.get i).start < (o.get j).start then some j else some i
  | none => some i

/-- The package or routine called `name` that starts closest before or at `offset`. -/
def declarationAt? (name : String) (offset : Nat) : Option o.Id :=
  let declared := o.everySymbol.filter fun i =>
    ((o.get i).kind.isRoutine || (o.get i).kind.isPackage) && (o.get i).isNamed name &&
      (o.get i).start ≤ offset
  declared.foldl o.latest none

end PlsqlNav.Outline
