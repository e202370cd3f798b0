import PlsqlNav.Text.Case

/-! Declared symbols and their kinds. -/
namespace PlsqlNav

/-- Packages and routines are declared by a specification and implemented by a body. -/
inductive Flavour where
  | spec
  | body
  deriving DecidableEq, Repr

def Flavour.other : Flavour → Flavour
  | spec => body
  | body => spec

@[simp] theorem Flavour.other_other (f : Flavour) : f.other.other = f := by cases f <;> rfl

namespace Symbol

inductive Kind where
  | package (flavour : Flavour)
  | function (flavour : Flavour)
  | procedure (flavour : Flavour)
  | var
  | constant
  | type
  | subtype
  | cursor
  | exception
  deriving DecidableEq, Repr

namespace Kind

def flavour? : Kind → Option Flavour
  | package f | function f | procedure f => some f
  | _ => none

/-- The same kind in the other flavour; a kind without flavours is its own counterpart. -/
def counterpart : Kind → Kind
  | package f => package f.other
  | function f => function f.other
  | procedure f => procedure f.other
  | k => k

def hasCounterpart (k : Kind) : Bool := k.flavour?.isSome

def isSpec (k : Kind) : Bool := k.flavour? == some .spec

def isPackage : Kind → Bool
  | package _ => true
  | _ => false

def isRoutine : Kind → Bool
  | function _ | procedure _ => true
  | _ => false

/-- The kinds whose declarations are scopes closed by `end`. -/
def isBlock : Kind → Bool
  | package _ | function .body | procedure .body => true
  | _ => false

/-- A kind that has flavours, but not the wanted one. -/
def mismatches (k : Kind) (wanted : Flavour) : Bool := k.flavour?.any (· ≠ wanted)

def label : Kind → String
  | package .spec => "packageSpec"
  | package .body => "packageBody"
  | function .body => "function"
  | function .spec => "functionSpec"
  | procedure .body => "procedure"
  | procedure .spec => "procedureSpec"
  | var => "variable"
  | constant => "constant"
  | type => "type"
  | subtype => "subtype"
  | cursor => "cursor"
  | exception => "exception"

@[simp] theorem counterpart_counterpart (k : Kind) : k.counterpart.counterpart = k := by
  cases k <;> simp [counterpart]

theorem counterpart_ne_iff (k : Kind) : k.counterpart ≠ k ↔ k.hasCounterpart := by
  cases k with
  | package f | function f | procedure f => cases f <;> decide
  | var | constant | type | subtype | cursor | exception => decide

end Kind

end Symbol

structure Symbol where
  /-- The identifier, its letter case kept, without quotes. -/
  name : String
  kind : Symbol.Kind
  /-- How many declarations enclose this one. -/
  level : Nat
  /-- The first byte of the declaration, an introducing `create` included. -/
  start : Nat
  /-- The position just past the scope, where there is one. -/
  stop : Option Nat
  /-- The declaration up to its `is`, `as` or semicolon. -/
  definition : String
  /-- The documentation comment right before the declaration, delimiters included. -/
  doc : Option String
  deriving DecidableEq, Repr

def Symbol.isNamed (s : Symbol) (name : String) : Bool := Text.sameName s.name name

end PlsqlNav
