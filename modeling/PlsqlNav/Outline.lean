import PlsqlNav.Symbol
import PlsqlNav.Text.Position

/-! Outlines: the declarations of one file in text order, each with its nesting level. Which
declaration contains which follows from the levels alone. -/
namespace PlsqlNav

namespace Issue

inductive Kind where
  /-- A unit whose header is followed by the next unit. -/
  | missingBody
  /-- A scope that the next unit or the end of the text leaves open. -/
  | unclosedBlock
  /-- A token that starts no declaration where one is due. -/
  | unexpectedToken
  deriving DecidableEq, Repr

def Kind.message : Kind → String
  | missingBody => "declaration has no is/as body"
  | unclosedBlock => "block is never closed"
  | unexpectedToken => "unexpected token in declaration section"

end Issue

/-- A place where a text departs from what the outline expects. -/
structure Issue where
  offset : Nat
  kind : Issue.Kind
  deriving DecidableEq, Repr

structure Outline where
  file : String
  symbols : Array Symbol
  issues : List Issue
  lineStarts : List Nat
  deriving DecidableEq, Repr

namespace Outline

/-- A symbol of an outline, by its place in text order. -/
abbrev Id (o : Outline) : Type := Fin o.symbols.size

def get (o : Outline) (i : o.Id) : Symbol := o.symbols[i]

def ids (o : Outline) : List o.Id := List.finRange o.symbols.size

def topLevel (o : Outline) : List o.Id := o.ids.filter fun i => (o.get i).level = 0

/-- The last symbol of level `level` among the first `n`. -/
def lastAt (o : Outline) (level : Nat) : (n : Nat) → n ≤ o.symbols.size → Option o.Id
  | 0, _ => none
  | n + 1, h =>
    if (o.get ⟨n, h⟩).level = level then some ⟨n, h⟩
    else o.lastAt level n (Nat.le_of_succ_le h)

/-- The symbol right around `i`: the nearest earlier one that is one level up. -/
def parent? (o : Outline) (i : o.Id) : Option o.Id :=
  match (o.get i).level with
  | 0 => none
  | level + 1 => o.lastAt level i (Nat.le_of_lt i.isLt)

/-- The symbols inside `i` at any depth: those that follow it on deeper levels. -/
def inside (o : Outline) (i : o.Id) : List o.Id :=
  (o.ids.drop (i + 1)).takeWhile fun j => (o.get i).level < (o.get j).level

def children (o : Outline) (i : o.Id) : List o.Id :=
  (o.inside i).filter fun j => (o.get j).level = (o.get i).level + 1

theorem lastAt_lt {o : Outline} {level n : Nat} {h : n ≤ o.symbols.size} {p : o.Id}
    (hp : o.lastAt level n h = some p) : p.val < n := by
  induction n with
  | zero => simp [lastAt] at hp
  | succ n ih =>
    rw [lastAt] at hp
    split at hp
    · cases hp; simp
    · exact Nat.lt_succ_of_lt (ih hp)

theorem parent?_lt {o : Outline} {i p : o.Id} (hp : o.parent? i = some p) : p < i := by
  rw [parent?] at hp
  split at hp
  · contradiction
  · exact lastAt_lt hp

theorem lt_of_mem_inside {o : Outline} {i j : o.Id} (hj : j ∈ o.inside i) : i < j := by
  have hd : j ∈ o.ids.drop (i + 1) := (List.takeWhile_sublist _).subset hj
  obtain ⟨n, hn, rfl⟩ := List.mem_iff_getElem.mp hd
  simp only [ids, List.getElem_drop, List.getElem_finRange, Fin.lt_def, Fin.val_cast]
  omega

theorem lt_of_mem_children {o : Outline} {i j : o.Id} (hj : j ∈ o.children i) : i < j :=
  lt_of_mem_inside (List.mem_filter.mp hj).1

def position (o : Outline) (offset : Nat) : Nat × Nat := Text.lineCol o.lineStarts offset

end Outline

end PlsqlNav
