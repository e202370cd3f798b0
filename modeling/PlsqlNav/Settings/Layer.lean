import PlsqlNav.Format
import PlsqlNav.Toml.Document

/-! What one configuration file sets. Unknown keys are passed over. -/
namespace PlsqlNav

/-- Settings as a file has them; what it does not mention is `none`. -/
structure Layer where
  extensions : Option (List String)
  roots : Option (List String)
  synonyms : List (String × String)
  format : Option Format
  exclusions : Option (List String)
  deriving DecidableEq, Repr

namespace Layer

open Toml (Value)

/-- The value of a key in a section; by its place where the section is written as an array. -/
def setting? (group : Value) (name : String) (place : Nat) : Option (Option Value) :=
  match group.entries?, group.items? with
  | some entries, _ => some (entries.lookup name)
  | none, some items => some items[place]?
  | none, none => none

/-- Reads a setting of a section, where there are both. -/
def readSetting {α : Type} (group : Option Value) (name : String) (place : Nat)
    (read : Value → Option α) : Option (Option α) :=
  match group with
  | none => some none
  | some v =>
    match setting? v name place with
    | none => none
    | some none => some none
    | some (some w) => (read w).map some

def texts? (v : Value) : Option (List String) := do (← v.items?).mapM Value.text?

def aliases? (v : Value) : Option (List (String × String)) := do
  (← v.entries?).mapM fun entry => entry.2.text?.map (entry.1, ·)

def isEmpty (v : Value) : Bool :=
  match v with
  | .table _ entries => entries.isEmpty
  | .array items => items.isEmpty
  | _ => false

/-- A format by its name, or by a table with that name as its only key and nothing under it. -/
def format? : Value → Option Format
  | .string name => Format.named? name
  | .table _ [(name, v)] => if isEmpty v then Format.named? name else none
  | _ => none

def ofTable? (t : Value) : Option Layer := do
  let search ← setting? t "search" 0
  let output ← setting? t "output" 2
  let ignore ← setting? t "ignore" 3
  return {
    extensions := ← readSetting search "extensions" 0 texts?
    roots := ← readSetting search "roots" 1 texts?
    synonyms := (← readSetting (some t) "synonyms" 1 aliases?).getD []
    format := ← readSetting output "default_format" 0 format?
    exclusions := ← readSetting ignore "patterns" 0 texts? }

def ofText (text : String) : Except Toml.Error Layer := do
  match ofTable? (← Toml.ofText text) with
  | some layer => return layer
  | none => throw .wrongKind

end Layer

end PlsqlNav
