import PlsqlNav.Text.Blank
import PlsqlNav.Text.Bytes
import PlsqlNav.Text.Case
import PlsqlNav.Text.WordChar
import PlsqlNav.Token.Lexeme

/-! The word under a cursor and what stands before it on its line. -/
namespace PlsqlNav

structure Cursor where
  /-- The word before the current one: a qualifier or a keyword. -/
  previousWord : Option String
  /-- The word under the cursor; empty between words. -/
  currentWord : String
  /-- Whether a point joins the two words. -/
  previousDot : Bool
  deriving DecidableEq, Repr

namespace Cursor

open Text

/-- Characters of a word under a cursor. -/
def isIdentifier (c : Char) : Bool := Lexeme.continuesWord c

/-- Characters that go on a declared name or a qualifier. -/
def goesOn (c : Char) : Bool := isWordChar c || c == '$' || c == '#'

def isRoutineKeyword (word : String) : Bool :=
  sameName word "function" || sameName word "procedure"

def skipQuote : List Char → List Char
  | '"' :: cs => cs
  | cs => cs

/-- A name at the front of the text, with or without quotes, and the text after it. -/
def nameAt (cs : List Char) : Option (List Char × List Char) :=
  match skipQuote cs with
  | [] => none
  | c :: rest =>
    if Lexeme.startsWord c then
      some (c :: rest.takeWhile goesOn, skipQuote (rest.dropWhile goesOn))
    else none

/-- The name that the text after a routine keyword declares, without its schema. -/
def declaredName (cs : List Char) : Option (List Char) := do
  guard (cs.head?.any isBlank)
  let (first, rest) ← nameAt (trimStart cs)
  match trimStart rest with
  | '.' :: qualified =>
    match nameAt (trimStart qualified) with
    | some (second, _) => some second
    | none => some first
  | _ => some first

/-- The name right before the end of a text: its last characters from the first one on that can
start a name. -/
def lastName (cs : List Char) : Option (List Char) :=
  let back := skipQuote cs.reverse
  match (back.takeWhile goesOn).reverse.dropWhile (!Lexeme.startsWord ·) with
  | [] => none
  | name => some name

/-- The name before a point or white space at the end of the text, and whether it is a point. -/
def qualifierOf (cs : List Char) : Option (List Char × Bool) :=
  match cs.getLast? with
  | some '.' => (lastName cs.dropLast).map (·, true)
  | some c => if isBlank c then (lastName (trimEnd cs)).map (·, false) else none
  | none => none

/-- The cursor on a line at a column that counts bytes from zero. A column past the line stands for
its end, one inside a character for the start of that character, and one right after a word is on
it. On a routine keyword the word is the name that it declares. -/
def ofLine (line : String) (column : Nat) : Cursor :=
  let chars := line.toList
  let before := takeBytes column chars
  let after := chars.drop before.length
  let left := (before.reverse.takeWhile isIdentifier).reverse
  let word := String.ofList (left ++ after.takeWhile isIdentifier)
  let declared := if isRoutineKeyword word then declaredName (after.dropWhile isIdentifier) else none
  match declared with
  | some name =>
    { previousWord := some (lower word), currentWord := String.ofList name, previousDot := false }
  | none =>
    match qualifierOf (before.take (before.length - left.length)) with
    | some (name, dot) =>
      { previousWord := some (String.ofList name), currentWord := word, previousDot := dot }
    | none => { previousWord := none, currentWord := word, previousDot := false }

/-- On the header of a routine. -/
def isDeclaration (c : Cursor) : Bool := c.previousWord.any isRoutineKeyword

/-- The word before the point; empty where there is none. -/
def qualifier (c : Cursor) : String := if c.previousDot then c.previousWord.getD "" else ""

end Cursor

end PlsqlNav
