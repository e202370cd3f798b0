import PlsqlNav.Glob.Parser
import PlsqlNav.Text.Blank
import PlsqlNav.Text.Position

/-! Rules about paths, one a line, as ignore files hold them. A rule matches paths below the directory
it is for, and of several rules that match the last one decides. -/
namespace PlsqlNav

structure Rule where
  glob : Glob
  /-- Written with an exclamation mark. -/
  negated : Bool
  directoriesOnly : Bool

namespace Rule

/-- A line without the blanks at its end, unless the last is escaped. -/
def dropBlanks (line : List Char) : List Char :=
  if ['\\', ' '].isSuffixOf line then line else Text.trimEnd line

/-- A line without a slash at its end, and whether there was one. A backslash before that slash goes
with it. -/
def dropSlash (line : List Char) : List Char × Bool :=
  match line.reverse with
  | '/' :: '\\' :: rest => (rest.reverse, true)
  | '/' :: rest => (rest.reverse, true)
  | _ => (line, false)

/-- A pattern that is to match in any directory, unless a slash ties it to one. -/
def anchor (tied : Bool) (pattern : List Char) : List Char :=
  if tied ∨ '/' ∈ pattern ∨ pattern = ['*', '*'] then pattern else '*' :: '*' :: '/' :: pattern

/-- A pattern that ends in two stars matches what is inside a directory and not the directory. -/
def insideOnly (pattern : List Char) : List Char :=
  if ['/', '*', '*'].isSuffixOf pattern then pattern ++ ['/', '*'] else pattern

/-- The marks in front of a pattern, taken off: whether it is negated, whether a slash ties it to its
directory, and the rest. -/
def marks (line : List Char) : Bool × Bool × List Char :=
  match line with
  | '\\' :: '!' :: rest => (false, false, '!' :: rest)
  | '\\' :: '#' :: rest => (false, false, '#' :: rest)
  | '!' :: '/' :: rest => (true, true, rest)
  | '!' :: rest => (true, false, rest)
  | '/' :: rest => (false, true, rest)
  | rest => (false, false, rest)

/-- The rule on a line; comments and empty lines hold none. -/
def ofLine (lenient anyCase : Bool) (line : List Char) : Except Glob.Error (Option Rule) :=
  let line := if line.head? = some '#' then [] else dropBlanks line
  if line.isEmpty then .ok none
  else
    let (negated, tied, pattern) := marks line
    let (pattern, directoriesOnly) := dropSlash pattern
    match Glob.ofText lenient anyCase (insideOnly (anchor tied pattern)) with
    | .error e => .error e
    | .ok glob => .ok (some { glob, negated, directoriesOnly })

def applies (r : Rule) (path : String) (isDirectory : Bool) : Bool :=
  (!r.directoriesOnly || isDirectory) && r.glob.accepts path

def last? (rules : List Rule) (path : String) (isDirectory : Bool) : Option Rule :=
  rules.reverse.find? fun r => r.applies path isDirectory

/-- The lines of a file up to the first one that is no text. -/
def readableLines (content : ByteArray) : List (List Char) :=
  let lines := content.toList.splitOn 10
  (lines.map fun l => String.fromUTF8? ⟨l.toArray⟩).takeWhile Option.isSome
    |>.map fun l => (l.getD "").toList

/-- The rules of an ignore file. A line that writes no pattern is passed over, and a byte order mark
in front of the first one is dropped. -/
def ofFile (content : ByteArray) : List Rule :=
  let lines := match readableLines content with
    | [] => []
    | first :: rest => first.dropWhile (· = '\ufeff') :: rest
  lines.filterMap fun line => (ofLine true false line).toOption.join

end Rule

end PlsqlNav
