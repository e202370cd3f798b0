import PlsqlNav.Text.Blank
import PlsqlNav.Text.Position

/-! Documentation comments rendered as markdown. -/
namespace PlsqlNav.Documentation

open Text

/-- The text after `front`, where it starts with that. -/
def after? (front : List Char) (cs : List Char) : Option (List Char) :=
  if front.isPrefixOf cs then some (cs.drop front.length) else none

/-- The text before `back`, where it ends with that. -/
def before? (back : List Char) (cs : List Char) : Option (List Char) :=
  if back.isSuffixOf cs then some (cs.take (cs.length - back.length)) else none

/-- The text between the delimiters, either of which may be missing. -/
def inner (raw : List Char) : List Char :=
  let opened := trim raw
  let body := (after? "/**".toList opened).getD opened
  (before? "*/".toList body).getD body

/-- A line without indentation and without the asterisk that may stand before it. -/
def content (line : List Char) : List Char :=
  match trim line with
  | '*' :: rest => trimStart rest
  | cs => cs

/-- A parameter tag becomes a list item with its name set as code, a return tag an emphasised word;
any other line stays. -/
def renderLine (line : List Char) : List Char :=
  match after? "@param".toList line with
  | some rest =>
    let rest := trim rest
    let name := rest.takeWhile fun c => !isBlank c
    trimEnd ("- `".toList ++ name ++ "` ".toList ++ trim (rest.drop name.length))
  | none =>
    match after? "@returns".toList line <|> after? "@return".toList line with
    | some rest => trimEnd ("*Returns* ".toList ++ trim rest)
    | none => line

def dropEmptyEnds (lines : List (List Char)) : List (List Char) :=
  ((lines.dropWhile List.isEmpty).reverse.dropWhile List.isEmpty).reverse

def render (raw : String) : String :=
  let lines := (splitLines (inner raw.toList)).map fun line => renderLine (content line)
  String.ofList (List.intercalate ['\n'] (dropEmptyEnds lines))

end PlsqlNav.Documentation
