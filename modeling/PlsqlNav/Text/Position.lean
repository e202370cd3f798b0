import PlsqlNav.Text.Bytes

/-! Lines and columns. Lines end at newlines, both count from one, and a column counts bytes. -/
namespace PlsqlNav.Text

/-- The lines of a text without their newlines; there is one more than there are newlines. -/
def splitLines : List Char → List (List Char)
  | [] => [[]]
  | c :: cs =>
    if c = '\n' then [] :: splitLines cs
    else match splitLines cs with
      | [] => [[c]]
      | line :: lines => (c :: line) :: lines

/-- A line without the carriage return that may end it. -/
def dropReturn (line : List Char) : List Char :=
  if line.getLast? = some '\r' then line.dropLast else line

/-- The positions after the newlines of a text whose first byte is `pos`. -/
def newlineStops (pos : Nat) : List Char → List Nat
  | [] => []
  | c :: cs =>
    let next := pos + c.utf8Size
    if c = '\n' then next :: newlineStops next cs else newlineStops next cs

def lineStarts (text : List Char) : List Nat := 0 :: newlineStops 0 text

/-- Line and column of a position: the line is the last one that starts at or before it. -/
def lineCol (starts : List Nat) (offset : Nat) : Nat × Nat :=
  let before := starts.takeWhile (· ≤ offset)
  (max before.length 1, offset - before.getLastD 0 + 1)

def lineAt (text : String) (line : Nat) : Option String :=
  if line = 0 then none
  else (splitLines text.toList)[line - 1]?.map fun l => String.ofList (dropReturn l)

/-- The position of a column on the line `line` lines below a text that starts at `pos`. -/
def offsetIn (pos : Nat) (column : Nat) : Nat → List (List Char) → Option Nat
  | _, [] => none
  | 0, l :: _ => some (pos + min (column - 1) (byteLength (dropReturn l)))
  | n + 1, l :: ls => offsetIn (pos + byteLength l + 1) column n ls

/-- The position of a line and column; a column past the line's content stands for its end. -/
def offsetOf (text : String) (line column : Nat) : Option Nat :=
  if line = 0 then none else offsetIn 0 column (line - 1) (splitLines text.toList)

end PlsqlNav.Text
