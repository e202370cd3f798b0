import PlsqlNav.Toml.Quoted
import PlsqlNav.Toml.Scalar

/-! Reading documents: keys and values, and headers of tables, one a line. -/
namespace PlsqlNav.Toml

/-- Reads items until there are no more. Every item has to take some of the text. -/
def many {α : Type} (item : List Char → Except Error (Option (α × List Char)))
    (text : List Char) : Except Error (List α × List Char) :=
  match item text with
  | .error e => .error e
  | .ok none => .ok ([], text)
  | .ok (some (a, rest)) =>
    if rest.length < text.length then (many item rest).map fun (as, rest) => (a :: as, rest)
    else .error (.expected "more text")
termination_by text.length

def skipSpace (cs : List Char) : List Char := cs.dropWhile Quoting.isSpace

def skipComment : List Char → List Char
  | '#' :: cs => cs.dropWhile Quoting.isPlain
  | cs => cs

/-- What follows a line of which nothing but space and a comment is left. -/
def lineEnd (cs : List Char) : Except Error (List Char) :=
  let rest := skipComment (skipSpace cs)
  match Quoting.afterNewline? rest with
  | some after => .ok after
  | none => if rest.isEmpty then .ok [] else .error (.expected "the end of the line")

def skipLines (cs : List Char) : Except Error (List Char) := do
  let (_, rest) ← many (fun cs =>
    let front := skipSpace cs
    match Quoting.afterNewline? (skipComment front) with
    | some after => .ok (some ((), after))
    | none =>
      if front.head? = some '#' then .error (.expected "the end of the line") else .ok none) cs
  return skipSpace rest

def isBare (c : Char) : Bool := c.isAlphanum || c == '-' || c == '_'

def keyPart (cs : List Char) : Except Error (String × List Char) :=
  if cs.head? = some '"' ∨ cs.head? = some '\'' then
    (lineString cs).map fun (text, rest) => (String.ofList text, rest)
  else if cs.head?.any isBare then .ok (String.ofList (cs.takeWhile isBare), cs.dropWhile isBare)
  else .error (.expected "a key")

/-- The parts of a key, which points separate, and the text after the key. -/
def key (cs : List Char) : Except Error (List String × List Char) := do
  let (first, rest) ← keyPart (skipSpace cs)
  let (more, rest) ← many (fun cs =>
    match skipSpace cs with
    | '.' :: cs => (keyPart (skipSpace cs)).map some
    | _ => .ok none) rest
  if more.length ≥ limit then throw .tooDeep
  return (first :: more, skipSpace rest)

/-- Whether a character stands after a value that is written as a word. -/
def endsWord (c : Char) : Bool := [' ', '\t', '\n', '\r', ',', ']', '\x7d', '#'].contains c

/-- A value that is written as a word. Between a date and a time of day may be a blank. -/
def word (cs : List Char) : Except Error (Value × List Char) :=
  let front := cs.takeWhile (!endsWord ·)
  let rest := cs.dropWhile (!endsWord ·)
  let clock := (rest.drop 1).takeWhile (!endsWord ·)
  if Scalar.isDate front ∧ rest.head? = some ' ' ∧ !clock.isEmpty then
    (scalar (front ++ ' ' :: clock)).map (·, (rest.drop 1).dropWhile (!endsWord ·))
  else (scalar front).map (·, rest)

/-- An assignment up to its value, and the text after it. -/
def assignment (value : List Char → Except Error (Value × List Char)) (cs : List Char) :
    Except Error ((List String × Value) × List Char) := do
  let (keys, rest) ← key cs
  match rest with
  | '=' :: rest =>
    let (v, rest) ← value (skipSpace rest)
    return ((keys, v), rest)
  | _ => throw (.expected "an equals sign")

/-- An array from after its bracket. Commas separate its items, and one may follow the last. -/
def array (value : List Char → Except Error (Value × List Char)) (cs : List Char) :
    Except Error (Value × List Char) := do
  let (items, rest) ← many (fun cs => do
    let cs ← skipLines cs
    if cs.head? = some ']' then return none
    let (v, rest) ← value cs
    match ← skipLines rest with
    | ',' :: rest => return some (v, rest)
    | ']' :: rest => return some (v, ']' :: rest)
    | _ => throw (.expected "a comma or the end of an array")) cs
  match ← skipLines rest with
  | ']' :: rest => return (.array items, rest)
  | _ => throw (.expected "the end of an array")

/-- A table in braces from after the first one. It stands on one line, and no comma follows its last
assignment. -/
def inlineTable (value : List Char → Except Error (Value × List Char)) (cs : List Char) :
    Except Error (Value × List Char) := do
  let (assignments, rest) ← many (fun cs => do
    if (skipSpace cs).head? = some '\x7d' then return none
    let (a, rest) ← assignment value cs
    match skipSpace rest with
    | ',' :: rest =>
      if (skipSpace rest).head? = some '\x7d' then throw (.expected "a key")
      return some (a, rest)
    | '\x7d' :: rest => return some (a, '\x7d' :: rest)
    | _ => throw (.expected "a comma or the end of a table")) cs
  match skipSpace rest with
  | '\x7d' :: rest => return (← Value.ofAssignments assignments, rest)
  | _ => throw (.expected "the end of a table")

/-- A value in which arrays and tables nest at most `depth` deep. -/
def value : (depth : Nat) → List Char → Except Error (Value × List Char)
  | 0, '[' :: _ => .error .tooDeep
  | 0, '\x7b' :: _ => .error .tooDeep
  | depth + 1, '[' :: cs => array (value depth) cs
  | depth + 1, '\x7b' :: cs => inlineTable (value depth) cs
  | _, cs =>
    if cs.head? = some '"' ∨ cs.head? = some '\'' then
      (string cs).map fun (text, rest) => (.string (String.ofList text), rest)
    else word cs

inductive Statement where
  | table (keys : List String)
  /-- A header in double brackets, which adds a table to those of the same name. -/
  | element (keys : List String)
  | assign (keys : List String) (v : Value)

/-- The header in front of a text, from after its brackets, of which there are `n`. -/
def header (n : Nat) (cs : List Char) : Except Error (List String × List Char) := do
  let (keys, rest) ← key cs
  if rest.take n = List.replicate n ']' then return (keys, ← lineEnd (rest.drop n))
  else throw (.expected "the end of a header")

/-- The next line, unless the text is at its end, and the statement that it holds, if any. -/
def line (cs : List Char) : Except Error (Option (Option Statement × List Char)) := do
  match skipSpace cs with
  | [] => return none
  | '[' :: '[' :: cs =>
    let (keys, rest) ← header 2 cs
    return some (some (.element keys), rest)
  | '[' :: cs =>
    let (keys, rest) ← header 1 cs
    return some (some (.table keys), rest)
  | c :: cs =>
    if c = '#' ∨ c = '\n' ∨ c = '\r' then return some (none, ← lineEnd (c :: cs))
    let ((keys, v), rest) ← assignment (value limit) (c :: cs)
    return some (some (.assign keys v), ← lineEnd rest)

/-- Adds a statement to a document. Assignments go to the table of the header before them. -/
def add : Value × List String → Statement → Except Error (Value × List String)
  | (t, _), .table keys => (Value.openTable keys t).map (·, keys)
  | (t, _), .element keys => (Value.addTable keys t).map (·, keys)
  | (t, current), .assign keys v =>
    (Value.changeAt .passed (Value.assign keys v) current t).map (·, current)

def ofText (text : String) : Except Error Value := do
  let cs := text.toList
  let (lines, _) ← many line (if cs.head? = some '\ufeff' then cs.drop 1 else cs)
  let (t, _) ← (lines.filterMap id).foldlM add (.table .header [], [])
  return t

end PlsqlNav.Toml
