import PlsqlNav.Token

/-! The lexical grammar. A recogniser is given a character and the text after it, and counts the
characters of that text which complete a lexeme. Where several recognisers accept, the first in the
order of `read` decides. -/
namespace PlsqlNav.Lexeme

inductive Class where
  | documentation
  | comment
  | token (kind : Token.Kind)
  deriving DecidableEq, Repr

/-- The characters up to the first place where `b` follows `a`, both included. -/
def through (a b : Char) : List Char → Option Nat
  | [] => none
  | c :: cs => if c = a ∧ cs.head? = some b then some 2 else (through a b cs).map (· + 1)

/-- A comment that opens with two asterisks and closes after them. -/
def documentation (c : Char) (cs : List Char) : Option Nat :=
  match c, cs with
  | '/', '*' :: '*' :: body => (through '*' '/' body).map (· + 2)
  | _, _ => none

def blockComment (c : Char) (cs : List Char) : Option Nat :=
  match c, cs with
  | '/', '*' :: body => (through '*' '/' body).map (· + 1)
  | _, _ => none

/-- Two hyphens open a comment that ends before the next newline. -/
def lineComment (c : Char) (cs : List Char) : Option Nat :=
  match c, cs with
  | '-', '-' :: body => some ((body.takeWhile (· ≠ '\n')).length + 1)
  | _, _ => none

/-- The bracket that closes an alternative quotation. -/
def closer : Char → Option Char
  | '[' => some ']'
  | '\x7b' => some '\x7d'
  | '(' => some ')'
  | '<' => some '>'
  | _ => none

/-- The text after the apostrophe of an alternative quotation, through its last apostrophe. -/
def bracketed : List Char → Option Nat
  | [] => none
  | c :: cs => (closer c).bind fun b => (through b '\'' cs).map (· + 1)

/-- A string such as `q'[it's]'`, perhaps marked as national by a letter `n`. -/
def bracketedString (c : Char) (cs : List Char) : Option Nat :=
  if c = 'q' ∨ c = 'Q' then
    match cs with
    | '\'' :: body => (bracketed body).map (· + 1)
    | _ => none
  else if c = 'n' ∨ c = 'N' then
    match cs with
    | q :: '\'' :: body => if q = 'q' ∨ q = 'Q' then (bracketed body).map (· + 2) else none
    | _ => none
  else none

/-- The text after an apostrophe, through the one that closes it. Two apostrophes stand for one and
go on; in a text that never closes, the last such pair is read as a close and an opening. -/
def closing : List Char → Option Nat
  | [] => none
  | '\'' :: '\'' :: cs =>
    match closing cs with
    | some n => some (n + 2)
    | none => some 1
  | '\'' :: _ => some 1
  | _ :: cs => (closing cs).map (· + 1)

def plainString (c : Char) (cs : List Char) : Option Nat :=
  if c = '\'' then closing cs
  else if c = 'n' ∨ c = 'N' then
    match cs with
    | '\'' :: body => (closing body).map (· + 1)
    | _ => none
  else none

/-- A quoted identifier stays on one line. -/
def quotedName (c : Char) (cs : List Char) : Option Nat :=
  if c = '"' then
    let inner := cs.takeWhile fun d => d ≠ '"' ∧ d ≠ '\n'
    if cs[inner.length]? = some '"' then some (inner.length + 1) else none
  else none

def startsWord (c : Char) : Bool := c.isAlpha || c == '_'

def continuesWord (c : Char) : Bool := c.isAlphanum || c == '_' || c == '$' || c == '#'

def word (c : Char) (cs : List Char) : Option Nat :=
  if startsWord c then some (cs.takeWhile continuesWord).length else none

/-- Digits, and a fraction where a digit follows the point. -/
def number (c : Char) (cs : List Char) : Option Nat :=
  if c.isDigit then
    let whole := (cs.takeWhile Char.isDigit).length
    match cs.drop whole with
    | '.' :: rest =>
      let fraction := (rest.takeWhile Char.isDigit).length
      some (if fraction = 0 then whole else whole + 1 + fraction)
    | _ => some whole
  else none

/-- The lexeme that starts at `c`, a character that is no white space. -/
def read (c : Char) (cs : List Char) : Class × Nat :=
  let found :=
    (documentation c cs).map (Class.documentation, ·) <|>
    (blockComment c cs).map (Class.comment, ·) <|>
    (lineComment c cs).map (Class.comment, ·) <|>
    (bracketedString c cs).map (Class.token .string, ·) <|>
    (plainString c cs).map (Class.token .string, ·) <|>
    (quotedName c cs).map (Class.token .quoted, ·) <|>
    (word c cs).map (Class.token .word, ·) <|>
    (number c cs).map (Class.token .number, ·)
  found.getD (.token (.punct c), 0)

end PlsqlNav.Lexeme
