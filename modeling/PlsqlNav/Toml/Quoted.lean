import PlsqlNav.Toml

/-! Strings of TOML documents: with or without escapes, on one line or on several. -/
namespace PlsqlNav.Toml

structure Quoting where
  mark : Char
  escapes : Bool
  multiline : Bool

namespace Quoting

/-- Characters that stand for themselves. -/
def isPlain (c : Char) : Bool := c == '\t' || (32 ≤ c.toNat && c != '\x7f')

def isSpace (c : Char) : Bool := c == ' ' || c == '\t'

/-- The text after a line break, with or without a carriage return. -/
def afterNewline? : List Char → Option (List Char)
  | '\n' :: cs => some cs
  | '\r' :: '\n' :: cs => some cs
  | _ => none

/-- Whether nothing but space comes before the next line break. -/
def endsLine (cs : List Char) : Bool := (afterNewline? (cs.dropWhile isSpace)).isSome

def hexValue? (c : Char) : Option Nat :=
  if '0' ≤ c ∧ c ≤ '9' then some (c.toNat - 48)
  else if 'a' ≤ c ∧ c ≤ 'f' then some (c.toNat - 87)
  else if 'A' ≤ c ∧ c ≤ 'F' then some (c.toNat - 55)
  else none

/-- The character whose number is written with `n` hexadecimal digits, and the text after it. -/
def numbered (n : Nat) (cs : List Char) : Except Error (Char × List Char) :=
  match (cs.take n).mapM hexValue? with
  | none => .error .badEscape
  | some digits =>
    let number := digits.foldl (fun m d => 16 * m + d) 0
    if digits.length = n ∧ number.isValidChar then .ok (Char.ofNat number, cs.drop n)
    else .error .badEscape

def escaped : List Char → Except Error (Char × List Char)
  | [] => .error .badEscape
  | c :: cs =>
    match c with
    | 'b' => .ok ('\x08', cs)
    | 'f' => .ok ('\x0c', cs)
    | 'n' => .ok ('\n', cs)
    | 'r' => .ok ('\r', cs)
    | 't' => .ok ('\t', cs)
    | '"' => .ok ('"', cs)
    | '\\' => .ok ('\\', cs)
    | 'u' => numbered 4 cs
    | 'U' => numbered 8 cs
    | _ => .error .badEscape

theorem numbered_length {n : Nat} {cs rest : List Char} {c : Char}
    (h : numbered n cs = .ok (c, rest)) : rest.length ≤ cs.length := by
  unfold numbered at h
  grind

theorem escaped_length {cs rest : List Char} {c : Char} (h : escaped cs = .ok (c, rest)) :
    rest.length < cs.length := by
  have := @numbered_length
  unfold escaped at h
  grind

/-- Three marks close a string on several lines, of which the first one is read already; up to two
more before them belong to the string. -/
def closing? (mark : Char) (cs : List Char) : Option (List Char × List Char) :=
  let marks := (cs.takeWhile (· == mark)).take 4
  if marks.length < 2 then none else some (marks.drop 2, cs.drop marks.length)

def push (c : Char) (found : Except Error (List Char × List Char)) :
    Except Error (List Char × List Char) :=
  found.map fun (text, rest) => (c :: text, rest)

/-- A string from after its opening mark, and the text after it. A backslash before a line break
drops what is blank from there on: while `blank` is set. -/
def read (q : Quoting) (blank : Bool) : List Char → Except Error (List Char × List Char)
  | [] => .error .unclosedString
  | c :: cs =>
    let breaks := c == '\n' || (c == '\r' && cs.head? == some '\n')
    if blank && (isSpace c || breaks) then q.read true cs
    else if c = q.mark then
      if q.multiline then
        match closing? q.mark cs with
        | some (text, rest) => .ok (text, rest)
        | none => push c (q.read false cs)
      else .ok ([], cs)
    else if q.escapes && c == '\\' then
      if q.multiline && endsLine cs then q.read true cs
      else
        match h : escaped cs with
        | .ok (e, rest) =>
          have := escaped_length h
          push e (q.read false rest)
        | .error e => .error e
    else if isPlain c then push c (q.read false cs)
    else if q.multiline && breaks then
      if c = '\n' then push c (q.read false cs) else q.read false cs
    else .error .unclosedString
termination_by cs => cs.length

end Quoting

/-- The string at the front of a text. A line break right after three marks is no part of it. -/
def string : List Char → Except Error (List Char × List Char)
  | '"' :: '"' :: '"' :: cs =>
    Quoting.read ⟨'"', true, true⟩ false ((Quoting.afterNewline? cs).getD cs)
  | '"' :: cs => Quoting.read ⟨'"', true, false⟩ false cs
  | '\'' :: '\'' :: '\'' :: cs =>
    Quoting.read ⟨'\'', false, true⟩ false ((Quoting.afterNewline? cs).getD cs)
  | '\'' :: cs => Quoting.read ⟨'\'', false, false⟩ false cs
  | _ => .error (.expected "a string")

/-- The string at the front of a text, where it has to stand on one line. -/
def lineString : List Char → Except Error (List Char × List Char)
  | '"' :: cs => Quoting.read ⟨'"', true, false⟩ false cs
  | '\'' :: cs => Quoting.read ⟨'\'', false, false⟩ false cs
  | _ => .error (.expected "a string")

end PlsqlNav.Toml
