import PlsqlNav.Outline.Header
import PlsqlNav.Token.Lexer

/-! Parameters of routines, read from the definition of a routine. -/
namespace PlsqlNav

namespace Parameter

inductive Mode where
  | input
  | output
  | both
  /-- What a function returns. -/
  | result
  /-- A parameter without a type. -/
  | untyped
  deriving DecidableEq, Repr

def Mode.label : Mode → String
  | input => "in"
  | output => "out"
  | both => "inout"
  | result => "return"
  | untyped => "none"

end Parameter

structure Parameter where
  /-- The parameter as written, from its first to its last token. -/
  text : String
  /-- The identifier; empty for what a function returns. -/
  name : String
  typeText : String
  mode : Parameter.Mode
  deriving DecidableEq, Repr

namespace Parameter

/-- Words that may follow a return type and are no part of it. -/
def modifiers : List String :=
  ["pipelined", "deterministic", "parallel_enable", "result_cache", "authid", "aggregate",
    "accessible"]

/-- The text from the first token to the last; empty without tokens. -/
def textOf (definition : List Char) (ts : List Token) : String :=
  match ts, ts.getLast? with
  | first :: _, some last => String.ofList (Text.slice first.start last.stop definition)
  | _, _ => ""

/-- Splits what follows an opening parenthesis at the commas outside inner ones, of which
`depth` are open, up to the parenthesis that closes it; and the tokens after that. Where none closes
it, the last part is dropped. `part` holds the tokens of the current part, last first. -/
def splitParts (depth : Nat) (part : List Token) : List Token → List (List Token) × List Token
  | [] => ([], [])
  | t :: rest =>
    if t.isPunct '(' then splitParts (depth + 1) (t :: part) rest
    else if t.isPunct ')' then
      match depth with
      | 0 => ([part.reverse], rest)
      | n + 1 => splitParts n (t :: part) rest
    else if t.isPunct ',' && depth == 0 then
      let (parts, after) := splitParts 0 [] rest
      (part.reverse :: parts, after)
    else splitParts depth (t :: part) rest

/-- The tokens of a type: those before a default. -/
def typeTokens : List Token → List Token
  | [] => []
  | t :: rest =>
    if t.isWord "default" || (t.isPunct ':' && rest.head?.any (·.isPunct '=')) then []
    else t :: typeTokens rest

/-- The mode at the front of the tokens after a name, and the tokens after it. -/
def readMode : List Token → Mode × List Token
  | [] => (.input, [])
  | t :: rest =>
    if t.isWord "in" then
      match rest with
      | u :: after => if u.isWord "out" then (.both, after) else (.input, rest)
      | [] => (.input, [])
    else if t.isWord "out" then (.output, rest)
    else (.input, t :: rest)

/-- One parameter: a name, a mode, `nocopy`, a type and a default, of which only the name must be
there. -/
def ofTokens? (definition : List Char) (ts : List Token) : Option Parameter :=
  match ts with
  | [] => none
  | first :: rest =>
    let (mode, afterMode) := readMode rest
    let type := typeTokens (Header.skipWord ["nocopy"] afterMode)
    some
      { text := textOf definition ts
        name := first.name
        typeText := textOf definition type
        mode := if type.isEmpty then .untyped else mode }

/-- The return clause at the front of the tokens. -/
def ofReturn? (definition : List Char) (ts : List Token) : Option Parameter :=
  match ts with
  | [] => none
  | keyword :: rest =>
    let type := rest.takeWhile fun t => !t.isOneOf modifiers
    if keyword.isWord "return" && !type.isEmpty then
      some
        { text := textOf definition (keyword :: type)
          name := ""
          typeText := textOf definition type
          mode := .result }
    else none

/-- The parameters that a definition `function|procedure name (...) return ...` declares, then
what it returns. -/
def ofDefinition (definition : String) : List Parameter :=
  let chars := definition.toList
  let routine := (Token.ofText definition).dropWhile fun t => !t.isOneOf ["function", "procedure"]
  let afterName := match Header.qualifiedName routine.tail with
    | some (_, rest) => rest
    | none => routine.tail
  let (parts, rest) := match afterName with
    | t :: rest => if t.isPunct '(' then splitParts 0 [] rest else ([], afterName)
    | [] => ([], [])
  parts.filterMap (ofTokens? chars) ++ (ofReturn? chars rest).toList

end Parameter

/-- Only routines have parameters. -/
def Symbol.parameters (s : Symbol) : List Parameter :=
  if s.kind.isRoutine then Parameter.ofDefinition s.definition else []

end PlsqlNav
