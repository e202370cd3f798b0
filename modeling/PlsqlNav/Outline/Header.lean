import PlsqlNav.Symbol
import PlsqlNav.Token

/-! Headers of packages and routines, and where a header ends. -/
namespace PlsqlNav

/-- The start of a declaration up to its name. -/
structure Header where
  /-- The first token of the declaration. -/
  first : Token
  kind : Symbol.Kind
  name : String
  /-- The tokens after the name. -/
  rest : List Token

namespace Header

/-- A name, perhaps after a schema and a point, and the tokens after it. -/
def qualifiedName : List Token → Option (String × List Token)
  | [] => none
  | t :: rest =>
    if t.isName then
      match rest with
      | dot :: u :: after =>
        if dot.isPunct '.' && u.isName then some (u.name, after) else some (t.name, rest)
      | _ => some (t.name, rest)
    else none

/-- The tokens without a leading one of the given words. -/
def skipWord (keywords : List String) : List Token → List Token
  | [] => []
  | t :: rest => if t.isOneOf keywords then rest else t :: rest

def skipReplace : List Token → List Token
  | t :: u :: rest => if t.isWord "or" && u.isWord "replace" then rest else t :: u :: rest
  | ts => ts

/-- The tokens without a leading `create`, `or replace` and edition. -/
def skipCreate : List Token → List Token
  | [] => []
  | t :: rest =>
    if t.isWord "create" then skipWord ["editionable", "noneditionable"] (skipReplace rest)
    else t :: rest

/-- The kind that the keywords of a unit announce, and the tokens after them. -/
def unitKind : List Token → Option (Symbol.Kind × List Token)
  | [] => none
  | t :: rest =>
    if t.isWord "function" then some (.function .body, rest)
    else if t.isWord "procedure" then some (.procedure .body, rest)
    else if t.isWord "package" then
      match rest with
      | u :: after => if u.isWord "body" then some (.package .body, after) else some (.package .spec, rest)
      | [] => some (.package .spec, [])
    else none

def ofUnit? (ts : List Token) : Option Header := do
  let first ← ts.head?
  let (kind, named) ← unitKind (skipCreate ts)
  let (name, rest) ← qualifiedName named
  some ⟨first, kind, name, rest⟩

/-- How a header ends. Each end starts with the token that shows it. -/
inductive End where
  /-- An `is` or `as`, which opens the body. -/
  | body (ts : List Token)
  /-- A semicolon. -/
  | semicolon (ts : List Token)
  /-- A word that cannot stand in a header, or the end of the text; and whether a dollar sign comes
  right before it. -/
  | cut (ts : List Token) (afterDollar : Bool)
  deriving DecidableEq, Repr

def End.tokens : End → List Token
  | body ts | semicolon ts | cut ts _ => ts

def stopWords : List String := ["create", "begin", "end", "function", "procedure", "package"]

/-- The first end of a header outside parentheses, of which `depth` are open. -/
def findEnd (depth : Nat) (afterDollar : Bool) : List Token → End
  | [] => .cut [] afterDollar
  | t :: rest =>
    if t.isPunct '(' then findEnd (depth + 1) false rest
    else if t.isPunct ')' then findEnd (depth - 1) false rest
    else if depth > 0 then findEnd depth (t.isPunct '$') rest
    else if t.isPunct ';' then .semicolon (t :: rest)
    else if t.isOneOf ["is", "as"] then .body (t :: rest)
    else if t.isOneOf stopWords then .cut (t :: rest) afterDollar
    else findEnd depth (t.isPunct '$') rest

theorem qualifiedName_length {ts rest : List Token} {name : String}
    (h : qualifiedName ts = some (name, rest)) : rest.length < ts.length := by
  unfold qualifiedName at h
  grind

theorem skipWord_length (keywords : List String) (ts : List Token) :
    (skipWord keywords ts).length ≤ ts.length := by
  unfold skipWord
  grind

theorem skipReplace_length (ts : List Token) : (skipReplace ts).length ≤ ts.length := by
  unfold skipReplace
  grind

theorem skipCreate_length (ts : List Token) : (skipCreate ts).length ≤ ts.length := by
  have := skipWord_length
  have := skipReplace_length
  unfold skipCreate
  grind

theorem unitKind_length {ts rest : List Token} {kind : Symbol.Kind}
    (h : unitKind ts = some (kind, rest)) : rest.length < ts.length := by
  unfold unitKind at h
  grind

theorem ofUnit?_length {ts : List Token} {h : Header} (hh : ofUnit? ts = some h) :
    h.rest.length + 2 ≤ ts.length := by
  simp only [ofUnit?, Option.bind_eq_bind, Option.bind_eq_some_iff] at hh
  obtain ⟨first, _, ⟨kind, named⟩, hk, ⟨name, rest⟩, hn, he⟩ := hh
  cases he
  have := skipCreate_length ts
  have := unitKind_length hk
  have := qualifiedName_length hn
  simp only at *
  omega

theorem findEnd_length (depth : Nat) (afterDollar : Bool) (ts : List Token) :
    (findEnd depth afterDollar ts).tokens.length ≤ ts.length := by
  induction ts generalizing depth afterDollar with
  | nil => simp [findEnd, End.tokens]
  | cons t rest ih =>
    unfold findEnd
    grind [End.tokens]

end Header

end PlsqlNav
