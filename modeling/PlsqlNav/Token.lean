import PlsqlNav.Text.Bytes
import PlsqlNav.Text.Case

/-! Tokens: what a source text says besides its white space and comments. -/
namespace PlsqlNav

/-- A documentation comment, delimiters included, and the position of its first byte. -/
structure Comment where
  start : Nat
  text : String
  deriving DecidableEq, Repr

def Comment.stop (c : Comment) : Nat := c.start + Text.byteLength c.text.toList

inductive Token.Kind where
  | word
  | quoted
  | string
  | number
  | punct (c : Char)
  deriving DecidableEq, Repr

/-- A token and its first byte. `doc` is the documentation comment that ends right before it, with
only white space between. -/
structure Token where
  kind : Token.Kind
  start : Nat
  text : String
  doc : Option Comment
  deriving DecidableEq, Repr

namespace Token

def stop (t : Token) : Nat := t.start + Text.byteLength t.text.toList

/-- Keywords are words in any letter case; a quoted identifier is never one. -/
def isWord (t : Token) (keyword : String) : Bool :=
  t.kind == .word && Text.sameName t.text keyword

def isOneOf (t : Token) (keywords : List String) : Bool := keywords.any t.isWord

def isPunct (t : Token) (c : Char) : Bool := t.kind == .punct c

def isName (t : Token) : Bool := t.kind == .word || t.kind == .quoted

/-- The identifier itself: a quoted one loses its double quotes. -/
def name (t : Token) : String :=
  if t.kind = .quoted then String.ofList (t.text.toList.filter (· ≠ '"')) else t.text

end Token

end PlsqlNav
