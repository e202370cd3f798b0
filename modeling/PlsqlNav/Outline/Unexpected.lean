import PlsqlNav.Token

/-! Stepping over a token that starts no declaration. -/
namespace PlsqlNav.Unexpected

/-- The tokens after the next directive `$keyword`. -/
def afterDirective (keyword : String) : List Token → List Token
  | [] => []
  | t :: rest =>
    if t.isPunct '$' && rest.head?.any (·.isWord keyword) then rest.tail
    else afterDirective keyword rest

/-- The tokens from the end of a statement: after its semicolon, or at a word that ends the
declarations. Such a word is a directive when a dollar sign comes right before it. -/
def afterStatement (afterDollar : Bool) : List Token → List Token
  | [] => []
  | t :: rest =>
    if t.isPunct ';' then rest
    else if !afterDollar && t.isOneOf ["begin", "end", "create"] then t :: rest
    else afterStatement (t.isPunct '$') rest

/-- The tokens after the unexpected token `t`. A directive of conditional compilation is stepped over
with its condition, so that the declarations it guards are seen; all else with its statement. -/
def skip (t : Token) (rest : List Token) : List Token :=
  match rest with
  | [] => []
  | w :: after =>
    if t.isPunct '$' && w.kind == .word then
      if w.isOneOf ["if", "elsif"] then afterDirective "then" after
      else if w.isWord "error" then afterDirective "end" after
      else after
    else afterStatement (t.isPunct '$') rest

theorem afterDirective_length (keyword : String) (ts : List Token) :
    (afterDirective keyword ts).length ≤ ts.length := by
  induction ts with
  | nil => simp [afterDirective]
  | cons t rest ih => unfold afterDirective; split <;> simp <;> omega

theorem afterStatement_length (afterDollar : Bool) (ts : List Token) :
    (afterStatement afterDollar ts).length ≤ ts.length := by
  induction ts generalizing afterDollar with
  | nil => simp [afterStatement]
  | cons t rest ih =>
    have := ih (t.isPunct '$')
    unfold afterStatement
    split
    · simp
    · split <;> simp; omega

theorem skip_length (t : Token) (rest : List Token) : (skip t rest).length ≤ rest.length := by
  unfold skip
  have := afterDirective_length
  have := afterStatement_length
  grind

end PlsqlNav.Unexpected
