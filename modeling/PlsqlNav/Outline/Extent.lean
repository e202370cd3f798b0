import PlsqlNav.Token

/-! Where a block closes. `begin` and `case` open, `end` and `end case` close; `end if` and `end loop`
do neither, since what they end does not open, and `$end` is a directive. -/
namespace PlsqlNav

/-- The end of a block: the position just past it, and the tokens after it. -/
structure Extent where
  stop : Nat
  rest : List Token

namespace Extent

/-- The block ends at `last`, or at a semicolon after it with perhaps a name between. -/
def ofEnd (last : Token) (after : List Token) : Extent :=
  match after with
  | [] => ⟨last.stop, []⟩
  | t :: rest =>
    if t.isPunct ';' then ⟨t.stop, rest⟩
    else
      match rest with
      | [] => ⟨last.stop, after⟩
      | u :: more => if t.isName && u.isPunct ';' then ⟨u.stop, more⟩ else ⟨last.stop, after⟩

/-- The end of a block in which `inner` more blocks are open; `afterDollar` tells whether a dollar
sign comes right before the tokens. None when the text ends first. -/
def find (inner : Nat) (afterDollar : Bool) : List Token → Option Extent
  | [] => none
  | t :: rest =>
    if t.isOneOf ["begin", "case"] then find (inner + 1) false rest
    else if !t.isWord "end" || afterDollar then find inner (t.isPunct '$') rest
    else
      match rest with
      | [] => if inner = 0 then some (ofEnd t []) else none
      | u :: after =>
        if u.isOneOf ["if", "loop"] then find inner false after
        else if u.isWord "case" then
          match inner with
          | 0 => some (ofEnd u after)
          | n + 1 => find n false after
        else
          match inner with
          | 0 => some (ofEnd t (u :: after))
          | n + 1 => find n false (u :: after)

theorem ofEnd_length (last : Token) (after : List Token) :
    (ofEnd last after).rest.length ≤ after.length := by
  unfold ofEnd
  grind

theorem find_length {inner : Nat} {afterDollar : Bool} {ts : List Token} {e : Extent}
    (h : find inner afterDollar ts = some e) : e.rest.length < ts.length := by
  fun_induction find inner afterDollar ts with
  | case1 => contradiction
  | case2 | case3 => grind
  | case4 => cases h; have := ofEnd_length; grind
  | case5 => contradiction
  | case6 => grind
  | case7 => cases h; have := ofEnd_length; grind
  | case8 => grind
  | case9 => cases h; have := ofEnd_length; grind
  | case10 => grind

end Extent

end PlsqlNav
