import PlsqlNav.Text.Blank
import PlsqlNav.Token.Lexeme

/-! From text to tokens. White space and comments are dropped; a documentation comment is kept on
the token that follows it, unless another comment comes between. -/
namespace PlsqlNav.Token

/-- The tokens of a text that starts at byte `pos`, where `doc` waits for its token. -/
def scan (pos : Nat) (doc : Option Comment) : List Char → List Token
  | [] => []
  | c :: cs =>
    if Text.isBlank c then scan (pos + c.utf8Size) doc cs
    else
      let (kind, n) := Lexeme.read c cs
      let lexeme := c :: cs.take n
      let next := pos + Text.byteLength lexeme
      match kind with
      | .documentation => scan next (some ⟨pos, String.ofList lexeme⟩) (cs.drop n)
      | .comment => scan next none (cs.drop n)
      | .token kind => ⟨kind, pos, String.ofList lexeme, doc⟩ :: scan next none (cs.drop n)
termination_by cs => cs.length
decreasing_by all_goals simp only [List.length_cons, List.length_drop]; omega

section Equations
variable {pos : Nat} {doc : Option Comment} {c : Char} {cs : List Char} {n : Nat}

theorem scan_blank (hc : Text.isBlank c) :
    scan pos doc (c :: cs) = scan (pos + c.utf8Size) doc cs := by
  rw [scan, if_pos hc]

theorem scan_documentation (hc : ¬ Text.isBlank c) (h : Lexeme.read c cs = (.documentation, n)) :
    scan pos doc (c :: cs) = scan (pos + Text.byteLength (c :: cs.take n))
      (some ⟨pos, String.ofList (c :: cs.take n)⟩) (cs.drop n) := by
  rw [scan, if_neg hc, h]

theorem scan_comment (hc : ¬ Text.isBlank c) (h : Lexeme.read c cs = (.comment, n)) :
    scan pos doc (c :: cs) = scan (pos + Text.byteLength (c :: cs.take n)) none (cs.drop n) := by
  rw [scan, if_neg hc, h]

theorem scan_token {kind : Kind} (hc : ¬ Text.isBlank c) (h : Lexeme.read c cs = (.token kind, n)) :
    scan pos doc (c :: cs) = ⟨kind, pos, String.ofList (c :: cs.take n), doc⟩ ::
      scan (pos + Text.byteLength (c :: cs.take n)) none (cs.drop n) := by
  rw [scan, if_neg hc, h]

end Equations

def ofText (text : String) : List Token := scan 0 none text.toList

end PlsqlNav.Token
