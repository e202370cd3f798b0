import Mathlib.Data.List.Forall2
import PlsqlNav.Proofs.Scan.Readers
import PlsqlNav.Proofs.Token.Keyword

/-! Tokens that read alike. The readers of a scan look at the kinds and texts of tokens only, and see no
letter case, so that two lists of tokens which are alike one by one are read in the same way. -/
namespace PlsqlNav

/-- The same kind, and the same text up to letter case. -/
structure Token.Alike (t u : Token) : Prop where
  kind : t.kind = u.kind
  text : Text.sameName t.text u.text

namespace Token.Alike
variable {t u : Token} (h : t.Alike u)
include h

theorem isWord (keyword : String) : t.isWord keyword = u.isWord keyword := by
  have htext : Text.sameName t.text keyword = Text.sameName u.text keyword := by
    rw [Bool.eq_iff_iff]
    exact ⟨Text.sameName_trans (Text.sameName_comm t.text u.text ▸ h.text),
      Text.sameName_trans h.text⟩
  rw [Token.isWord, Token.isWord, h.kind, htext]

theorem isOneOf (keywords : List String) : t.isOneOf keywords = u.isOneOf keywords := by
  rw [Token.isOneOf, Token.isOneOf]
  congr 1
  funext keyword
  exact h.isWord keyword

theorem isPunct (c : Char) : t.isPunct c = u.isPunct c := by
  rw [Token.isPunct, Token.isPunct, h.kind]

theorem isName : t.isName = u.isName := by
  rw [Token.isName, Token.isName, h.kind]

theorem lead : Lead.of t = Lead.of u := by
  simp only [Lead.of, h.isWord]

end Token.Alike

/-- Two headers of the same kind, whose tokens and names correspond. -/
structure Header.Corresponds (R : Token → Token → Prop) (N : String → String → Prop) (h k : Header) :
    Prop where
  first : R h.first k.first
  kind : h.kind = k.kind
  name : N h.name k.name
  rest : List.Forall₂ R h.rest k.rest

inductive Header.End.Corresponds (R : Token → Token → Prop) : Header.End → Header.End → Prop
  | body {ts us} : List.Forall₂ R ts us → Corresponds R (.body ts) (.body us)
  | semicolon {ts us} : List.Forall₂ R ts us → Corresponds R (.semicolon ts) (.semicolon us)
  | cut {ts us} (afterDollar : Bool) : List.Forall₂ R ts us →
      Corresponds R (.cut ts afterDollar) (.cut us afterDollar)

structure Extent.Corresponds (R : Token → Token → Prop) (P : Nat → Nat → Prop) (e f : Extent) : Prop where
  stop : P e.stop f.stop
  rest : List.Forall₂ R e.rest f.rest

variable {R : Token → Token → Prop} (alike : ∀ {t u}, R t u → t.Alike u)
  {ts us : List Token}

theorem forall₂_tail {α β : Type} {P : α → β → Prop} {xs : List α} {ys : List β}
    (h : List.Forall₂ P xs ys) : List.Forall₂ P xs.tail ys.tail := by
  cases h with
  | nil => exact .nil
  | cons _ h => exact h

include alike

theorem any_head_alike (h : List.Forall₂ R ts us) {p : Token → Bool}
    (hp : ∀ {t u : Token}, t.Alike u → p t = p u) : ts.head?.any p = us.head?.any p := by
  cases h with
  | nil => rfl
  | cons htu _ => exact hp (alike htu)

namespace Header
variable {N : String → String → Prop} (named : ∀ {t u}, R t u → N t.name u.name)

theorem skipWord_alike (h : List.Forall₂ R ts us) (keywords : List String) :
    List.Forall₂ R (skipWord keywords ts) (skipWord keywords us) := by
  cases h with
  | nil => exact .nil
  | cons htu h =>
    rw [skipWord, skipWord, (alike htu).isOneOf]
    split
    · exact h
    · exact .cons htu h

theorem skipReplace_alike (h : List.Forall₂ R ts us) :
    List.Forall₂ R (skipReplace ts) (skipReplace us) := by
  cases h with
  | nil => exact .nil
  | cons htu h =>
    cases h with
    | nil => exact .cons htu .nil
    | cons huv h =>
      rw [skipReplace, skipReplace, (alike htu).isWord, (alike huv).isWord]
      split
      · exact h
      · exact .cons htu (.cons huv h)

theorem skipCreate_alike (h : List.Forall₂ R ts us) :
    List.Forall₂ R (skipCreate ts) (skipCreate us) := by
  cases h with
  | nil => exact .nil
  | cons htu h =>
    rw [skipCreate, skipCreate, (alike htu).isWord]
    split
    · exact skipWord_alike alike (skipReplace_alike alike h) _
    · exact .cons htu h

theorem unitKind_alike (h : List.Forall₂ R ts us) :
    Option.Rel (fun p q => p.1 = q.1 ∧ List.Forall₂ R p.2 q.2) (unitKind ts) (unitKind us) := by
  cases h with
  | nil => exact .none
  | cons htu h =>
    rw [unitKind.eq_def, unitKind.eq_def]
    dsimp only
    rw [(alike htu).isWord, (alike htu).isWord, (alike htu).isWord]
    split
    · exact .some ⟨rfl, h⟩
    split
    · exact .some ⟨rfl, h⟩
    split
    · cases h with
      | nil => exact .some ⟨rfl, .nil⟩
      | cons huv h =>
        dsimp only
        rw [(alike huv).isWord]
        split
        · exact .some ⟨rfl, h⟩
        · exact .some ⟨rfl, .cons huv h⟩
    · exact .none

include named in
theorem qualifiedName_alike (h : List.Forall₂ R ts us) :
    Option.Rel (fun p q => N p.1 q.1 ∧ List.Forall₂ R p.2 q.2)
      (qualifiedName ts) (qualifiedName us) := by
  cases h with
  | nil => exact .none
  | cons htu h =>
    rw [qualifiedName.eq_def, qualifiedName.eq_def]
    dsimp only
    rw [(alike htu).isName]
    split
    · cases h with
      | nil => exact .some ⟨named htu, .nil⟩
      | cons huv h =>
        cases h with
        | nil => exact .some ⟨named htu, .cons huv .nil⟩
        | cons hvw h =>
          dsimp only
          rw [(alike huv).isPunct, (alike hvw).isName]
          split
          · exact .some ⟨named hvw, h⟩
          · exact .some ⟨named htu, .cons huv (.cons hvw h)⟩
    · exact .none

include named in
theorem ofUnit?_alike (h : List.Forall₂ R ts us) :
    Option.Rel (Corresponds R N) (ofUnit? ts) (ofUnit? us) := by
  cases h with
  | nil => exact .none
  | @cons t u ts us htu h =>
    have hskip := skipCreate_alike alike (.cons htu h)
    have hkind := unitKind_alike alike hskip
    rw [ofUnit?, ofUnit?, List.head?_cons, List.head?_cons]
    simp only [Option.bind_eq_bind, Option.bind_some]
    generalize unitKind (skipCreate (t :: ts)) = o at hkind
    generalize unitKind (skipCreate (u :: us)) = o' at hkind
    cases hkind with
    | none => exact .none
    | @some p q hpq =>
      have hname := qualifiedName_alike alike named hpq.2
      simp only [Option.bind_some]
      generalize qualifiedName p.2 = o at hname
      generalize qualifiedName q.2 = o' at hname
      cases hname with
      | none => exact .none
      | some hn => exact .some ⟨htu, hpq.1, hn.1, hn.2⟩

theorem findEnd_alike (h : List.Forall₂ R ts us) (depth : Nat) (afterDollar : Bool) :
    End.Corresponds R (findEnd depth afterDollar ts) (findEnd depth afterDollar us) := by
  induction h generalizing depth afterDollar with
  | nil => exact .cut _ .nil
  | cons htu h ih =>
    have hlist := List.Forall₂.cons htu h
    rw [findEnd, findEnd]
    simp only [(alike htu).isPunct, (alike htu).isOneOf]
    split
    · exact ih _ _
    split
    · exact ih _ _
    split
    · exact ih _ _
    split
    · exact .semicolon hlist
    split
    · exact .body hlist
    split
    · exact .cut _ hlist
    · exact ih _ _

end Header

namespace Unexpected

theorem afterDirective_alike (h : List.Forall₂ R ts us) (keyword : String) :
    List.Forall₂ R (afterDirective keyword ts) (afterDirective keyword us) := by
  induction h with
  | nil => exact .nil
  | cons htu h ih =>
    rw [afterDirective, afterDirective, (alike htu).isPunct,
      any_head_alike alike h fun htu => htu.isWord keyword]
    split
    · exact forall₂_tail h
    · exact ih

theorem afterStatement_alike (h : List.Forall₂ R ts us) (afterDollar : Bool) :
    List.Forall₂ R (afterStatement afterDollar ts) (afterStatement afterDollar us) := by
  induction h generalizing afterDollar with
  | nil => exact .nil
  | cons htu h ih =>
    rw [afterStatement, afterStatement]
    simp only [(alike htu).isPunct, (alike htu).isOneOf]
    split
    · exact h
    split
    · exact .cons htu h
    · exact ih _

theorem skip_alike {t u : Token} (htu : R t u) (h : List.Forall₂ R ts us) :
    List.Forall₂ R (skip t ts) (skip u us) := by
  cases h with
  | nil => exact .nil
  | cons hvw h =>
    rw [skip, skip, (alike htu).isPunct, (alike hvw).kind, (alike hvw).isOneOf, (alike hvw).isWord]
    split
    · split
      · exact afterDirective_alike alike h _
      split
      · exact afterDirective_alike alike h _
      · exact h
    · exact afterStatement_alike alike (.cons hvw h) _

end Unexpected

namespace Extent
variable {P : Nat → Nat → Prop} (stops : ∀ {t u}, R t u → P t.stop u.stop)

include stops

theorem ofEnd_alike {t u : Token} (htu : R t u) (h : List.Forall₂ R ts us) :
    Corresponds R P (ofEnd t ts) (ofEnd u us) := by
  cases h with
  | nil => exact ⟨stops htu, .nil⟩
  | cons hvw h =>
    rw [ofEnd.eq_def, ofEnd.eq_def]
    dsimp only
    rw [(alike hvw).isPunct, (alike hvw).isName]
    split
    · exact ⟨stops hvw, h⟩
    · cases h with
      | nil => exact ⟨stops htu, .cons hvw .nil⟩
      | cons hxy h =>
        dsimp only
        rw [(alike hxy).isPunct]
        split
        · exact ⟨stops hxy, h⟩
        · exact ⟨stops htu, .cons hvw (.cons hxy h)⟩

/-- The search for the end of a block, by the number of tokens, since it may go on two tokens later. -/
theorem find_alike (inner : Nat) (afterDollar : Bool) (h : List.Forall₂ R ts us) :
    Option.Rel (Corresponds R P) (find inner afterDollar ts) (find inner afterDollar us) := by
  induction hn : ts.length using Nat.strongRecOn generalizing ts us inner afterDollar with
  | _ n ih =>
  subst hn
  cases h with
  | nil => exact .none
  | @cons t u ts us htu h =>
    have hnext (inner : Nat) (d : Bool) :
        Option.Rel (Corresponds R P) (find inner d ts) (find inner d us) :=
      ih ts.length (Nat.lt_succ_self _) inner d h rfl
    rw [find.eq_def, find.eq_def inner afterDollar (u :: us)]
    dsimp only
    rw [(alike htu).isOneOf, (alike htu).isWord, (alike htu).isPunct]
    split
    · exact hnext _ _
    split
    · exact hnext _ _
    · cases h with
      | nil =>
        dsimp only
        split
        · exact .some (ofEnd_alike alike stops htu .nil)
        · exact .none
      | @cons v w ts us hvw h =>
        have hlater (inner : Nat) (d : Bool) :
            Option.Rel (Corresponds R P) (find inner d ts) (find inner d us) :=
          ih ts.length (by simp only [List.length_cons]; omega) inner d h rfl
        dsimp only
        rw [(alike hvw).isOneOf, (alike hvw).isWord]
        split
        · exact hlater _ _
        split
        · cases inner with
          | zero => exact .some (ofEnd_alike alike stops hvw h)
          | succ n => exact hlater _ _
        · cases inner with
          | zero => exact .some (ofEnd_alike alike stops htu (.cons hvw h))
          | succ n => exact hnext _ _

end Extent

theorem Scan.fromSemicolon_alike (h : List.Forall₂ R ts us) :
    List.Forall₂ R (fromSemicolon ts) (fromSemicolon us) := by
  induction h with
  | nil => exact .nil
  | cons htu h ih =>
    rw [fromSemicolon, fromSemicolon, List.dropWhile_cons, List.dropWhile_cons, (alike htu).isPunct]
    split
    · exact ih
    · exact .cons htu h

end PlsqlNav
