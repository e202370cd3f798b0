import PlsqlNav.Proofs.Scan.Readers
import PlsqlNav.Proofs.Token.Keyword

/-! Tokens that end with a semicolon. No reader looks past this semicolon unless it finds no end before
it: what comes after makes no difference, and is left as it is. -/
namespace PlsqlNav

/-- The last token, if there is one, is a semicolon. -/
def Token.Finished (ts : List Token) : Prop := ∀ t ∈ ts.getLast?, t.isPunct ';'

namespace Token
variable {t : Token} {ts us : List Token}

theorem Finished.suffix (h : Finished ts) (hs : us <:+ ts) : Finished us := by
  obtain ⟨front, rfl⟩ := hs
  cases us with
  | nil => simp [Finished]
  | cons u us =>
    intro t ht
    apply h t
    rw [List.getLast?_append, Option.mem_def.mp ht]
    rfl

theorem Finished.tail (h : Finished (t :: ts)) : Finished ts := h.suffix (List.suffix_cons t ts)

theorem Finished.exists_cons (h : Finished (t :: ts)) (ht : t.isPunct ';' = false) :
    ∃ u us, ts = u :: us := by
  cases ts with
  | nil =>
    have := h t rfl
    rw [ht] at this
    contradiction
  | cons u us => exact ⟨u, us, rfl⟩

theorem Finished.exists_cons_of_isName (h : Finished (t :: ts)) (ht : t.isName) :
    ∃ u us, ts = u :: us := h.exists_cons (not_isPunct_of_isName ht)

theorem Finished.ne_nil_of_isName (h : Finished (t :: ts)) (ht : t.isName) : ts ≠ [] := by
  obtain ⟨u, us, rfl⟩ := h.exists_cons_of_isName ht
  exact List.cons_ne_nil u us

end Token

open Token
variable {t : Token} {ts : List Token} (more : List Token)

namespace Header

theorem qualifiedName_append (h : Finished ts) (hne : ts ≠ []) :
    qualifiedName (ts ++ more) = (qualifiedName ts).map fun p => (p.1, p.2 ++ more) := by
  obtain ⟨t, ts, rfl⟩ := List.exists_cons_of_ne_nil hne
  rw [List.cons_append, qualifiedName.eq_def, qualifiedName.eq_def (t :: ts)]
  dsimp only
  by_cases hn : t.isName
  · rw [if_pos hn, if_pos hn]
    obtain ⟨u, us, rfl⟩ := h.exists_cons_of_isName hn
    cases us with
    | nil =>
      -- A point is not the last token, so a semicolon stands here.
      have hu : u.isPunct '.' = false := not_isPunct_of_isPunct (h u rfl) (by decide)
      cases more with
      | nil => rfl
      | cons v more => simp only [List.cons_append, List.nil_append, hu, Bool.false_and,
          Bool.false_eq_true, if_false, Option.map_some]
    | cons v us =>
      simp only [List.cons_append]
      split <;> rfl
  · rw [if_neg hn, if_neg hn]
    rfl

theorem qualifiedName_ne_nil {name : String} {rest : List Token} (h : Finished ts)
    (hq : qualifiedName ts = some (name, rest)) : rest ≠ [] := by
  unfold qualifiedName at hq
  split at hq
  · contradiction
  · split at hq
    · next hn =>
      split at hq
      · split at hq
        · next hdot =>
          rw [Bool.and_eq_true] at hdot
          cases hq
          exact h.tail.tail.ne_nil_of_isName hdot.2
        · cases hq
          exact List.cons_ne_nil _ _
      · cases hq
        exact h.ne_nil_of_isName hn
    · contradiction

theorem skipWord_append (keywords : List String) (hne : ts ≠ []) :
    skipWord keywords (ts ++ more) = skipWord keywords ts ++ more := by
  obtain ⟨t, ts, rfl⟩ := List.exists_cons_of_ne_nil hne
  rw [List.cons_append, skipWord, skipWord]
  split <;> rfl

theorem skipWord_ne_nil (keywords : List String) (h : Finished ts) (hne : ts ≠ []) :
    skipWord keywords ts ≠ [] := by
  obtain ⟨t, ts, rfl⟩ := List.exists_cons_of_ne_nil hne
  rw [skipWord]
  split
  · next ht => exact h.ne_nil_of_isName (isName_of_isOneOf ht)
  · exact hne

theorem skipReplace_append (h : Finished ts) (hne : ts ≠ []) :
    skipReplace (ts ++ more) = skipReplace ts ++ more := by
  obtain ⟨t, ts, rfl⟩ := List.exists_cons_of_ne_nil hne
  cases ts with
  | nil =>
    have ht : t.isWord "or" = false := not_isWord_of_not_isName (not_isName_of_isPunct (h t rfl))
    cases more with
    | nil => rfl
    | cons u more =>
      rw [List.cons_append, List.nil_append, skipReplace, ht, Bool.false_and,
        if_neg Bool.false_ne_true]
      rfl
  | cons u ts =>
    rw [List.cons_append, List.cons_append, skipReplace, skipReplace]
    split <;> rfl

theorem skipReplace_ne_nil (h : Finished ts) (hne : ts ≠ []) : skipReplace ts ≠ [] := by
  unfold skipReplace
  split
  · next t u rest =>
    split
    · next hw =>
      rw [Bool.and_eq_true] at hw
      exact h.tail.ne_nil_of_isName (isName_of_isWord hw.2)
    · exact hne
  · exact hne

theorem skipCreate_append (h : Finished ts) (hne : ts ≠ []) :
    skipCreate (ts ++ more) = skipCreate ts ++ more := by
  obtain ⟨t, ts, rfl⟩ := List.exists_cons_of_ne_nil hne
  rw [List.cons_append, skipCreate, skipCreate]
  split
  · next ht =>
    have hts : ts ≠ [] := h.ne_nil_of_isName (isName_of_isWord ht)
    rw [skipReplace_append more h.tail hts, skipWord_append more _ (skipReplace_ne_nil h.tail hts)]
  · rfl

theorem skipCreate_ne_nil (h : Finished ts) (hne : ts ≠ []) : skipCreate ts ≠ [] := by
  obtain ⟨t, ts, rfl⟩ := List.exists_cons_of_ne_nil hne
  rw [skipCreate]
  split
  · next ht =>
    have hts : ts ≠ [] := h.ne_nil_of_isName (isName_of_isWord ht)
    exact skipWord_ne_nil _ (h.tail.suffix (skipReplace_suffix ts)) (skipReplace_ne_nil h.tail hts)
  · exact hne

theorem unitKind_append (h : Finished ts) (hne : ts ≠ []) :
    unitKind (ts ++ more) = (unitKind ts).map fun p => (p.1, p.2 ++ more) := by
  obtain ⟨t, ts, rfl⟩ := List.exists_cons_of_ne_nil hne
  rw [List.cons_append, unitKind.eq_def, unitKind.eq_def (t :: ts)]
  dsimp only
  split
  · rfl
  split
  · rfl
  split
  · next ht =>
    obtain ⟨u, us, rfl⟩ := h.exists_cons_of_isName (isName_of_isWord ht)
    rw [List.cons_append]
    dsimp only
    split <;> rfl
  · rfl

theorem unitKind_ne_nil {kind : Symbol.Kind} {rest : List Token} (h : Finished ts)
    (hk : unitKind ts = some (kind, rest)) : rest ≠ [] := by
  unfold unitKind at hk
  split at hk
  · contradiction
  · next t us =>
    split at hk
    · next ht =>
      cases hk
      exact h.ne_nil_of_isName (isName_of_isWord ht)
    split at hk
    · next ht =>
      cases hk
      exact h.ne_nil_of_isName (isName_of_isWord ht)
    split at hk
    · next ht =>
      obtain ⟨u, us, rfl⟩ := h.exists_cons_of_isName (isName_of_isWord ht)
      dsimp only at hk
      split at hk
      · next hu =>
        cases hk
        exact h.tail.ne_nil_of_isName (isName_of_isWord hu)
      · cases hk
        exact List.cons_ne_nil u us
    · contradiction

def before (h : Header) (more : List Token) : Header := { h with rest := h.rest ++ more }

theorem ofUnit?_append (h : Finished ts) (hne : ts ≠ []) :
    ofUnit? (ts ++ more) = (ofUnit? ts).map (·.before more) := by
  obtain ⟨t, us, hts⟩ := List.exists_cons_of_ne_nil hne
  have hhead : (ts ++ more).head? = ts.head? := by rw [hts]; rfl
  have hskip := skipCreate_ne_nil h hne
  have hfinished := h.suffix (skipCreate_suffix ts)
  rw [ofUnit?, ofUnit?, hhead, skipCreate_append more h hne,
    unitKind_append more hfinished hskip]
  cases ts.head? with
  | none => rfl
  | some first =>
    cases hk : unitKind (skipCreate ts) with
    | none => rfl
    | some p =>
      have hp := qualifiedName_append more (hfinished.suffix (unitKind_suffix hk))
        (unitKind_ne_nil hfinished hk)
      simp only [Option.bind_eq_bind, Option.bind_some, Option.map_some, hp]
      cases qualifiedName p.2 <;> rfl

def End.before (more : List Token) : End → End
  | body ts => body (ts ++ more)
  | semicolon ts => semicolon (ts ++ more)
  | cut ts afterDollar => cut (ts ++ more) afterDollar

/-- A header ends at the same token before more tokens, unless the tokens run out. -/
theorem findEnd_append (depth : Nat) (d : Bool) :
    (findEnd depth d (ts ++ more) = (findEnd depth d ts).before more ∧
      (findEnd depth d ts).tokens ≠ []) ∨ ∃ d', findEnd depth d ts = .cut [] d' := by
  induction ts generalizing depth d with
  | nil => exact .inr ⟨d, rfl⟩
  | cons t ts ih =>
    rw [List.cons_append, findEnd, findEnd]
    split
    · exact ih _ _
    split
    · exact ih _ _
    split
    · exact ih _ _
    split
    · exact .inl ⟨rfl, List.cons_ne_nil t ts⟩
    split
    · exact .inl ⟨rfl, List.cons_ne_nil t ts⟩
    split
    · exact .inl ⟨rfl, List.cons_ne_nil t ts⟩
    · exact ih _ _

end Header

namespace Unexpected

theorem afterDirective_cons (keyword : String) (t u : Token) (us : List Token) :
    afterDirective keyword (t :: u :: us) =
      if t.isPunct '$' && u.isWord keyword then us else afterDirective keyword (u :: us) := rfl

theorem afterDirective_append (keyword : String) :
    afterDirective keyword (ts ++ more) = afterDirective keyword ts ++ more ∨
      afterDirective keyword ts = [] := by
  induction ts with
  | nil => exact .inr rfl
  | cons t ts ih =>
    cases ts with
    | nil =>
      right
      rw [afterDirective]
      split <;> rfl
    | cons u us =>
      rw [List.cons_append, List.cons_append, afterDirective_cons, afterDirective_cons]
      split
      · exact .inl rfl
      · exact ih

/-- A statement ends at its semicolon, and there is one. -/
theorem afterStatement_append (h : Finished ts) (hne : ts ≠ []) (d : Bool) :
    afterStatement d (ts ++ more) = afterStatement d ts ++ more := by
  induction ts generalizing d with
  | nil => contradiction
  | cons t ts ih =>
    rw [List.cons_append, afterStatement, afterStatement]
    split
    · rfl
    split
    · rfl
    · next ht _ =>
      obtain ⟨u, us, rfl⟩ := h.exists_cons (Bool.not_eq_true _ ▸ ht)
      exact ih h.tail (List.cons_ne_nil u us) _

theorem skip_append (h : Finished (t :: ts)) (ht : t.isPunct ';' = false) :
    skip t (ts ++ more) = skip t ts ++ more ∨ skip t ts = [] := by
  obtain ⟨u, us, rfl⟩ := h.exists_cons ht
  rw [List.cons_append, skip, skip]
  split
  · split
    · exact afterDirective_append more _
    split
    · exact afterDirective_append more _
    · exact .inl rfl
  · rw [← List.cons_append]
    exact .inl (afterStatement_append more h.tail (List.cons_ne_nil u us) _)

end Unexpected

namespace Extent

def before (more : List Token) (e : Extent) : Extent := { e with rest := e.rest ++ more }

theorem ofEnd_append (last : Token) (h : Finished ts) (hne : ts ≠ []) :
    ofEnd last (ts ++ more) = (ofEnd last ts).before more := by
  obtain ⟨t, ts, rfl⟩ := List.exists_cons_of_ne_nil hne
  rw [List.cons_append, ofEnd.eq_def, ofEnd.eq_def last (t :: ts)]
  dsimp only
  split
  · rfl
  · next ht =>
    obtain ⟨u, us, rfl⟩ := h.exists_cons (Bool.not_eq_true _ ▸ ht)
    rw [List.cons_append]
    dsimp only
    split <;> rfl

/-- A block that closes before its text ends closes at the same place before more tokens. -/
theorem find_append (inner : Nat) (d : Bool) (h : Finished ts) :
    find inner d (ts ++ more) = (find inner d ts).map (before more) ∨ find inner d ts = none := by
  fun_induction find inner d ts with
  | case1 => exact .inr rfl
  | case2 inner d t ts ht ih =>
    rw [List.cons_append, find.eq_def]
    dsimp only
    rw [if_pos ht]
    exact ih h.tail
  | case3 inner d t ts ht hd ih =>
    rw [List.cons_append, find.eq_def]
    dsimp only
    rw [if_neg ht, if_pos hd]
    exact ih h.tail
  | case4 d t ht hd | case5 inner d t ht hd =>
    have hend : t.isWord "end" := by
      rw [Bool.not_eq_true, Bool.or_eq_false_iff, Bool.not_eq_false'] at hd
      exact hd.1
    exact absurd rfl (h.ne_nil_of_isName (isName_of_isWord hend))
  | case6 inner d t ht hd u us hu ih =>
    rw [List.cons_append, List.cons_append, find.eq_def]
    dsimp only
    rw [if_neg ht, if_neg hd, if_pos hu]
    exact ih h.tail.tail
  | case7 d t ht hd u us hu hcase =>
    left
    rw [List.cons_append, List.cons_append, find.eq_def]
    dsimp only
    rw [if_neg ht, if_neg hd, if_neg hu, if_pos hcase,
      ofEnd_append more u h.tail.tail (h.tail.ne_nil_of_isName (isName_of_isWord hcase))]
    rfl
  | case8 d t ht hd u us hu hcase n ih =>
    rw [List.cons_append, List.cons_append, find.eq_def]
    dsimp only
    rw [if_neg ht, if_neg hd, if_neg hu, if_pos hcase]
    exact ih h.tail.tail
  | case9 d t ht hd u us hu hcase =>
    left
    rw [List.cons_append, List.cons_append, find.eq_def]
    dsimp only
    rw [if_neg ht, if_neg hd, if_neg hu, if_neg hcase, ← List.cons_append,
      ofEnd_append more t h.tail (List.cons_ne_nil u us)]
    rfl
  | case10 d t ht hd u us hu hcase n ih =>
    rw [List.cons_append, List.cons_append, find.eq_def]
    dsimp only
    rw [if_neg ht, if_neg hd, if_neg hu, if_neg hcase]
    exact ih h.tail

end Extent

namespace Scan

theorem fromSemicolon_append (h : Finished ts) (hne : ts ≠ []) :
    fromSemicolon (ts ++ more) = fromSemicolon ts ++ more ∧ fromSemicolon ts ≠ [] := by
  induction ts with
  | nil => contradiction
  | cons t ts ih =>
    rw [fromSemicolon, fromSemicolon, List.cons_append, List.dropWhile_cons, List.dropWhile_cons]
    split
    · next ht =>
      obtain ⟨u, us, rfl⟩ := h.exists_cons (Bool.not_eq_true' _ ▸ ht)
      exact ih h.tail (List.cons_ne_nil u us)
    · exact ⟨rfl, List.cons_ne_nil t ts⟩

end Scan

end PlsqlNav
