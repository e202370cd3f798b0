import PlsqlNav.Outline.Extent
import PlsqlNav.Proofs.Token.Keyword

/-! Well-nested statements. The search for the end of a block passes over them, however many blocks are
open around them. -/
namespace PlsqlNav

/-- What comes after an `end` and makes it no `end if`, `end loop` or `end case`. -/
def Extent.Bare (after : List Token) : Prop :=
  ∀ t ∈ after.head?, t.isOneOf ["if", "loop", "case"] = false

/-- Statements in which every block and every `case` closes. What follows them is an `end`, so that a
dollar sign may not come last. Labels are names other than `labels`. -/
inductive WellNested (labels : List String) : List Token → Prop
  | nil : WellNested labels []
  | token {t ts} : t.isOneOf ["begin", "case", "end"] = false → t.isPunct '$' = false →
      WellNested labels ts → WellNested labels (t :: ts)
  | dollar {d t ts} : d.isPunct '$' → t.isWord "end" = false →
      WellNested labels (t :: ts) → WellNested labels (d :: t :: ts)
  | directive {d e ts} : d.isPunct '$' → e.isWord "end" →
      WellNested labels ts → WellNested labels (d :: e :: ts)
  | unopened {e k ts} : e.isWord "end" → k.isOneOf ["if", "loop"] →
      WellNested labels ts → WellNested labels (e :: k :: ts)
  | block {b e s inner ts} : b.isWord "begin" → WellNested labels inner → e.isWord "end" →
      s.isPunct ';' → WellNested labels ts → WellNested labels (b :: inner ++ e :: s :: ts)
  | labelled {b e l s inner ts} : b.isWord "begin" → WellNested labels inner → e.isWord "end" →
      l.isName → l.isOneOf labels = false → s.isPunct ';' →
      WellNested labels ts → WellNested labels (b :: inner ++ e :: l :: s :: ts)
  | caseStatement {c e k inner ts} : c.isWord "case" → WellNested labels inner → e.isWord "end" →
      k.isWord "case" → WellNested labels ts → WellNested labels (c :: inner ++ e :: k :: ts)
  | caseExpression {c e inner ts} : c.isWord "case" → WellNested labels inner → e.isWord "end" →
      Extent.Bare ts → WellNested labels ts → WellNested labels (c :: inner ++ e :: ts)

namespace Extent

variable {t u : Token} {ts : List Token} {inner : Nat} {d : Bool}

theorem find_opening (h : t.isOneOf ["begin", "case"]) :
    find inner d (t :: ts) = find (inner + 1) false ts := by
  rw [find.eq_def]
  dsimp only
  rw [if_pos h]

theorem find_other (h : t.isOneOf ["begin", "case", "end"] = false) :
    find inner d (t :: ts) = find inner (t.isPunct '$') ts := by
  have hopen : t.isOneOf ["begin", "case"] = false := Token.not_isOneOf_of_subset h (by decide)
  have hend : t.isWord "end" = false := Token.not_isOneOf_iff.mp h "end" (by simp)
  rw [find.eq_def]
  dsimp only
  rw [if_neg (by rw [hopen]; decide), if_pos (by rw [hend]; rfl)]

/-- A dollar sign makes a directive of the `end` after it. -/
theorem find_directive (h : t.isWord "end") : find inner true (t :: ts) = find inner false ts := by
  have hopen : t.isOneOf ["begin", "case"] = false := Token.not_isOneOf_of_isWord h (by decide)
  have hdollar : t.isPunct '$' = false := Token.not_isPunct_of_isName (Token.isName_of_isWord h)
  rw [find.eq_def]
  dsimp only
  rw [if_neg (by rw [hopen]; decide), if_pos (by rw [Bool.or_true]), hdollar]

theorem find_afterDollar (h : t.isWord "end" = false) :
    find inner true (t :: ts) = find inner false (t :: ts) := by
  rw [find.eq_def, find.eq_def inner false]
  simp only [h, Bool.not_false, Bool.true_or]

theorem find_unopened (h : t.isWord "end") (hu : u.isOneOf ["if", "loop"]) :
    find inner false (t :: u :: ts) = find inner false ts := by
  have hopen : t.isOneOf ["begin", "case"] = false := Token.not_isOneOf_of_isWord h (by decide)
  rw [find.eq_def]
  dsimp only
  rw [if_neg (by rw [hopen]; decide), if_neg (by rw [h]; decide)]
  simp only [hu, if_true]

theorem find_endCase (h : t.isWord "end") (hu : u.isWord "case") :
    find (inner + 1) false (t :: u :: ts) = find inner false ts := by
  have hopen : t.isOneOf ["begin", "case"] = false := Token.not_isOneOf_of_isWord h (by decide)
  have hkind : u.isOneOf ["if", "loop"] = false := Token.not_isOneOf_of_isWord hu (by decide)
  rw [find.eq_def]
  dsimp only
  rw [if_neg (by rw [hopen]; decide), if_neg (by rw [h]; decide)]
  simp only [hkind, hu, if_true, Bool.false_eq_true, if_false]

/-- An `end` with nothing behind it closes the innermost open block. -/
theorem find_close (h : t.isWord "end") (hc : Bare ts) :
    find (inner + 1) false (t :: ts) = find inner false ts := by
  have hopen : t.isOneOf ["begin", "case"] = false := Token.not_isOneOf_of_isWord h (by decide)
  rw [find.eq_def]
  dsimp only
  rw [if_neg (by rw [hopen]; decide), if_neg (by rw [h]; decide)]
  cases ts with
  | nil => rw [find, if_neg (Nat.succ_ne_zero inner)]
  | cons u ts =>
    have hkind : u.isOneOf ["if", "loop"] = false :=
      Token.not_isOneOf_of_subset (hc u rfl) (by decide)
    have hcase : u.isWord "case" = false := Token.not_isOneOf_iff.mp (hc u rfl) "case" (by simp)
    simp only [hkind, hcase, Bool.false_eq_true, if_false]

/-- The block that the search started in closes at the first `end` of its own. -/
theorem find_zero (h : t.isWord "end") (hc : Bare ts) :
    find 0 false (t :: ts) = some (ofEnd t ts) := by
  have hopen : t.isOneOf ["begin", "case"] = false := Token.not_isOneOf_of_isWord h (by decide)
  rw [find.eq_def]
  dsimp only
  rw [if_neg (by rw [hopen]; decide), if_neg (by rw [h]; decide)]
  cases ts with
  | nil => rfl
  | cons u ts =>
    have hkind : u.isOneOf ["if", "loop"] = false :=
      Token.not_isOneOf_of_subset (hc u rfl) (by decide)
    have hcase : u.isWord "case" = false := Token.not_isOneOf_iff.mp (hc u rfl) "case" (by simp)
    simp only [hkind, hcase, Bool.false_eq_true, if_false]

theorem ofEnd_semicolon (h : u.isPunct ';') : ofEnd t (u :: ts) = ⟨u.stop, ts⟩ := by
  rw [ofEnd.eq_def]
  dsimp only
  rw [if_pos h]

theorem ofEnd_label {l s : Token} (hl : l.isName) (hs : s.isPunct ';') :
    ofEnd t (l :: s :: ts) = ⟨s.stop, ts⟩ := by
  have hnot : l.isPunct ';' = false := Token.not_isPunct_of_isName hl
  rw [ofEnd.eq_def]
  dsimp only
  rw [if_neg (by rw [hnot]; decide)]
  simp only [hl, hs, Bool.and_self, if_true]

theorem find_semicolon (h : u.isPunct ';') : find inner d (u :: ts) = find inner false ts := by
  rw [find_other (Token.not_isOneOf_of_not_isName (Token.not_isName_of_isPunct h)),
    Token.not_isPunct_of_isPunct h (by decide)]

theorem bare_of_semicolon (h : u.isPunct ';') : Bare (u :: ts) := by
  intro t ht
  cases ht
  exact Token.not_isOneOf_of_not_isName (Token.not_isName_of_isPunct h)

theorem bare_of_end (h : u.isWord "end") : Bare (u :: ts) := by
  intro t ht
  cases ht
  exact Token.not_isOneOf_of_isWord h (by decide)

/-- The words that the search would take for something else where a label stands. -/
def labelWords : List String := ["if", "loop", "case", "begin", "end"]

theorem bare_of_label (h : u.isOneOf labelWords = false) : Bare (u :: ts) := by
  intro t ht
  cases ht
  exact Token.not_isOneOf_of_subset h (by decide)

theorem find_label {l s : Token} (hl : l.isName) (hw : l.isOneOf labelWords = false)
    (hs : s.isPunct ';') : find inner false (l :: s :: ts) = find inner false ts := by
  have hplain : l.isOneOf ["begin", "case", "end"] = false :=
    Token.not_isOneOf_of_subset hw (by decide)
  rw [find_other hplain, Token.not_isPunct_of_isName hl, find_semicolon hs]

/-- Well-nested statements leave the search as it was, with as many blocks open. -/
theorem find_wellNested {ss : List Token} (h : WellNested labelWords ss) (hts : Bare ts) :
    find inner false (ss ++ ts) = find inner false ts := by
  induction h generalizing inner ts with
  | nil => rfl
  | token hplain hdollar _ ih =>
    rw [List.cons_append, find_other hplain, hdollar, ih hts]
  | dollar hd ht _ ih =>
    rw [List.cons_append, find_other (Token.not_isOneOf_of_not_isName
      (Token.not_isName_of_isPunct hd)), hd, List.cons_append, find_afterDollar ht,
      ← List.cons_append, ih hts]
  | directive hd he _ ih =>
    rw [List.cons_append, find_other (Token.not_isOneOf_of_not_isName
      (Token.not_isName_of_isPunct hd)), hd, List.cons_append, find_directive he, ih hts]
  | unopened he hk _ ih =>
    rw [List.cons_append, List.cons_append, find_unopened he hk, ih hts]
  | block hb _ he hs _ ihinner ih =>
    rw [List.cons_append, List.cons_append, List.append_assoc, List.cons_append, List.cons_append,
      find_opening (Token.isOneOf_iff.mpr ⟨_, by simp, hb⟩), ihinner (bare_of_end he),
      find_close he (bare_of_semicolon hs), find_semicolon hs, ih hts]
  | labelled hb _ he hl hw hs _ ihinner ih =>
    rw [List.cons_append, List.cons_append, List.append_assoc, List.cons_append, List.cons_append,
      List.cons_append, find_opening (Token.isOneOf_iff.mpr ⟨_, by simp, hb⟩),
      ihinner (bare_of_end he), find_close he (bare_of_label hw), find_label hl hw hs, ih hts]
  | caseStatement hc _ he hk _ ihinner ih =>
    rw [List.cons_append, List.cons_append, List.append_assoc, List.cons_append, List.cons_append,
      find_opening (Token.isOneOf_iff.mpr ⟨_, by simp, hc⟩), ihinner (bare_of_end he),
      find_endCase he hk, ih hts]
  | @caseExpression c e inside after hc _ he hbare _ ihinner ih =>
    have hafter : Bare (after ++ ts) := by
      cases after with
      | nil => exact hts
      | cons u after => exact hbare
    rw [List.cons_append, List.cons_append, List.append_assoc, List.cons_append,
      find_opening (Token.isOneOf_iff.mpr ⟨_, by simp, hc⟩), ihinner (bare_of_end he),
      find_close he hafter, ih hts]

end Extent

end PlsqlNav
