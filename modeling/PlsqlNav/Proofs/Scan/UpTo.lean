import PlsqlNav.Proofs.Outline.Passing
import PlsqlNav.Proofs.Scan.Append
import PlsqlNav.Proofs.Scan.Correspondence
import PlsqlNav.Proofs.Written.Reading

/-! A scan on its way to a `begin`. Its readers look ahead, but as long as they leave the `begin` unread
they find the same whatever comes behind it. Only a block's label looks one token further: a semicolon
there would make the `begin` the name of a block. -/
namespace PlsqlNav

variable {g t : Token} {b : Bool} {front : List Token} {text : List Char}

/-- What comes behind starts with a semicolon, or does not. -/
def Follows (b : Bool) (back : List Token) : Prop := back.head?.any (·.isPunct ';') = b

/-- What a reader leaves, by what comes behind `g`: always the same before `g`, or never `g`. -/
def LeavesUpTo (g : Token) (b : Bool) (left : List Token → List Token) : Prop :=
  (∃ r, ∀ back, Follows b back → left back = r ++ g :: back) ∨
    ∀ back, Follows b back → left back <:+ back

namespace Header

theorem qualifiedName_upTo (hg : g.isName) (front : List Token) :
    (∃ o : Option (String × List Token), ∀ back,
      qualifiedName (front ++ g :: back) = o.map fun p => (p.1, p.2 ++ g :: back)) ∨
    ∀ back, ∃ p, qualifiedName (front ++ g :: back) = some p ∧ p.2 <:+ back := by
  have hpoint : g.isPunct '.' = false := Token.not_isPunct_of_isName hg
  cases front with
  | nil =>
    right
    intro back
    rw [List.nil_append, qualifiedName.eq_def]
    dsimp only
    rw [if_pos hg]
    split
    · split
      · exact ⟨_, rfl, List.suffix_append [_, _] _⟩
      · exact ⟨_, rfl, List.suffix_refl _⟩
    · exact ⟨_, rfl, List.suffix_refl _⟩
  | cons t front =>
    by_cases ht : t.isName
    · cases front with
      | nil =>
        refine .inl ⟨some (t.name, []), fun back => ?_⟩
        rw [List.singleton_append, qualifiedName.eq_def]
        dsimp only
        rw [if_pos ht]
        cases back with
        | nil => rfl
        | cons u back =>
          dsimp only
          rw [hpoint, Bool.false_and, if_neg Bool.false_ne_true]
          rfl
      | cons dot front =>
        cases front with
        | nil =>
          by_cases hdot : dot.isPunct '.' && g.isName
          · refine .inr fun back => ⟨(g.name, back), ?_, List.suffix_refl _⟩
            simp only [List.cons_append, List.nil_append, qualifiedName, ht, hdot, if_true]
          · refine .inl ⟨some (t.name, [dot]), fun back => ?_⟩
            simp only [List.cons_append, List.nil_append, qualifiedName, ht, hdot, if_true]
            rfl
        | cons u front =>
          left
          by_cases hdot : dot.isPunct '.' && u.isName
          · refine ⟨some (u.name, front), fun back => ?_⟩
            simp only [List.cons_append, qualifiedName, ht, hdot, if_true]
            rfl
          · refine ⟨some (t.name, dot :: u :: front), fun back => ?_⟩
            simp only [List.cons_append, qualifiedName, ht, hdot, if_true]
            rfl
    · refine .inl ⟨none, fun back => ?_⟩
      rw [List.cons_append, qualifiedName.eq_def]
      dsimp only
      rw [if_neg ht]
      rfl

theorem skipWord_upTo {keywords : List String} (hg : g.isOneOf keywords = false)
    (front : List Token) :
    ∃ r, ∀ back, skipWord keywords (front ++ g :: back) = r ++ g :: back := by
  cases front with
  | nil =>
    refine ⟨[], fun back => ?_⟩
    rw [List.nil_append, skipWord, hg]
    rfl
  | cons t front =>
    by_cases ht : t.isOneOf keywords
    · exact ⟨front, fun back => if_pos ht⟩
    · exact ⟨t :: front, fun back => if_neg ht⟩

theorem skipReplace_upTo (hg : g.isOneOf ["or", "replace"] = false) (front : List Token) :
    ∃ r, ∀ back, skipReplace (front ++ g :: back) = r ++ g :: back := by
  have hor : g.isWord "or" = false := Token.not_isOneOf_iff.mp hg "or" (by simp)
  have hreplace : g.isWord "replace" = false := Token.not_isOneOf_iff.mp hg "replace" (by simp)
  cases front with
  | nil =>
    refine ⟨[], fun back => ?_⟩
    cases back with
    | nil => rfl
    | cons u back => rw [List.nil_append, skipReplace, hor]; rfl
  | cons t front =>
    cases front with
    | nil =>
      refine ⟨[t], fun back => ?_⟩
      rw [List.singleton_append, skipReplace, hreplace, Bool.and_false]
      rfl
    | cons u front =>
      by_cases htu : t.isWord "or" && u.isWord "replace"
      · exact ⟨front, fun back => if_pos htu⟩
      · exact ⟨t :: u :: front, fun back => if_neg htu⟩

theorem skipCreate_upTo (hg : g.isWord "begin") (front : List Token) :
    ∃ r, ∀ back, skipCreate (front ++ g :: back) = r ++ g :: back := by
  have hnot {keywords : List String} (h : (keywords.any fun k => Text.sameName "begin" k) = false) :=
    Token.not_isOneOf_of_isWord hg h
  cases front with
  | nil =>
    refine ⟨[], fun back => if_neg ?_⟩
    rw [Token.not_isWord_of_isWord hg (by decide)]
    exact Bool.false_ne_true
  | cons t front =>
    by_cases ht : t.isWord "create"
    · obtain ⟨r, hr⟩ := skipReplace_upTo (hnot (by decide)) front
      have hedition : g.isOneOf ["editionable", "noneditionable"] = false := hnot (by decide)
      obtain ⟨q, hq⟩ := skipWord_upTo hedition r
      refine ⟨q, fun back => ?_⟩
      rw [List.cons_append, skipCreate, if_pos ht, hr, hq]
    · exact ⟨t :: front, fun back => if_neg ht⟩

theorem unitKind_upTo (hg : g.isWord "begin") (front : List Token) :
    ∃ o : Option (Symbol.Kind × List Token), ∀ back,
      unitKind (front ++ g :: back) = o.map fun p => (p.1, p.2 ++ g :: back) := by
  have hnot {keyword : String} (h : Text.sameName "begin" keyword = false) :=
    Token.not_isWord_of_isWord hg h
  cases front with
  | nil =>
    refine ⟨none, fun back => ?_⟩
    rw [List.nil_append, unitKind.eq_def]
    dsimp only
    rw [hnot (by decide), hnot (by decide), hnot (by decide)]
    rfl
  | cons t front =>
    by_cases hfunction : t.isWord "function"
    · exact ⟨some (.function .body, front), fun back => if_pos hfunction⟩
    by_cases hprocedure : t.isWord "procedure"
    · exact ⟨some (.procedure .body, front), fun back =>
        (if_neg hfunction).trans (if_pos hprocedure)⟩
    by_cases hpackage : t.isWord "package"
    · have hopen (u : Token) (after : List Token) : unitKind (t :: u :: after) =
          if u.isWord "body" then some (.package .body, after)
          else some (.package .spec, u :: after) :=
        (if_neg hfunction).trans ((if_neg hprocedure).trans (if_pos hpackage))
      cases front with
      | nil =>
        refine ⟨some (.package .spec, []), fun back => ?_⟩
        rw [List.singleton_append, hopen, hnot (by decide)]
        rfl
      | cons u front =>
        by_cases hu : u.isWord "body"
        · exact ⟨some (.package .body, front), fun back => (hopen u _).trans (if_pos hu)⟩
        · exact ⟨some (.package .spec, u :: front), fun back => (hopen u _).trans (if_neg hu)⟩
    · exact ⟨none, fun back =>
        (if_neg hfunction).trans ((if_neg hprocedure).trans (if_neg hpackage))⟩

theorem ofUnit?_upTo (hg : g.isWord "begin") (front : List Token) :
    (∃ o : Option Header, ∀ back, ofUnit? (front ++ g :: back) = o.map (·.before (g :: back))) ∨
      ∀ back, ∃ h, ofUnit? (front ++ g :: back) = some h ∧ h.rest <:+ back := by
  have hfirst (back : List Token) : (front ++ g :: back).head? = some (front.head?.getD g) := by
    cases front <;> rfl
  obtain ⟨r, hr⟩ := skipCreate_upTo hg front
  obtain ⟨o, ho⟩ := unitKind_upTo hg r
  have hunit (back : List Token) : ofUnit? (front ++ g :: back) =
      (o.map fun p => (p.1, p.2 ++ g :: back)).bind fun p =>
        (qualifiedName p.2).bind fun q => some ⟨front.head?.getD g, p.1, q.1, q.2⟩ := by
    rw [ofUnit?, hfirst, hr, ho]
    rfl
  cases o with
  | none => exact .inl ⟨none, hunit⟩
  | some p =>
    rcases qualifiedName_upTo (Token.isName_of_isWord hg) p.2 with ⟨o, ho⟩ | hpast
    · left
      refine ⟨o.map fun q => ⟨front.head?.getD g, p.1, q.1, q.2⟩, fun back => ?_⟩
      rw [hunit, Option.map_some, Option.bind_some, ho]
      cases o <;> rfl
    · right
      intro back
      obtain ⟨q, hq, hsuffix⟩ := hpast back
      exact ⟨⟨_, p.1, q.1, q.2⟩, by rw [hunit, Option.map_some, Option.bind_some, hq]; rfl, hsuffix⟩

/-- How a header ends, by what comes behind `g`. -/
inductive EndsUpTo (g : Token) (found : List Token → End) : Prop
  | semicolon (t r) : (∀ back, found back = .semicolon (t :: (r ++ g :: back))) → EndsUpTo g found
  | body (t r) : (∀ back, found back = .body (t :: (r ++ g :: back))) → EndsUpTo g found
  | cut (r afterDollar) : (∀ back, found back = .cut (r ++ g :: back) afterDollar) → EndsUpTo g found
  | past : (∀ back, (found back).tokens <:+ back) → EndsUpTo g found

theorem findEnd_upTo (hg : g.isWord "begin") (depth : Nat) (a : Bool) (front : List Token) :
    EndsUpTo g fun back => findEnd depth a (front ++ g :: back) := by
  induction front generalizing depth a with
  | nil =>
    have hpunct (c : Char) : g.isPunct c = false :=
      Token.not_isPunct_of_isName (Token.isName_of_isWord hg)
    have hbody : g.isOneOf ["is", "as"] = false := Token.not_isOneOf_of_isWord hg (by decide)
    by_cases hdepth : depth = 0
    · refine .cut [] a fun back => ?_
      rw [List.nil_append, findEnd, hpunct, hpunct, hbody, hdepth, if_neg Bool.false_ne_true,
        if_neg Bool.false_ne_true, if_neg (Nat.lt_irrefl 0), hpunct, if_neg Bool.false_ne_true,
        if_neg Bool.false_ne_true,
        if_pos (Token.isOneOf_iff.mpr ⟨"begin", by decide, hg⟩)]
    · refine .past fun back => ?_
      rw [List.nil_append, findEnd, hpunct, hpunct, if_neg Bool.false_ne_true,
        if_neg Bool.false_ne_true, if_pos (Nat.pos_of_ne_zero hdepth)]
      exact findEnd_suffix _ _ back
  | cons t front ih =>
    simp only [List.cons_append, findEnd]
    split
    · exact ih _ _
    split
    · exact ih _ _
    split
    · exact ih _ _
    split
    · exact .semicolon t front fun _ => rfl
    split
    · exact .body t front fun _ => rfl
    split
    · exact .cut (t :: front) a fun _ => rfl
    · exact ih _ _

end Header

namespace Unexpected

theorem afterDirective_upTo (hg : g.isName) {keyword : String} (hk : g.isWord keyword = false)
    (front : List Token) : LeavesUpTo g b fun back => afterDirective keyword (front ++ g :: back) := by
  induction front with
  | nil =>
    refine .inr fun back _ => ?_
    dsimp only
    rw [List.nil_append, afterDirective, Token.not_isPunct_of_isName hg, Bool.false_and,
      if_neg Bool.false_ne_true]
    exact afterDirective_suffix keyword back
  | cons t front ih =>
    cases front with
    | nil =>
      simp only [List.cons_append, List.nil_append, afterDirective_cons, hk, Bool.and_false,
        Bool.false_eq_true, if_false]
      exact ih
    | cons u front =>
      simp only [List.cons_append, afterDirective_cons]
      split
      · exact .inl ⟨front, fun _ _ => rfl⟩
      · exact ih

theorem afterStatement_upTo (hg : g.isWord "begin") (a : Bool) (front : List Token) :
    LeavesUpTo g b fun back => afterStatement a (front ++ g :: back) := by
  induction front generalizing a with
  | nil =>
    have hsemicolon : g.isPunct ';' = false := Token.not_isPunct_of_isName (Token.isName_of_isWord hg)
    have hstop : g.isOneOf ["begin", "end", "create"] :=
      Token.isOneOf_iff.mpr ⟨"begin", by decide, hg⟩
    simp only [List.nil_append, afterStatement, hsemicolon, hstop, Bool.and_true,
      Bool.false_eq_true, if_false]
    split
    · exact .inl ⟨[], fun _ _ => rfl⟩
    · exact .inr fun back _ => afterStatement_suffix _ back
  | cons t front ih =>
    simp only [List.cons_append, afterStatement]
    split
    · exact .inl ⟨front, fun _ _ => rfl⟩
    split
    · exact .inl ⟨t :: front, fun _ _ => rfl⟩
    · exact ih _

theorem skip_upTo (hg : g.isWord "begin") (t : Token) (front : List Token) :
    LeavesUpTo g b fun back => skip t (front ++ g :: back) := by
  have hname := Token.isName_of_isWord hg
  have hnot {keyword : String} (h : Text.sameName "begin" keyword = false) :=
    Token.not_isWord_of_isWord hg h
  have hstatement := afterStatement_upTo hg (b := b) (t.isPunct '$') front
  cases front with
  | nil =>
    have hif : g.isOneOf ["if", "elsif"] = false := Token.not_isOneOf_of_isWord hg (by decide)
    have herror : g.isWord "error" = false := hnot (by decide)
    simp only [List.nil_append, skip, hif, herror, Bool.false_eq_true, if_false]
    split
    · exact .inr fun back _ => List.suffix_refl back
    · exact hstatement
  | cons w front =>
    simp only [List.cons_append, skip]
    split
    · split
      · exact afterDirective_upTo hname (hnot (by decide)) front
      split
      · exact afterDirective_upTo hname (hnot (by decide)) front
      · exact .inl ⟨front, fun _ _ => rfl⟩
    · exact hstatement

end Unexpected

namespace Extent

/-- Where a block closes, by what comes behind `g`. -/
def ClosesUpTo (g : Token) (b : Bool) (found : List Token → Option Extent) : Prop :=
  (∃ e : Extent, ∀ back, Follows b back → found back = some (e.before (g :: back))) ∨
    ∀ back, Follows b back → ∀ e ∈ found back, e.rest <:+ back

theorem ofEnd_upTo (hg : g.isName) (last : Token) (front : List Token) :
    ClosesUpTo g b fun back => some (ofEnd last (front ++ g :: back)) := by
  have hsemicolon : g.isPunct ';' = false := Token.not_isPunct_of_isName hg
  cases front with
  | nil =>
    cases b with
    | true =>
      right
      rintro back hback _ ⟨⟩
      cases back with
      | nil => cases hback
      | cons u back =>
        have hu : u.isPunct ';' := hback
        simp only [List.nil_append, ofEnd, hsemicolon, hg, hu, Bool.and_self, Bool.false_eq_true,
          if_false, if_true]
        exact List.suffix_cons u back
    | false =>
      refine .inl ⟨⟨last.stop, []⟩, fun back hback => ?_⟩
      cases back with
      | nil => simp only [List.nil_append, ofEnd, hsemicolon, Bool.false_eq_true, if_false, before]
      | cons u back =>
        have hu : u.isPunct ';' = false := hback
        simp only [List.nil_append, ofEnd, hsemicolon, hu, Bool.and_false, Bool.false_eq_true,
          if_false, before]
  | cons t front =>
    left
    by_cases ht : t.isPunct ';'
    · refine ⟨⟨t.stop, front⟩, fun back _ => ?_⟩
      simp only [List.cons_append, ofEnd, ht, if_true, before]
    · cases front with
      | nil =>
        refine ⟨⟨last.stop, [t]⟩, fun back _ => ?_⟩
        simp only [List.cons_append, List.nil_append, ofEnd, ht, hsemicolon, Bool.and_false,
          Bool.false_eq_true, if_false, before]
      | cons u front =>
        by_cases hu : t.isName && u.isPunct ';'
        · refine ⟨⟨u.stop, front⟩, fun back _ => ?_⟩
          simp only [List.cons_append, ofEnd, ht, hu, Bool.false_eq_true, if_false, if_true, before]
        · refine ⟨⟨last.stop, t :: u :: front⟩, fun back _ => ?_⟩
          simp only [List.cons_append, ofEnd, ht, hu, Bool.false_eq_true, if_false, before]

theorem bare_of_begin {ts : List Token} (hg : g.isWord "begin") : Bare (g :: ts) := by
  rintro _ ⟨⟩
  exact Token.not_isOneOf_of_isWord hg (by decide)

theorem find_upTo (hg : g.isWord "begin") (inner : Nat) (a : Bool) (front : List Token) :
    ClosesUpTo g b fun back => find inner a (front ++ g :: back) := by
  have hname := Token.isName_of_isWord hg
  have hkind : g.isOneOf ["if", "loop"] = false := Token.not_isOneOf_of_isWord hg (by decide)
  have hcase : g.isWord "case" = false := Token.not_isWord_of_isWord hg (by decide)
  have past (n : Nat) (a : Bool) (back : List Token) : ∀ e ∈ find n a (g :: back), e.rest <:+ back := by
    rw [find_opening (Token.isOneOf_iff.mpr ⟨"begin", by decide, hg⟩)]
    exact fun e he => Scan.find_suffix he
  fun_induction find inner a front with
  | case1 inner a => exact .inr fun back _ => past inner a back
  | case2 inner a t front ht ih =>
    simp only [List.cons_append]
    simp only [find_opening ht]
    exact ih
  | case3 inner a t front ht ha ih =>
    have hfind (back : List Token) : find inner a (t :: (front ++ g :: back)) =
        find inner (t.isPunct '$') (front ++ g :: back) := by
      rw [find.eq_def]
      dsimp only
      rw [if_neg ht, if_pos ha]
    simp only [List.cons_append, hfind]
    exact ih
  | case4 a t ht ha =>
    obtain ⟨hend, rfl⟩ := end_of_counted ha
    have hfind (back : List Token) : find 0 false (t :: g :: back) = some (ofEnd t (g :: back)) := by
      rw [find.eq_def]
      dsimp only
      rw [if_neg ht, if_neg ha, hkind, hcase]
      rfl
    simp only [List.singleton_append, hfind]
    exact ofEnd_upTo hname t []
  | case5 inner a t ht ha hinner =>
    obtain ⟨hend, rfl⟩ := end_of_counted ha
    obtain ⟨n, rfl⟩ := Nat.exists_eq_succ_of_ne_zero hinner
    refine .inr fun back _ => ?_
    dsimp only
    rw [List.singleton_append, find_close hend (bare_of_begin hg)]
    exact past n false back
  | case6 inner a t ht ha u front hu ih =>
    obtain ⟨hend, rfl⟩ := end_of_counted ha
    simp only [List.cons_append, find_unopened hend hu]
    exact ih
  | case7 a t ht ha u front hu hcase =>
    have hfind (back : List Token) : find 0 a (t :: u :: (front ++ g :: back)) =
        some (ofEnd u (front ++ g :: back)) := by
      rw [find.eq_def]
      dsimp only
      rw [if_neg ht, if_neg ha, if_neg hu, if_pos hcase]
    simp only [List.cons_append, hfind]
    exact ofEnd_upTo hname u front
  | case8 a t ht ha u front hu hcase n ih =>
    obtain ⟨hend, rfl⟩ := end_of_counted ha
    simp only [List.cons_append, find_endCase hend hcase]
    exact ih
  | case9 a t ht ha u front hu hcase =>
    have hfind (back : List Token) : find 0 a (t :: u :: (front ++ g :: back)) =
        some (ofEnd t (u :: (front ++ g :: back))) := by
      rw [find.eq_def]
      dsimp only
      rw [if_neg ht, if_neg ha, if_neg hu, if_neg hcase]
    simp only [List.cons_append, hfind]
    exact ofEnd_upTo hname t (u :: front)
  | case10 a t ht ha u front hu hcase n ih =>
    have hfind (back : List Token) : find (n + 1) a (t :: u :: (front ++ g :: back)) =
        find n false (u :: (front ++ g :: back)) := by
      rw [find.eq_def]
      dsimp only
      rw [if_neg ht, if_neg ha, if_neg hu, if_neg hcase]
    simp only [List.cons_append, hfind]
    exact ih

end Extent

namespace Scan

variable {s : Scan} {scope : Scope} {outer : List Scope}

/-- How a scan goes on, by what comes behind `g`: in the same way up to `g`, or past `g`. -/
def StepsUpTo (g : Token) (b : Bool) (next : List Token → Scan) : Prop :=
  (∃ s' : Scan, ∀ back, Follows b back → next back = s'.before (g :: back)) ∨
    ∀ back, Follows b back → (next back).rest <:+ back

theorem fromSemicolon_upTo (hg : g.isName) (front : List Token) :
    (∃ t r, ∀ back, fromSemicolon (front ++ g :: back) = t :: (r ++ g :: back)) ∨
      ∀ back, (fromSemicolon (front ++ g :: back)).tail <:+ back := by
  induction front with
  | nil =>
    refine .inr fun back => ?_
    rw [List.nil_append, fromSemicolon, List.dropWhile_cons, Token.not_isPunct_of_isName hg]
    exact tail_fromSemicolon_suffix back
  | cons t front ih =>
    simp only [fromSemicolon, List.cons_append, List.dropWhile_cons] at ih ⊢
    split
    · exact ih
    · exact .inl ⟨t, front, fun _ => rfl⟩

theorem head?_upTo (r back : List Token) : (r ++ g :: back).head? = some (r.head?.getD g) := by
  cases r <;> rfl

/-- Of the tokens that stop a declaration, its symbol shows the first. -/
theorem symbolOf_upTo (kind : Symbol.Kind) (name : String) (r back more : List Token) :
    (s.before more).symbolOf text t kind name (r ++ g :: back) =
      s.symbolOf text t kind name [r.head?.getD g] := by
  cases r <;> rfl

theorem declare_upTo (hg : g.isName) (kind : Symbol.Kind) (name : String) (front : List Token) :
    StepsUpTo g b fun back =>
      (s.before (g :: back)).declare text scope t kind name (front ++ g :: back) := by
  rcases fromSemicolon_upTo hg front with ⟨u, r, hstop⟩ | hpast
  · refine .inl ⟨(s.record scope.symbol.isSome (s.symbolOf text t kind name [u])).goOn r false,
      fun back _ => ?_⟩
    dsimp only
    rw [declare, hstop, before_record]
    rfl
  · exact .inr fun back _ => hpast back

theorem stepOver_upTo (hg : g.isWord "begin") (front : List Token) :
    StepsUpTo g b fun back => (s.before (g :: back)).stepOver t (front ++ g :: back) := by
  rcases Unexpected.skip_upTo hg (b := b) t front with ⟨r, hr⟩ | hpast
  · refine .inl ⟨(s.report .unexpectedToken t.start).goOn r false, fun back hback => ?_⟩
    have hskip : Unexpected.skip t (front ++ g :: back) = r ++ g :: back := hr back hback
    dsimp only
    rw [stepOver, hskip]
    rfl
  · exact .inr hpast

theorem leaveAt_upTo {found : List Token → Option Extent} (h : Extent.ClosesUpTo g b found) :
    StepsUpTo g b fun back => (s.before (g :: back)).leaveAt text scope outer (found back) := by
  rcases h with ⟨e, he⟩ | hpast
  · refine .inl ⟨(s.leave scope outer e.stop).goOn e.rest false, fun back hback => ?_⟩
    dsimp only
    rw [he back hback, leaveAt, before_leave]
    rfl
  · refine .inr fun back hback => ?_
    have hsuffix := hpast back hback
    dsimp only
    cases hfound : found back with
    | none => exact List.nil_suffix
    | some e => exact hsuffix e hfound

/-- What is left behind a header comes after the token that ends it. -/
theorem enter_suffix (recording : Bool) (h : Header) :
    (s.enter text recording h).rest <:+ (Header.findEnd 0 false h.rest).tokens := by
  rw [enter]
  split
  · next ts he =>
    rw [he]
    exact List.tail_suffix ts
  · next ts a he =>
    rw [he]
    dsimp only
    split <;> exact List.suffix_refl ts
  · next ts he =>
    rw [he]
    dsimp only
    split
    · exact (tail_fromSemicolon_suffix _).trans (List.tail_suffix ts)
    · exact List.tail_suffix ts

theorem enter_upTo (hg : g.isWord "begin") (recording : Bool) (h : Header) :
    StepsUpTo g b fun back =>
      (s.before (g :: back)).enter text recording (h.before (g :: back)) := by
  have hname := Token.isName_of_isWord hg
  cases Header.findEnd_upTo hg 0 false h.rest with
  | semicolon t r hend =>
    left
    refine ⟨(s.record recording (s.symbolOf text h.first
      (if !s.scopes.isEmpty then h.kind.counterpart else h.kind) h.name [t])).goOn r false,
      fun back _ => ?_⟩
    refine (enter_of_semicolon (hend back)).trans ?_
    rw [before_record]
    rfl
  | cut r a hend =>
    left
    have hsymbol (kind : Symbol.Kind) (back : List Token) :
        (s.before (g :: back)).symbolOf text h.first kind h.name (r ++ g :: back) =
          s.symbolOf text h.first kind h.name [r.head?.getD g] :=
      symbolOf_upTo kind h.name r back (g :: back)
    by_cases hnested : !s.scopes.isEmpty
    · refine ⟨(s.record recording
        (s.symbolOf text h.first h.kind.counterpart h.name [r.head?.getD g])).goOn r a, fun back _ => ?_⟩
      refine (enter_of_cut (hend back)).trans ((if_pos hnested).trans ?_)
      rw [before_record]
      exact congrArg (fun x => ((s.record recording x).before (g :: back)).goOn (r ++ g :: back) a)
        (hsymbol _ back)
    · refine ⟨((s.record recording
        (s.symbolOf text h.first h.kind h.name [r.head?.getD g])).goOn r a).report .missingBody
          h.first.start, fun back _ => ?_⟩
      refine (enter_of_cut (hend back)).trans ((if_neg hnested).trans ?_)
      rw [before_record]
      exact congrArg (fun x => (((s.record recording x).before (g :: back)).goOn (r ++ g :: back)
        a).report .missingBody h.first.start) (hsymbol _ back)
  | body t r hend =>
    have hhead (back : List Token) : (r ++ g :: back).head?.any (·.isOneOf ["language", "external"]) =
        (r.head?.getD g).isOneOf ["language", "external"] := by
      rw [head?_upTo]
      rfl
    let opened := s.record recording (s.symbolOf text h.first h.kind h.name [t])
    let symbol := if recording then some s.symbols.size else none
    by_cases hlanguage : (r.head?.getD g).isOneOf ["language", "external"]
    · have hend (back : List Token) : Header.findEnd 0 false (h.before (g :: back)).rest =
        .body (t :: (r ++ g :: back)) := hend back
      rcases fromSemicolon_upTo hname r with ⟨u, q, hstop⟩ | hpast
      · refine .inl ⟨(opened.setStop symbol u.stop).goOn q false, fun back _ => ?_⟩
        dsimp only
        rw [enter_of_body (hend back), List.tail_cons, if_pos ((hhead back).trans hlanguage), hstop,
          before_record, before_setStop]
        rfl
      · refine .inr fun back _ => ?_
        dsimp only
        rw [enter_of_body (hend back), List.tail_cons, if_pos ((hhead back).trans hlanguage)]
        exact hpast back
    · refine .inl ⟨{ opened with
        rest := r
        afterDollar := false
        scopes := ⟨if h.kind = .package .spec then .spec else .body, symbol⟩ :: s.scopes },
        fun back _ => ?_⟩
      refine (enter_of_body (hend back)).trans ((if_neg ?_).trans ?_)
      · rw [List.tail_cons, hhead]
        exact hlanguage
      · rw [before_record]
        rfl
  | past hend => exact .inr fun back _ => (enter_suffix recording _).trans (hend back)

theorem leaveAt_suffix {ts : List Token} {e : Option Extent} (h : ∀ x ∈ e, x.rest <:+ ts) :
    (s.leaveAt text scope outer e).rest <:+ ts := by
  cases e with
  | none => exact List.nil_suffix
  | some x => exact h x rfl

theorem goOn_upTo (a : Bool) (front : List Token) :
    StepsUpTo g b fun back => (s.before (g :: back)).goOn (front ++ g :: back) a :=
  .inl ⟨s.goOn front a, fun _ _ => rfl⟩

/-- One step in a scope: the same up to `g` whatever comes behind it, or past `g`. -/
theorem stepIn_upTo (hg : g.isWord "begin") :
    StepsUpTo g b fun back => (s.before (g :: back)).stepIn text scope outer := by
  have hname := Token.isName_of_isWord hg
  have hpunct : g.isPunct ';' = false := Token.not_isPunct_of_isName hname
  cases hrest : s.rest with
  | nil =>
    refine .inr fun back _ => ?_
    dsimp only
    rw [stepIn, before_rest, hrest, List.nil_append]
    dsimp only
    rw [hpunct, hname, Written.lead_begin hg]
    exact leaveAt_suffix fun x hx => find_suffix hx
  | cons t front =>
    have hover := stepOver_upTo hg (b := b) (s := s) (t := t) front
    have hdeclare (kind : Symbol.Kind) (name : String) (us : List Token) : StepsUpTo g b fun back =>
        (s.before (g :: back)).declare text scope t kind name (us ++ g :: back) :=
      declare_upTo hname kind name us
    simp only [stepIn, before_rest, hrest, List.cons_append]
    split
    · exact goOn_upTo false front
    split
    · exact hover
    cases hlead : Lead.of t with
    | begin => exact leaveAt_upTo (Extent.find_upTo hg 0 false front)
    | finish => exact leaveAt_upTo (Extent.find_upTo hg 0 s.afterDollar (t :: front))
    | create =>
      refine .inl ⟨(s.leave scope outer t.start).report .unclosedBlock t.start, fun back _ => ?_⟩
      dsimp only
      rw [before_leave]
      rfl
    | pragma =>
      rcases fromSemicolon_upTo hname front with ⟨u, r, hstop⟩ | hpast
      · simp only [hstop, List.tail_cons]
        exact goOn_upTo false r
      · exact .inr fun back _ => hpast back
    | routine kind =>
      rcases Header.qualifiedName_upTo hname front with ⟨o, ho⟩ | hpast
      · cases o with
        | none =>
          simp only [ho, Option.map_none]
          exact hover
        | some p =>
          simp only [ho, Option.map_some]
          cases scope.flavour with
          | spec => exact hdeclare _ _ _
          | body => exact enter_upTo hg _ ⟨t, kind .body, p.1, p.2⟩
      · refine .inr fun back _ => ?_
        obtain ⟨p, hp, hsuffix⟩ := hpast back
        simp only [hp]
        split
        · exact (tail_fromSemicolon_suffix p.2).trans hsuffix
        · exact ((enter_suffix _ _).trans (Header.findEnd_suffix 0 false p.2)).trans hsuffix
    | named kind =>
      cases front with
      | nil =>
        refine .inr fun back _ => ?_
        simp only [List.nil_append, hname, if_true]
        exact tail_fromSemicolon_suffix back
      | cons u front =>
        simp only [List.cons_append]
        split
        · exact hdeclare _ _ _
        · exact hover
    | other =>
      simp only [head?_upTo, Option.any_some]
      exact hdeclare _ _ _

theorem stepOut_upTo (hg : g.isWord "begin") :
    StepsUpTo g b fun back => (s.before (g :: back)).stepOut text := by
  simp only [stepOut, before_rest]
  rcases Header.ofUnit?_upTo hg s.rest with ⟨o, ho⟩ | hpast
  · simp only [ho]
    cases o with
    | none =>
      cases hrest : s.rest with
      | nil => exact .inr fun back _ => List.suffix_refl back
      | cons t front => exact goOn_upTo (t.isPunct '$') front
    | some h => exact enter_upTo hg true h
  · refine .inr fun back _ => ?_
    obtain ⟨h, hu, hsuffix⟩ := hpast back
    simp only [hu]
    exact ((enter_suffix true h).trans (Header.findEnd_suffix 0 false h.rest)).trans hsuffix

/-- Until a scan reads a `begin`, it does the same whatever comes behind it. -/
theorem step_upTo (hg : g.isWord "begin") (b : Bool) (text : List Char) (s : Scan) :
    (∃ s' : Scan, ∀ back, Follows b back →
      (s.before (g :: back)).step text = s'.before (g :: back)) ∨
    ∀ back, Follows b back → ((s.before (g :: back)).step text).rest <:+ back := by
  change StepsUpTo g b fun back => (s.before (g :: back)).step text
  cases hs : s.scopes with
  | nil =>
    have hstep (back : List Token) : (s.before (g :: back)).step text =
        (s.before (g :: back)).stepOut text := by
      rw [step, before_scopes, hs]
    simp only [hstep]
    exact stepOut_upTo hg
  | cons scope outer =>
    have hstep (back : List Token) : (s.before (g :: back)).step text =
        (s.before (g :: back)).stepIn text scope outer := by
      rw [step, before_scopes, hs]
    simp only [hstep]
    exact stepIn_upTo hg

section Reaches
variable {text' : List Char} {c : Correspondence text text'} {g' : Token}
  {lead lead' near near' back back' : List Token}

/-- Two texts that correspond up to a `begin` and a little further, but not behind that. A scan of the
one that comes to the `begin` takes a scan of the other along. -/
theorem Reaches.upTo (hg : g.isWord "begin") (htoken : c.token g g')
    (hlead : List.Forall₂ c.token lead lead') (hnear : List.Forall₂ c.token near near')
    (hb : Follows b near) (hback : Follows b back) (hback' : Follows b back')
    (h : Reaches text (ofTokens (lead ++ g :: back)) s) (hleft : g :: back <:+ s.rest) :
    ∃ σ σ' : Scan, s = σ.before (g :: back) ∧
      Reaches text' (ofTokens (lead' ++ g' :: back')) (σ'.before (g' :: back')) ∧
        c.Related [] [] (σ.before (g :: near)) (σ'.before (g' :: near')) := by
  have hg' : g'.isWord "begin" := by rwa [← (c.alike htoken).isWord]
  have hb' : Follows b near' := by
    rw [Follows, ← any_head_alike c.alike hnear fun htu => htu.isPunct ';']
    exact hb
  induction h with
  | refl =>
    refine ⟨ofTokens lead, ofTokens lead', rfl, .refl, ?_, fun _ => rfl, rfl, ⟨[], rfl, .nil⟩,
      ⟨[], rfl, .nil⟩⟩
    exact List.rel_append hlead (.cons htoken hnear)
  | @step s₁ _ ih =>
    obtain ⟨σ, σ', rfl, hreaches, hrelated⟩ := ih (hleft.trans (step_suffix text s₁))
    rcases step_upTo hg b text σ with ⟨τ, hτ⟩ | hpast
    · rcases step_upTo hg' b text' σ' with ⟨τ', hτ'⟩ | hpast
      · have hstep := hrelated.step
        rw [hτ near hb, hτ' near' hb'] at hstep
        refine ⟨τ, τ', hτ back hback, ?_, hstep⟩
        rw [← hτ' back' hback']
        exact hreaches.step
      · -- The one scan would pass its `begin` where the other one does not.
        have hrest := hrelated.step.rest.length_eq
        have hlength := (hpast near' hb').length_le
        rw [hτ near hb, before_rest, List.length_append, List.length_cons, hnear.length_eq] at hrest
        omega
    · have hlength := (hleft.trans (hpast back hback)).length_le
      rw [List.length_cons] at hlength
      omega

/-- Where the one scan comes to the `begin`, the other one does. -/
theorem Reaches.toBegin (hg : g.isWord "begin") (htoken : c.token g g')
    (hlead : List.Forall₂ c.token lead lead') (hnear : List.Forall₂ c.token near near')
    (hb : Follows b near) (hback : Follows b back) (hback' : Follows b back')
    (h : Reaches text (ofTokens (lead ++ g :: back)) s) (hrest : s.rest = g :: back) :
    ∃ s', Reaches text' (ofTokens (lead' ++ g' :: back')) s' ∧ s'.rest = g' :: back' ∧
      c.Related [] [] { s with rest := g :: near } { s' with rest := g' :: near' } := by
  obtain ⟨σ, σ', rfl, hreaches, hrelated⟩ :=
    h.upTo hg htoken hlead hnear hb hback hback' (hrest ▸ List.suffix_refl _)
  have hσ : σ.rest = [] := by simpa using hrest
  have hσ' : σ'.rest = [] := by
    have hlength := hrelated.rest.length_eq
    rw [before_rest, before_rest, hσ, List.nil_append, List.length_append, List.length_cons,
      List.length_cons, hnear.length_eq] at hlength
    exact List.eq_nil_of_length_eq_zero (by omega)
  refine ⟨_, hreaches, by rw [before_rest, hσ', List.nil_append], ?_⟩
  rw [before, before, hσ, hσ'] at hrelated
  exact hrelated

end Reaches

end Scan

end PlsqlNav
