import PlsqlNav.Proofs.Outline.Excerpt
import PlsqlNav.Proofs.Outline.Passing
import PlsqlNav.Proofs.Written.Advance

/-! The `end` of a directive of conditional compilation comes right after a dollar sign. It closes no
block, and nothing that is stepped over stops there; but a header does, and with it the declarations
that the routine stands among. -/
namespace PlsqlNav

variable {t u d e : Token} {ts us r rest front before after : List Token} {a : Bool}

/-- What a reader leaves of `ts` is nothing, or comes right after a token that is no dollar sign. -/
def LeavesPlain (ts r : List Token) : Prop :=
  r = [] ∨ ∃ front u, ts = front ++ u :: r ∧ u.isPunct '$' = false

theorem leavesPlain_nil (ts : List Token) : LeavesPlain ts [] := .inl rfl

theorem leavesPlain_tail (h : t.isPunct '$' = false) : LeavesPlain (t :: r) r :=
  .inr ⟨[], t, rfl, h⟩

theorem LeavesPlain.mono (h : LeavesPlain us r) (hs : us <:+ ts) : LeavesPlain ts r := by
  obtain ⟨lead, rfl⟩ := hs
  rcases h with h | ⟨front, u, rfl, hu⟩
  · exact .inl h
  · exact .inr ⟨lead ++ front, u, (List.append_assoc ..).symm, hu⟩

/-- So it never is what comes after a dollar sign. -/
theorem LeavesPlain.ne (h : LeavesPlain ts r) (hs : ts <:+ before ++ d :: e :: after)
    (hd : d.isPunct '$') : r ≠ e :: after := by
  rintro rfl
  rcases h.mono hs with hnil | ⟨front, u, heq, hu⟩
  · contradiction
  · have heq : before ++ [d] ++ e :: after = front ++ [u] ++ e :: after := by
      rw [List.append_assoc, List.append_assoc]
      exact heq
    have hdu : d = u := List.singleton_inj.mp (List.append_inj_right' (List.append_cancel_right heq) rfl)
    rw [← hdu, hd] at hu
    contradiction

theorem Token.stopsDefinition_plain (h : t.stopsDefinition) : t.isPunct '$' = false := by
  rw [stopsDefinition, Bool.or_eq_true, Bool.or_eq_true] at h
  rcases h with (h | h) | h
  · exact not_isPunct_of_isPunct h (by decide)
  · exact not_isPunct_of_isName (isName_of_isOneOf h)
  · exact not_isPunct_of_isName (isName_of_isOneOf h)

namespace Header

/-- How many parentheses are open behind the tokens. -/
def depthAfter (depth : Nat) : List Token → Nat
  | [] => depth
  | t :: rest =>
    if t.isPunct '(' then depthAfter (depth + 1) rest
    else if t.isPunct ')' then depthAfter (depth - 1) rest
    else depthAfter depth rest

/-- A header goes on behind tokens in which it does not end. -/
theorem findEnd_front {depth : Nat} {a' : Bool} (h : findEnd depth a front = .cut [] a')
    (more : List Token) :
    findEnd depth a (front ++ more) = findEnd (depthAfter depth front) a' more := by
  fun_induction findEnd depth a front with
  | case1 =>
    cases h
    rfl
  | case2 depth a t front hopen ih =>
    rw [List.cons_append, findEnd, depthAfter, if_pos hopen, if_pos hopen, ih h]
  | case3 depth a t front hopen hclose ih =>
    rw [List.cons_append, findEnd, depthAfter, if_neg hopen, if_neg hopen, if_pos hclose,
      if_pos hclose, ih h]
  | case4 depth a t front hopen hclose hdepth ih =>
    rw [List.cons_append, findEnd, depthAfter, if_neg hopen, if_neg hopen, if_neg hclose,
      if_neg hclose, if_pos hdepth, ih h]
  | case5 | case6 | case7 => cases h
  | case8 depth a t front hopen hclose hdepth hsemicolon hbody hstop ih =>
    rw [List.cons_append, findEnd, depthAfter, if_neg hopen, if_neg hopen, if_neg hclose,
      if_neg hclose, if_neg hdepth, if_neg hsemicolon, if_neg hbody, if_neg hstop, ih h]

/-- Outside parentheses a header breaks off at an `end`, a dollar sign before it or not. -/
theorem findEnd_end (he : e.isWord "end") (after : List Token) :
    findEnd 0 a (e :: after) = .cut (e :: after) a := by
  have hname := Token.isName_of_isWord he
  have hpunct (c : Char) : ¬ e.isPunct c = true := by
    rw [Token.not_isPunct_of_isName hname]
    exact Bool.false_ne_true
  have hbody : ¬ e.isOneOf ["is", "as"] = true := by
    rw [Token.not_isOneOf_of_isWord he (by decide)]
    exact Bool.false_ne_true
  rw [findEnd, if_neg (hpunct '('), if_neg (hpunct ')'), if_neg (Nat.lt_irrefl 0), if_neg (hpunct ';'),
    if_neg hbody, if_pos (Token.isOneOf_iff.mpr ⟨"end", by decide, he⟩)]

theorem findEnd_nested {depth : Nat} (hdepth : depth ≠ 0) (he : e.isWord "end") (after : List Token) :
    findEnd depth a (e :: after) = findEnd depth false after := by
  have hpunct (c : Char) : e.isPunct c = false :=
    Token.not_isPunct_of_isName (Token.isName_of_isWord he)
  rw [findEnd, hpunct, hpunct, hpunct, if_neg Bool.false_ne_true, if_neg Bool.false_ne_true,
    if_pos (Nat.pos_of_ne_zero hdepth)]

/-- A header that has not ended before the `end` of a directive breaks off there, unless a parenthesis is
open. -/
theorem findEnd_directive (hd : d.isPunct '$') (he : e.isWord "end") {depth : Nat} {a' : Bool}
    (h : findEnd depth a front = .cut [] a') (after : List Token) :
    findEnd depth a (front ++ d :: e :: after) =
      if depthAfter depth front = 0 then .cut (e :: after) true
      else findEnd (depthAfter depth front) false after := by
  have hpunct {c : Char} (hc : '$' ≠ c) : d.isPunct c = false := Token.not_isPunct_of_isPunct hd hc
  have hword (keywords : List String) : d.isOneOf keywords = false :=
    Token.not_isOneOf_of_not_isName (Token.not_isName_of_isPunct hd)
  rw [findEnd_front h, findEnd, hpunct (c := '(') (by decide), hpunct (c := ')') (by decide),
    if_neg Bool.false_ne_true, if_neg Bool.false_ne_true, hd]
  by_cases hdepth : depthAfter depth front = 0
  · rw [hdepth, if_neg (Nat.lt_irrefl 0), hpunct (c := ';') (by decide), hword, hword,
      if_neg Bool.false_ne_true, if_neg Bool.false_ne_true, if_neg Bool.false_ne_true, if_pos rfl,
      findEnd_end he after]
  · rw [if_pos (Nat.pos_of_ne_zero hdepth), if_neg hdepth, findEnd_nested hdepth he after]

end Header

namespace Unexpected

theorem afterDirective_leavesPlain (keyword : String) (ts : List Token) :
    LeavesPlain ts (afterDirective keyword ts) := by
  induction ts with
  | nil => exact leavesPlain_nil _
  | cons t ts ih =>
    rw [afterDirective]
    split
    · next h =>
      rw [Bool.and_eq_true] at h
      cases ts with
      | nil => exact leavesPlain_nil _
      | cons u ts =>
        have hu : u.isPunct '$' = false :=
          Token.not_isPunct_of_isName (Token.isName_of_isWord h.2)
        exact (leavesPlain_tail hu).mono (List.suffix_cons t _)
    · exact ih.mono (List.suffix_cons t ts)

theorem afterStatement_leavesPlain (t : Token) (ts : List Token) :
    LeavesPlain (t :: ts) (afterStatement (t.isPunct '$') ts) := by
  induction ts generalizing t with
  | nil => exact leavesPlain_nil _
  | cons u ts ih =>
    rw [afterStatement]
    split
    · next hsemicolon =>
      exact (leavesPlain_tail (Token.not_isPunct_of_isPunct hsemicolon (by decide))).mono
        (List.suffix_cons t _)
    split
    · next hstop =>
      rw [Bool.and_eq_true, Bool.not_eq_true'] at hstop
      exact leavesPlain_tail hstop.1
    · exact (ih u).mono (List.suffix_cons t _)

theorem skip_leavesPlain (t : Token) (ts : List Token) : LeavesPlain (t :: ts) (skip t ts) := by
  cases ts with
  | nil => exact leavesPlain_nil _
  | cons w after =>
    have hafter : after <:+ t :: w :: after := List.suffix_append [t, w] after
    rw [skip]
    split
    · next hdirective =>
      rw [Bool.and_eq_true] at hdirective
      split
      · exact (afterDirective_leavesPlain "then" after).mono hafter
      split
      · exact (afterDirective_leavesPlain "end" after).mono hafter
      · have hw : w.isPunct '$' = false :=
          Token.not_isPunct_of_isName (by rw [Token.isName, hdirective.2, Bool.true_or])
        exact (leavesPlain_tail hw).mono (List.suffix_cons t _)
    · exact afterStatement_leavesPlain t (w :: after)

end Unexpected

namespace Extent

theorem ofEnd_leavesPlain (h : t.isPunct '$' = false) (after : List Token) :
    LeavesPlain (t :: after) (ofEnd t after).rest := by
  have plain {s : Token} (hs : s.isPunct ';') : s.isPunct '$' = false :=
    Token.not_isPunct_of_isPunct hs (by decide)
  unfold ofEnd
  split
  · exact leavesPlain_nil _
  split
  · next s ts hs => exact (leavesPlain_tail (plain hs)).mono (List.suffix_cons t _)
  split
  · exact leavesPlain_tail h
  split
  · next l s ts _ hlabel =>
    rw [Bool.and_eq_true] at hlabel
    exact (leavesPlain_tail (plain hlabel.2)).mono (List.suffix_append [t, _] _)
  · exact leavesPlain_tail h

theorem find_leavesPlain {inner : Nat} {x : Extent} (h : find inner a ts = some x) :
    LeavesPlain ts x.rest := by
  have plain {t : Token} {k : String} (ht : t.isWord k) : t.isPunct '$' = false :=
    Token.not_isPunct_of_isName (Token.isName_of_isWord ht)
  fun_induction find inner a ts with
  | case1 | case5 => contradiction
  | case2 _ _ t _ _ ih | case3 _ _ t _ _ _ ih => exact (ih h).mono (List.suffix_cons t _)
  | case4 a t _ ha | case9 a t _ ha =>
    cases h
    exact ofEnd_leavesPlain (plain (end_of_counted ha).1) _
  | case6 _ _ t _ _ u _ _ ih | case8 _ t _ _ u _ _ _ _ ih =>
    exact (ih h).mono (List.suffix_append [t, u] _)
  | case7 a t _ _ u _ _ hcase =>
    cases h
    exact (ofEnd_leavesPlain (plain hcase) _).mono (List.suffix_cons t _)
  | case10 _ t _ _ _ _ _ _ _ ih => exact (ih h).mono (List.suffix_cons t _)

end Extent

namespace Scan

variable {text : List Char} {s s' : Scan} {scope : Scope} {outer : List Scope}

/-- The next declaration of `s` is a routine whose header breaks off at `stop`. -/
def CutsHeader (s : Scan) (stop : List Token) : Prop :=
  ∃ t rest kind name after a, s.rest = t :: rest ∧ Lead.of t = .routine kind ∧
    Header.qualifiedName rest = some (name, after) ∧ Header.findEnd 0 false after = .cut stop a

theorem tail_fromSemicolon_leavesPlain (ts : List Token) :
    LeavesPlain ts (fromSemicolon ts).tail := by
  have hsuffix := fromSemicolon_suffix ts
  have hhead := List.head?_dropWhile_not (fun t : Token => !t.isPunct ';') ts
  rw [← fromSemicolon] at hhead
  cases hts : fromSemicolon ts with
  | nil => exact leavesPlain_nil _
  | cons t rest =>
    rw [hts] at hsuffix hhead
    have ht : t.isPunct ';' := (Bool.not_eq_false' _).mp hhead
    exact (leavesPlain_tail (Token.not_isPunct_of_isPunct ht (by decide))).mono hsuffix

theorem tail_leavesPlain (hs : us <:+ ts) (h : ∀ t ∈ us.head?, t.stopsDefinition) :
    LeavesPlain ts us.tail := by
  cases us with
  | nil => exact leavesPlain_nil ts
  | cons t us => exact (leavesPlain_tail (Token.stopsDefinition_plain (h t rfl))).mono hs

/-- Declarations stop nowhere behind a dollar sign but where the header of a routine breaks off. -/
theorem Move.leavesPlain (h : Move text s s') (hopen : s'.scopes ≠ []) :
    LeavesPlain s.rest s'.rest ∨ (∃ t ∈ s'.rest.head?, t.isWord "create") ∨
      s.scopes ≠ [] ∧ s.CutsHeader s'.rest := by
  have hheader {hd : Header} (hread : Header.ofUnit? s.rest = some hd) : hd.rest <:+ s.rest :=
    (Header.ofUnit?_named hread).2.suffix
  cases h with
  | pass _ hs | ended hs | cut hs => exact absurd hs hopen
  | statement hts => exact .inl ((tail_fromSemicolon_leavesPlain _).mono hts)
  | unexpected hrest => exact .inl (hrest ▸ Unexpected.skip_leavesPlain _ _)
  | declared _ hnames => exact .inl ((tail_fromSemicolon_leavesPlain _).mono hnames.suffix)
  | specified recording d hs hread hstops hus =>
    rcases hus with rfl | ⟨rfl, hcut⟩
    · exact .inl (tail_leavesPlain (hstops.suffix.trans hread.named.suffix) hstops.stopsDefinition)
    · obtain ⟨kind, _, hrest, hlead, hname, _⟩ := hread
      exact .inr (.inr ⟨hs ▸ List.cons_ne_nil _ _, _, _, kind, _, _, d, hrest, hlead, hname, hcut⟩)
  | @called hd us recording hread _ hend =>
    have hus : us <:+ hd.rest := Header.suffix_of_findEnd hend
    exact .inl ((tail_fromSemicolon_leavesPlain _).mono
      (((List.tail_suffix us).trans hus).trans (hheader hread)))
  | @opened hd us recording hread _ hend =>
    have hus : us <:+ hd.rest := Header.suffix_of_findEnd hend
    have hstop := Symbol.findEnd_stopsDefinition 0 false hd.rest
    rw [hend] at hstop
    exact .inl (tail_leavesPlain (hus.trans (hheader hread)) hstop)
  | closed _ hus he => exact .inl ((Extent.find_leavesPlain he).mono hus)
  | @interrupted scope outer t ts _ hrest hcreate =>
    refine .inr (.inl ⟨t, ?_, hcreate⟩)
    rw [report_rest, leave_rest, hrest]
    rfl
  | unfinished => exact .inl (leavesPlain_nil _)

/-- Where a declaration section stops at the `end` of a directive, the header before it did. -/
theorem Reaches.cutsHeader (hd : d.isPunct '$') (he : e.isWord "end")
    (h : Reaches text (ofTokens (before ++ d :: e :: after)) s) (hopen : s.scopes ≠ [])
    (hrest : s.rest = e :: after) :
    ∃ s', Reaches text (ofTokens (before ++ d :: e :: after)) s' ∧ s = s'.step text ∧
      s'.scopes ≠ [] ∧ s'.CutsHeader (e :: after) := by
  cases h with
  | refl => exact absurd rfl hopen
  | step h =>
    have hsuffix := h.rest_suffix
    rcases (step_move text _).leavesPlain hopen with hplain | ⟨t, ht, hcreate⟩ | hcut
    · exact absurd hrest (hplain.ne hsuffix hd)
    · rw [hrest] at ht
      cases ht
      have hnot := Token.not_isWord_of_isWord he (b := "create") (by decide)
      rw [hcreate] at hnot
      contradiction
    · rw [hrest] at hcut
      exact ⟨_, h, rfl, hcut⟩

theorem lead_routine_isName {kind : Flavour → Symbol.Kind} (h : Lead.of t = .routine kind) :
    t.isName := by
  obtain ⟨hword, _⟩ | ⟨hword, _⟩ := Lead.of_eq_routine h
  · exact Token.isName_of_isWord hword
  · exact Token.isName_of_isWord hword

/-- A nested routine whose header breaks off is taken for a forward declaration. -/
theorem step_cut {kind : Flavour → Symbol.Kind} {name : String} {stop : List Token}
    (hs : s.scopes = scope :: outer) (hbody : scope.flavour = .body) (hrest : s.rest = t :: rest)
    (hlead : Lead.of t = .routine kind) (hname : Header.qualifiedName rest = some (name, us))
    (hcut : Header.findEnd 0 false us = .cut stop a) :
    s.step text = (s.record (scope.symbol.isSome && outer.length + 1 ≤ recordedDepth)
      (s.symbolOf text t (kind .spec) name stop)).goOn stop a := by
  have hisName := lead_routine_isName hlead
  rw [step, hs]
  dsimp only
  rw [stepIn, hrest]
  dsimp only
  rw [Token.not_isPunct_of_isName hisName, hisName, hlead, if_neg Bool.false_ne_true,
    Bool.not_true, if_neg Bool.false_ne_true, hname]
  dsimp only
  rw [hbody]
  refine (enter_of_cut hcut).trans ?_
  rw [hs, List.isEmpty_cons, Bool.not_false, if_pos rfl, ← Lead.spec_eq_counterpart hlead]

/-- What stops at the word `e` of a directive, where the tokens are `before ++ d :: e :: after`. -/
structure StopsHeaders (before : List Token) (d e : Token) (after : List Token) : Prop where
  /-- A header that has not ended before stops there, unless a parenthesis is open. -/
  header : ∀ depth a a', Header.findEnd depth a before = .cut [] a' →
    Header.findEnd depth a (before ++ d :: e :: after) =
      if Header.depthAfter depth before = 0 then .cut (e :: after) true
      else Header.findEnd (Header.depthAfter depth before) false after
  /-- So the routine is taken for a forward declaration, and the scope around it for one without more
  declarations, which ends where the routine should. -/
  routine : ∀ text (s : Scan) (scope : Scope) outer t rest kind name a',
    s.scopes = scope :: outer → scope.flavour = .body → s.rest = t :: rest →
      Lead.of t = .routine kind → Header.qualifiedName rest = some (name, before ++ d :: e :: after) →
      Header.findEnd 0 false before = .cut [] a' → Header.depthAfter 0 before = 0 →
      (s.step text).step text =
        ((s.record (scope.symbol.isSome && outer.length + 1 ≤ recordedDepth)
          (s.symbolOf text t (kind .spec) name (e :: after))).goOn (e :: after) true).leaveAt text scope
            outer (Extent.find 0 false after)
  /-- Declarations stop there for no other reason. -/
  declarations : ∀ text s, Reaches text (ofTokens (before ++ d :: e :: after)) s → s.scopes ≠ [] →
    s.rest = e :: after →
      ∃ s', Reaches text (ofTokens (before ++ d :: e :: after)) s' ∧ s = s'.step text ∧
        s'.scopes ≠ [] ∧ s'.CutsHeader (e :: after)
  /-- Nothing that is stepped over stops there. -/
  recovery : ∀ t rest, t :: rest <:+ before ++ d :: e :: after → Unexpected.skip t rest ≠ e :: after
  /-- A block closes before, or the search for its end goes on behind with as many blocks open. -/
  extent : ∀ inner a, Extent.ClosesIn inner a (before ++ [d]) ∨
    ∃ n, Extent.Passes inner a (before ++ [d]) n ∧
      Extent.find inner a (before ++ d :: e :: after) = Extent.find n false after

/-- The `end` of a directive closes no block and ends nothing that is stepped over, but it stops headers. -/
theorem stopsHeaders_of_directive (hd : d.isPunct '$') (he : e.isWord "end")
    (before after : List Token) : StopsHeaders before d e after := by
  have hheader {depth : Nat} {a a' : Bool} (h : Header.findEnd depth a before = .cut [] a') :=
    Header.findEnd_directive hd he h after
  refine ⟨fun _ _ _ => hheader, ?_, ?_, ?_, ?_⟩
  · intro text s scope outer t rest kind name a' hs hbody hrest hlead hname hfront hdepth
    have hcut := hheader hfront
    rw [if_pos hdepth] at hcut
    have hopen : ((s.record (scope.symbol.isSome && outer.length + 1 ≤ recordedDepth)
        (s.symbolOf text t (kind .spec) name (e :: after))).goOn (e :: after) true).scopes =
          scope :: outer := by
      rw [goOn_scopes, record_scopes, hs]
    rw [step_cut hs hbody hrest hlead hname hcut, Written.step_end hopen rfl he]
    exact congrArg _ (Extent.find_directive he)
  · exact fun text s => Reaches.cutsHeader hd he
  · exact fun t rest hsuffix => (Unexpected.skip_leavesPlain t rest).ne hsuffix hd
  · intro inner a
    have hplain : d.isOneOf ["end", "case"] = false :=
      Token.not_isOneOf_of_not_isName (Token.not_isName_of_isPunct hd)
    refine (Extent.closesIn_or_passes (Extent.noLabelDue_of_last hplain)).imp_right ?_
    rintro ⟨n, hn⟩
    refine ⟨n, hn, ?_⟩
    have hfind := hn (e :: after)
    rw [Extent.dollarLast_concat, hd, Extent.find_directive he] at hfind
    rwa [← List.append_cons] at hfind

/-- The header of a function with a directive in it. -/
theorem stopsHeaders_deterministic :
    Token.isPunct ⟨.punct '$', 0, "$", none⟩ '$' ∧ Token.isWord ⟨.word, 1, "END", none⟩ "end" ∧
      Header.findEnd 0 false (Token.ofText "return number $if x $then deterministic" ++
          ⟨.punct '$', 0, "$", none⟩ :: ⟨.word, 1, "END", none⟩ :: Token.ofText "is begin null; end;") =
        .cut (⟨.word, 1, "END", none⟩ :: Token.ofText "is begin null; end;") true := by
  have hd : Token.isPunct ⟨.punct '$', 0, "$", none⟩ '$' := by decide
  have he : Token.isWord ⟨.word, 1, "END", none⟩ "end" := by decide
  have hfront : Header.findEnd 0 false (Token.ofText "return number $if x $then deterministic") =
    .cut [] false := by decide +kernel
  have hdepth : Header.depthAfter 0 (Token.ofText "return number $if x $then deterministic") = 0 := by
    decide +kernel
  have hstops :=
    (stopsHeaders_of_directive hd he _ (Token.ofText "is begin null; end;")).header _ _ _ hfront
  rw [if_pos hdepth] at hstops
  exact ⟨hd, he, hstops⟩

/-- A header that has a directive in it may end at the `end` of the directive. -/
theorem not_forall_header_passes_directive :
    ¬ ∀ (text : String) (lead header : List Token) (d e : Token) (after : List Token),
      Token.ofText text = lead ++ (header ++ d :: e :: after) → d.isPunct '$' → e.isWord "end" →
        (Header.findEnd 0 false (header ++ d :: e :: after)).tokens ≠ e :: after := by
  intro h
  let text := "create function f return number $if x $then deterministic $end is begin return 1; end;"
  let ts := Token.ofText text
  exact h text (ts.take 3) ((ts.drop 3).take 8) ⟨.punct '$', 58, "$", none⟩ ⟨.word, 59, "end", none⟩
    (ts.drop 13) (by decide +kernel) (by decide) (by decide) (by decide +kernel)

end Scan

end PlsqlNav
