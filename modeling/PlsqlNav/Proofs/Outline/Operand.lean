import PlsqlNav.Proofs.Scan.UpTo
import PlsqlNav.Proofs.Written.RoundTrip

/-! A `case` expression where an operand was. What comes behind decides whether its `end` counts: before
a word that makes another `end` of it the section goes on as if one more block were open, and anywhere
else the outline is the same but for its positions. -/
namespace PlsqlNav

/-- The bytes of a text from `start` to `stop` give way to `length` others. -/
structure Replacement where
  start : Nat
  stop : Nat
  length : Nat

/-- Where a position outside the replaced bytes comes to lie. -/
def Replacement.move (r : Replacement) (p : Nat) : Nat :=
  if p < r.stop then p else p - r.stop + (r.start + r.length)

variable {r : Replacement} {text text' : String} {lead before back back' expression : List Token}
  {begin operand t u : Token}

/-- The same token, where the replacement has moved it. -/
structure Token.Moved (r : Replacement) (t u : Token) : Prop where
  kind : t.kind = u.kind
  text : t.text = u.text
  start : u.start = r.move t.start

structure Symbol.Moved (r : Replacement) (x y : Symbol) : Prop where
  kind : x.kind = y.kind
  level : x.level = y.level
  name : x.name = y.name
  start : y.start = r.move x.start
  stop : y.stop = x.stop.map r.move

structure Issue.Moved (r : Replacement) (i j : Issue) : Prop where
  kind : i.kind = j.kind
  offset : j.offset = r.move i.offset

/-- The same symbols and the same issues, where the replacement has moved them. -/
structure Outline.Moved (r : Replacement) (o o' : Outline) : Prop where
  symbols : List.Forall₂ (Symbol.Moved r) o.symbols.toList o'.symbols.toList
  issues : List.Forall₂ (Issue.Moved r) o.issues o'.issues

/-- `text'` has the tokens `expression` in the place of the token `operand` of `text`. -/
structure Substitutes (r : Replacement) (text text' : String) (front : List Token) (operand : Token)
    (expression back back' : List Token) : Prop where
  tokens : Token.ofText text = front ++ operand :: back
  substituted : Token.ofText text' = front ++ (expression ++ back')
  start : r.start = operand.start
  stop : r.stop = operand.stop
  moved : List.Forall₂ (Token.Moved r) back back'
  size : Text.byteLength text'.toList = r.move (Text.byteLength text.toList)

/-- An operand in the executable section that `begin` opens in some scope of the text. -/
structure InSection (text : String) (begin : Token) (before : List Token) (operand : Token)
    (back : List Token) : Prop where
  opens : begin.isWord "begin"
  reached : ∃ s, Scan.Reaches text.toList (Scan.ofTokens (Token.ofText text)) s ∧ s.scopes ≠ [] ∧
    s.rest = begin :: (before ++ operand :: back)
  /-- The section does not end before the operand. -/
  within : ∀ e ∈ Extent.find 0 false (before ++ operand :: back), e.rest <:+ back
  /-- No label may stand where the operand does. -/
  noLabel : Extent.NoLabelDue false before
  /-- It is an identifier or a literal. -/
  noMark : ∀ c, operand.isPunct c = false
  plain : operand.isOneOf ["begin", "case", "end"] = false

/-- From a `case` to its `end`, with well-nested tokens between. -/
inductive IsCase : List Token → Prop
  | mk {c e : Token} {inner : List Token} : c.isWord "case" → WellNested Extent.labelWords inner →
      e.isWord "end" → IsCase (c :: (inner ++ [e]))

namespace Token

theorem Laid.front {lo hi : Nat} {front after : List Token} (h : Laid lo hi (front ++ t :: after)) :
    ∀ u ∈ front, u.start < u.stop ∧ u.stop ≤ t.start := by
  induction front generalizing lo with
  | nil =>
    intro u hu
    contradiction
  | cons v front ih =>
    rw [List.cons_append] at h
    intro u hu
    rcases List.mem_cons.mp hu with rfl | hu
    · have hrest := h.2.2
      refine ⟨h.2.1, ?_⟩
      cases front with
      | nil => exact hrest.1
      | cons w front =>
        have hw := ih hrest w List.mem_cons_self
        have := hrest.1
        omega
    · exact ih h.2.2 u hu

theorem Laid.mem {lo hi : Nat} {ts : List Token} (h : Laid lo hi ts) :
    ∀ t ∈ ts, lo ≤ t.start ∧ t.start < t.stop := by
  induction ts generalizing lo with
  | nil =>
    intro t ht
    contradiction
  | cons u ts ih =>
    intro t ht
    rcases List.mem_cons.mp ht with rfl | ht
    · exact ⟨h.1, h.2.1⟩
    · exact ih h.tail t ht

theorem Moved.stop (h : t.Moved r u) (hpast : r.stop ≤ t.start) : u.stop = r.move t.stop := by
  have hstart := h.start
  rw [Replacement.move, if_neg (Nat.not_lt.mpr hpast)] at hstart
  have hstop : ¬ t.stop < r.stop := by
    rw [Token.stop]
    omega
  rw [Replacement.move, if_neg hstop, Token.stop, Token.stop, ← h.text]
  omega

end Token

namespace Extent
variable {n : Nat} {a : Bool} {k : Token} {after : List Token}

theorem find_isCase (h : IsCase expression) (hafter : Bare after) :
    find n a (expression ++ after) = find n false after := by
  cases h with
  | mk hc hinner he =>
    rw [List.cons_append, List.append_assoc, List.singleton_append,
      find_opening (Token.isOneOf_iff.mpr ⟨"case", by decide, hc⟩),
      find_wellNested hinner (bare_of_end he), find_close he hafter]

/-- Before an `if` or a `loop` the `end` is taken with it, and the `case` stays open. -/
theorem find_isCase_unopened (h : IsCase expression) (hk : k.isOneOf ["if", "loop"]) :
    find n a (expression ++ k :: after) = find (n + 1) false after := by
  cases h with
  | mk hc hinner he =>
    rw [List.cons_append, List.append_assoc, List.singleton_append,
      find_opening (Token.isOneOf_iff.mpr ⟨"case", by decide, hc⟩),
      find_wellNested hinner (bare_of_end he), find_unopened he hk]

end Extent

namespace InSection
variable (h : InSection text begin before operand back)
include h

theorem passes : ∃ n, Extent.Passes 0 false before n := by
  rcases Extent.closesIn_or_passes h.noLabel with ⟨e, he⟩ | hpasses
  · have hfind := he (operand :: back) (by rintro _ ⟨⟩; exact h.noMark ';')
    have hlength := (h.within _ hfind).length_le
    rw [List.length_append, List.length_cons] at hlength
    omega
  · exact hpasses

theorem find_operand {n : Nat} (hn : Extent.Passes 0 false before n) :
    Extent.find 0 false (before ++ operand :: back) = Extent.find n false back := by
  rw [hn, Extent.find_other h.plain, h.noMark '$']

theorem follows (more : List Token) :
    Follows (before.head?.any (·.isPunct ';')) (before ++ operand :: more) := by
  cases before with
  | nil => exact h.noMark ';'
  | cons t before => rfl

end InSection

theorem Token.Moved.alike (h : t.Moved r u) : t.Alike u :=
  ⟨h.kind, by rw [h.text]; exact Text.sameName_refl _⟩

namespace Substitutes
variable (h : Substitutes r text text' (lead ++ begin :: before) operand expression back back')
include h

/-- The two texts by their tokens outside the replacement. -/
def correspondence : Correspondence text.toList text'.toList where
  token t u := t.Moved r u ∧ u.stop = r.move t.stop
  position p q := q = r.move p
  name := Eq
  symbol := Symbol.Moved r
  alike htu := htu.1.alike
  names htu := by rw [Token.name, Token.name, htu.1.kind, htu.1.text]
  starts htu := htu.1.start
  stops htu := htu.2
  ends := h.size
  declared _ htu _ hname hlevel := ⟨rfl, hlevel, hname, htu.1.start, rfl⟩
  stopped hxy hpq := { hxy with stop := congrArg some hpq }

theorem front_moved :
    List.Forall₂ h.correspondence.token (lead ++ begin :: before) (lead ++ begin :: before) := by
  have hlaid := Token.ofText_laid text
  rw [h.tokens] at hlaid
  have hoperand := (hlaid.suffix (List.suffix_append _ _)).2.1
  refine List.forall₂_same.mpr fun t ht => ?_
  have ht := hlaid.front t ht
  have hmove {p : Nat} (hp : p ≤ operand.start) : p = r.move p := by
    rw [Replacement.move, if_pos (by rw [h.stop]; omega)]
  exact ⟨⟨rfl, rfl, hmove (by omega)⟩, hmove ht.2⟩

theorem back_moved : List.Forall₂ h.correspondence.token back back' := by
  have hlaid := Token.ofText_laid text
  rw [h.tokens] at hlaid
  have hpast (t : Token) (ht : t ∈ back) : r.stop ≤ t.start := by
    rw [h.stop]
    exact (hlaid.after.2.mem t ht).1
  refine ((List.forall₂_and_left _ _).mpr ⟨hpast, h.moved⟩).imp fun t u htu => ?_
  exact ⟨htu.2, htu.2.stop htu.1⟩

end Substitutes

/-- Closing a scope leaves nothing of what was to read. -/
theorem Scan.leaveAt_rest {cs : List Char} {s : Scan} (ts : List Token) (scope : Scope)
    (outer : List Scope) (e : Option Extent) :
    { s with rest := ts }.leaveAt cs scope outer e = s.leaveAt cs scope outer e := by
  obtain ⟨flavour, symbol⟩ := scope
  cases e <;> cases symbol <;> rfl

theorem Extent.Bare.moved (h : Extent.Bare back) (hmoved : List.Forall₂ (Token.Moved r) back back') :
    Extent.Bare back' := by
  cases hmoved with
  | nil => exact h
  | @cons t u _ _ htu =>
    rintro _ ⟨⟩
    have ht : t.isOneOf ["if", "loop", "case"] = false := h t rfl
    rwa [htu.alike.isOneOf] at ht

namespace Substitutes
variable (h : Substitutes r text text' (lead ++ begin :: before) operand expression back back')
  (hin : InSection text begin before operand back) (hcase : IsCase expression)
include h hin hcase

/-- The scans of both texts come to the section, with the same behind them. -/
theorem reached : ∃ s s' : Scan,
    Scan.Reaches text.toList (Scan.ofTokens (Token.ofText text)) s ∧ s.scopes ≠ [] ∧
    s.rest = begin :: (before ++ operand :: back) ∧
    Scan.Reaches text'.toList (Scan.ofTokens (Token.ofText text')) s' ∧
    s'.rest = begin :: (before ++ (expression ++ back')) ∧
    (h.correspondence).Related [] [] { s with rest := begin :: before }
      { s' with rest := begin :: before } := by
  have hfront := List.forall₂_same.mp h.front_moved
  have hlead : List.Forall₂ h.correspondence.token lead lead :=
    List.forall₂_same.mpr fun t ht => hfront t (List.mem_append_left _ ht)
  have hbegin : h.correspondence.token begin begin := hfront begin (by simp)
  have hbefore : List.Forall₂ h.correspondence.token before before :=
    List.forall₂_same.mpr fun t ht => hfront t (by simp [ht])
  have hfollows : Follows (before.head?.any (·.isPunct ';')) (before ++ (expression ++ back')) := by
    cases before with
    | cons t before => rfl
    | nil =>
      cases hcase with
      | mk hc => exact Token.not_isPunct_of_isName (Token.isName_of_isWord hc)
  obtain ⟨s, hreaches, hopen, hrest⟩ := hin.reached
  have hstart := hreaches
  rw [h.tokens, List.append_assoc, List.cons_append] at hstart
  obtain ⟨s', hreaches', hrest', hrelated⟩ :=
    hstart.toBegin hin.opens hbegin hlead hbefore rfl (hin.follows back) hfollows hrest
  rw [← List.cons_append, ← List.append_assoc, ← h.substituted] at hreaches'
  exact ⟨s, s', hreaches, hopen, hrest, hreaches', hrest', hrelated⟩

/-- Behind the section the scans of both texts are side by side. -/
theorem related (hback : Extent.Bare back) : ∃ s s' : Scan,
    (Scan.ofTokens (Token.ofText text)).run text.toList = s.run text.toList ∧
    (Scan.ofTokens (Token.ofText text')).run text'.toList = s'.run text'.toList ∧
    h.correspondence.Related [] [] s s' := by
  obtain ⟨s, s', hreaches, hopen, hrest, hreaches', hrest', hrelated⟩ := h.reached hin hcase
  obtain ⟨n, hn⟩ := hin.passes
  obtain ⟨scope, outer, hscopes⟩ := List.exists_cons_of_ne_nil hopen
  have hscopes' : s'.scopes = Correspondence.behind 0 scope :: outer.map (Correspondence.behind 0) := by
    have hmap := hrelated.scopes
    dsimp only at hmap
    rw [hmap, hscopes]
    rfl
  have hstep : s.step text.toList = s.leaveAt text.toList scope outer (Extent.find n false back) := by
    rw [Written.step_begin hscopes hrest hin.opens, hin.find_operand hn]
  have hstep' : s'.step text'.toList = s'.leaveAt text'.toList (Correspondence.behind 0 scope)
      (outer.map (Correspondence.behind 0)) (Extent.find n false back') := by
    rw [Written.step_begin hscopes' hrest' hin.opens, hn,
      Extent.find_isCase hcase (hback.moved h.moved)]
  have hextent := Extent.find_alike h.correspondence.alike h.correspondence.stops n false h.back_moved
  have hleave : h.correspondence.Related [] []
      ({ s with rest := begin :: before }.leaveAt text.toList scope outer (Extent.find n false back))
      ({ s' with rest := begin :: before }.leaveAt text'.toList (Correspondence.behind 0 scope)
        (outer.map (Correspondence.behind 0)) (Extent.find n false back')) :=
    hrelated.leaveAt hopen scope hextent
  rw [Scan.leaveAt_rest, Scan.leaveAt_rest (s := s')] at hleave
  refine ⟨s.step text.toList, s'.step text'.toList, ?_, ?_, ?_⟩
  · rw [hreaches.run_eq (by simp [hrest]), Scan.run_notDone (by simp [Scan.isDone, hrest])]
  · rw [hreaches'.run_eq (by simp [hrest']), Scan.run_notDone (by simp [Scan.isDone, hrest'])]
  · rw [hstep, hstep']
    exact hleave

end Substitutes

namespace Outline

/-- A `case` expression in the place of an operand moves what comes behind it and does nothing else, unless
an `if` or a `loop` comes behind. Then the section goes on with one more block open. -/
theorem ofText_substituted (file file' : String)
    (h : Substitutes r text text' (lead ++ begin :: before) operand expression back back')
    (hin : InSection text begin before operand back) (hcase : IsCase expression) :
    (Extent.Bare back → Moved r (ofText file text) (ofText file' text')) ∧
    ∀ k after, back = k :: after → k.isOneOf ["if", "loop"] → ∃ n k' after', back' = k' :: after' ∧
      Extent.find 0 false (before ++ operand :: back) = Extent.find n false after ∧
      Extent.find 0 false (before ++ (expression ++ back')) = Extent.find (n + 1) false after' := by
  constructor
  · intro hback
    obtain ⟨s, s', hrun, hrun', hrelated⟩ := h.related hin hcase hback
    obtain ⟨ys, hys, hxys⟩ := hrelated.run.symbols
    obtain ⟨js, hjs, hijs⟩ := hrelated.run.issues
    constructor
    · show List.Forall₂ _ ((Scan.ofTokens _).run _).symbols.toList ((Scan.ofTokens _).run _).symbols.toList
      rw [hrun, hrun', hys]
      exact hxys
    · show List.Forall₂ _ ((Scan.ofTokens _).run _).issues.toList ((Scan.ofTokens _).run _).issues.toList
      rw [hrun, hrun', hjs]
      exact hijs.imp fun i j hij => ⟨hij.1, hij.2⟩
  · rintro k after rfl hk
    obtain ⟨n, hn⟩ := hin.passes
    have hmoved := h.moved
    cases hmoved with
    | @cons _ k' _ after' hkk' _ =>
      have hplain : k.isOneOf ["begin", "case", "end"] = false :=
        Token.not_isOneOf_of_isOneOf hk (by decide)
      refine ⟨n, k', after', rfl, ?_, ?_⟩
      · rw [hin.find_operand hn, Extent.find_other hplain,
          Token.not_isPunct_of_isName (Token.isName_of_isOneOf hk)]
      · rw [hn, Extent.find_isCase_unopened hcase (by rwa [← hkk'.alike.isOneOf])]

section Examples
open Written (wordAt markAt)

instance (r : Replacement) (t u : Token) : Decidable (t.Moved r u) :=
  decidable_of_iff (t.kind = u.kind ∧ t.text = u.text ∧ u.start = r.move t.start)
    ⟨fun h => ⟨h.1, h.2.1, h.2.2⟩, fun h => ⟨h.kind, h.text, h.start⟩⟩

/-- The tokens of `case when a then b else c end`. -/
def conditional : List Token :=
  [wordAt 27 "case", wordAt 32 "when", wordAt 37 "a", wordAt 39 "then", wordAt 44 "b",
    wordAt 46 "else", wordAt 51 "c", wordAt 53 "end"]

theorem isCase_conditional : IsCase conditional :=
  @IsCase.mk (wordAt 27 "case") (wordAt 53 "end")
    [wordAt 32 "when", wordAt 37 "a", wordAt 39 "then", wordAt 44 "b", wordAt 46 "else", wordAt 51 "c"]
    (by decide)
    (.token (by decide) rfl (.token (by decide) rfl (.token (by decide) rfl (.token (by decide) rfl
      (.token (by decide) rfl (.token (by decide) rfl .nil)))))) (by decide)

/-- The conditional comes for a name of one letter, in the first statement of a procedure. -/
def forName : Replacement := ⟨27, 28, 29⟩

def headTokens : List Token := [wordAt 0 "procedure", wordAt 10 "p", wordAt 12 "is"]

/-- In a section that starts with `before` the name `x` is an operand. -/
theorem inSection_name {text : String} {before back : List Token}
    (htokens : Token.ofText text = headTokens ++ wordAt 15 "begin" :: (before ++ wordAt 27 "x" :: back))
    (hwithin : ∀ e ∈ Extent.find 0 false (before ++ wordAt 27 "x" :: back), e.rest <:+ back)
    (hlabel : Extent.NoLabelDue false before) :
    InSection text (wordAt 15 "begin") before (wordAt 27 "x") back where
  opens := by decide
  reached := by
    refine ⟨_, .step .refl, ?_, ?_⟩
    · rw [htokens]
      exact List.cons_ne_nil _ _
    · rw [htokens]
      rfl
  within := hwithin
  noLabel := hlabel
  noMark c := rfl
  plain := by decide

def assignment : String := "procedure p is begin y1 := x; end p;"

def caseAssignment : String := "procedure p is begin y1 := case when a then b else c end; end p;"

def assigning : List Token := [wordAt 21 "y1", markAt 24 ':', markAt 25 '=']

def assignmentEnd (n : Nat) : List Token :=
  [markAt n ';', wordAt (n + 2) "end", wordAt (n + 6) "p", markAt (n + 7) ';']

/-- The right side of an assignment. -/
theorem ofText_substituted_assignment :
    Substitutes forName assignment caseAssignment (headTokens ++ wordAt 15 "begin" :: assigning)
      (wordAt 27 "x") conditional (assignmentEnd 28) (assignmentEnd 56) ∧
    InSection assignment (wordAt 15 "begin") assigning (wordAt 27 "x") (assignmentEnd 28) ∧
    Extent.Bare (assignmentEnd 28) ∧
    Moved forName (ofText "p.sql" assignment) (ofText "p.sql" caseAssignment) := by
  have hsub : Substitutes forName assignment caseAssignment
      (headTokens ++ wordAt 15 "begin" :: assigning) (wordAt 27 "x") conditional (assignmentEnd 28)
      (assignmentEnd 56) :=
    ⟨by decide +kernel, by decide +kernel, rfl, by decide +kernel, by decide +kernel,
      by decide +kernel⟩
  have hlabel : Extent.NoLabelDue false ([wordAt 21 "y1", markAt 24 ':'] ++ [markAt 25 '=']) :=
    Extent.noLabelDue_of_last (by decide)
  have hin : InSection assignment (wordAt 15 "begin") assigning (wordAt 27 "x") (assignmentEnd 28) :=
    inSection_name hsub.tokens (by decide +kernel) hlabel
  have hbare : Extent.Bare (assignmentEnd 28) := Extent.bare_of_semicolon rfl
  exact ⟨hsub, hin, hbare, (ofText_substituted "p.sql" "p.sql" hsub hin isCase_conditional).1 hbare⟩

def whileLoop : String := "procedure p is begin while x loop null; end loop; end p;"

def caseLoop : String :=
  "procedure p is begin while case when a then b else c end loop null; end loop; end p;"

def loopEnd (n : Nat) : List Token :=
  [wordAt n "loop", wordAt (n + 5) "null", markAt (n + 9) ';', wordAt (n + 11) "end",
    wordAt (n + 15) "loop", markAt (n + 19) ';', wordAt (n + 21) "end", wordAt (n + 25) "p",
    markAt (n + 26) ';']

/-- The condition of a loop: its `case` stays open, and with it the procedure. -/
theorem not_forall_ofText_moved :
    ¬ ∀ (r : Replacement) (text text' : String) (lead before expression back back' : List Token)
      (begin operand : Token),
      Substitutes r text text' (lead ++ begin :: before) operand expression back back' →
        InSection text begin before operand back → IsCase expression →
          Moved r (ofText "p.sql" text) (ofText "p.sql" text') := by
  intro h
  have hsub : Substitutes forName whileLoop caseLoop
      (headTokens ++ wordAt 15 "begin" :: [wordAt 21 "while"]) (wordAt 27 "x") conditional
      (loopEnd 29) (loopEnd 57) :=
    ⟨by decide +kernel, by decide +kernel, rfl, by decide +kernel, by decide +kernel,
      by decide +kernel⟩
  have hlabel : Extent.NoLabelDue false ([] ++ [wordAt 21 "while"]) :=
    Extent.noLabelDue_of_last (by decide)
  have hin : InSection whileLoop (wordAt 15 "begin") [wordAt 21 "while"] (wordAt 27 "x")
      (loopEnd 29) :=
    inSection_name hsub.tokens (by decide +kernel) hlabel
  have hissues := (h _ _ _ _ _ _ _ _ _ _ hsub hin isCase_conditional).issues.length_eq
  exact absurd hissues (by decide +kernel)

end Examples

end Outline

end PlsqlNav
