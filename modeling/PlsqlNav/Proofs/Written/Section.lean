import PlsqlNav.Proofs.Written.RoundTrip

/-! Where an executable section closes: at its own `end`, whatever comes behind that, and without
anything to report. -/
namespace PlsqlNav

namespace Extent

/-- What comes after an `end` and does not belong to it: no word that makes another `end` of it, and
no semicolon, be it right there or after a name. -/
structure Detached (after : List Token) : Prop where
  bare : Bare after
  noSemicolon : ∀ t ∈ after.head?, t.isPunct ';' = false
  noLabel : ∀ l s more, after = l :: s :: more → l.isName → s.isPunct ';' = false

theorem ofEnd_detached {after : List Token} (h : Detached after) (last : Token) :
    ofEnd last after = ⟨last.stop, after⟩ := by
  cases after with
  | nil => rfl
  | cons t rest =>
    have hsemicolon : t.isPunct ';' = false := h.noSemicolon t rfl
    rw [ofEnd.eq_def]
    dsimp only
    rw [hsemicolon, if_neg Bool.false_ne_true]
    cases rest with
    | nil => rfl
    | cons u more =>
      have hlabel : (t.isName && u.isPunct ';') = false := by
        rw [Bool.and_eq_false_imp]
        exact h.noLabel t u more rfl
      dsimp only
      rw [hlabel, if_neg Bool.false_ne_true]

end Extent

namespace Written
open Token Scan

/-- The section that `ts` starts with closes at `e`: this is where the search from there ends, and a
scan that gets to `begin` before `ts` leaves its scope there and reports nothing. -/
structure ClosesAt (ts : List Token) (e : Extent) : Prop where
  found : Extent.find 0 false ts = some e
  left : ∀ (text : List Char) (s : Scan) (scope : Scope) (outer : List Scope) (begin : Word ["begin"]),
    s.scopes = scope :: outer → s.rest = begin.token :: ts →
      s.step text = (s.leave scope outer e.stop).goOn e.rest false ∧ (s.step text).issues = s.issues

theorem closesAt_of_find {ts : List Token} {e : Extent} (h : Extent.find 0 false ts = some e) :
    ClosesAt ts e where
  found := h
  left text s scope outer begin hs hr := by
    have hstep : s.step text = (s.leave scope outer e.stop).goOn e.rest false := by
      rw [step_begin hs hr begin.is, h]
      rfl
    refine ⟨hstep, ?_⟩
    rw [hstep]
    exact leave_issues s scope outer e.stop

/-- Statements close at the `end` behind them: with what belongs to that `end`, or without what does not. -/
def Closes (statements : List Token) : Prop :=
  (∀ (c : Closing) (ts : List Token),
    ClosesAt (statements ++ (c.tokens ++ ts)) ⟨c.semicolon.token.stop, ts⟩) ∧
  ∀ (finish : Word ["end"]) (after : List Token), Extent.Detached after →
    ClosesAt (statements ++ finish.token :: after) ⟨finish.token.stop, after⟩

theorem closes_wellNested {statements : List Token}
    (h : WellNested Extent.labelWords statements) : Closes statements := by
  constructor
  · intro c ts
    have hbare : Extent.Bare (c.tokens ++ ts) := by
      rw [tokens_closing]
      exact Extent.bare_of_end c.finish.is
    apply closesAt_of_find
    rw [Extent.find_wellNested h hbare, find_closing]
  · intro finish after hafter
    apply closesAt_of_find
    rw [Extent.find_wellNested h (Extent.bare_of_end finish.is),
      Extent.find_zero finish.is hafter.bare, Extent.ofEnd_detached hafter]

section Examples

/-- A block around some statements, with a label. -/
def labelledBlock (label : String) (inner : List Token) : List Token :=
  wordAt 0 "begin" :: inner ++ [wordAt 40 "end", wordAt 44 label, markAt 49 ';']

theorem wellNested_labelledBlock {labels : List String} {label : String} {inner : List Token}
    (hinner : WellNested labels inner) (h : (wordAt 44 label).isOneOf labels = false) :
    WellNested labels (labelledBlock label inner) :=
  .labelled (by decide) hinner (by decide) rfl h (by decide) .nil

def caseTokens : List Token :=
  [wordAt 6 "case", wordAt 11 "a", wordAt 13 "end", markAt 16 '$', wordAt 17 "end",
    wordAt 21 "end", wordAt 25 "if"]

theorem wellNested_caseTokens : WellNested Extent.labelWords caseTokens :=
  @WellNested.caseExpression _ (wordAt 6 "case") (wordAt 13 "end") [wordAt 11 "a"] _ (by decide)
    (.token (by decide) (by decide) .nil) (by decide) (forall_head_cons (by decide))
    (.directive (by decide) (by decide) (.unopened (by decide) (by decide) .nil))

def closingQ : Closing :=
  ⟨⟨wordAt 51 "end", by decide⟩, some ⟨wordAt 55 "begin", by decide, by decide⟩, semicolonAt 60⟩

theorem closes_labelledBlock :
    WellNested Extent.labelWords (labelledBlock "q" caseTokens) ∧
    ClosesAt (labelledBlock "q" caseTokens ++ (closingQ.tokens ++ [wordAt 62 "end"]))
      ⟨61, [wordAt 62 "end"]⟩ ∧
    ClosesAt (labelledBlock "q" caseTokens ++ [wordAt 51 "end", wordAt 55 "end", wordAt 59 "end"])
      ⟨54, [wordAt 55 "end", wordAt 59 "end"]⟩ := by
  have h : WellNested Extent.labelWords (labelledBlock "q" caseTokens) :=
    wellNested_labelledBlock wellNested_caseTokens (by decide)
  refine ⟨h, (closes_wellNested h).1 closingQ [wordAt 62 "end"],
    (closes_wellNested h).2 ⟨wordAt 51 "end", by decide⟩ _ ⟨?_, ?_, ?_⟩⟩
  · exact Extent.bare_of_end (by decide)
  · exact forall_head_cons (by decide)
  · intro l s more heq _
    cases heq
    decide

def plainClosing : Closing := ⟨⟨wordAt 51 "end", by decide⟩, none, semicolonAt 54⟩

/-- Statements need not close at the `end` behind them where an inner block is labelled `begin` or
`end`, even if the other one is reserved. -/
theorem not_closes_afterEnd :
    (¬ ∀ statements, WellNested Reserved.afterEnd.label statements → Closes statements) ∧
    (¬ ∀ statements, WellNested ("begin" :: Reserved.afterEnd.label) statements → Closes statements) ∧
    ¬ ∀ statements, WellNested ("end" :: Reserved.afterEnd.label) statements → Closes statements := by
  have hopens : ¬ Closes (labelledBlock "begin" []) := fun h =>
    absurd (congrArg (Option.map Extent.stop) (h.1 plainClosing []).found) (by decide)
  have hcloses : ¬ Closes (labelledBlock "end" []) := fun h =>
    absurd (congrArg (Option.map Extent.stop) (h.1 plainClosing []).found) (by decide)
  refine ⟨fun h => hopens (h _ ?_), fun h => hcloses (h _ ?_), fun h => hopens (h _ ?_)⟩
  · exact wellNested_labelledBlock .nil (by decide)
  · exact wellNested_labelledBlock .nil (by decide)
  · exact wellNested_labelledBlock .nil (by decide)

end Examples

end Written

end PlsqlNav
