import PlsqlNav.Proofs.Written.Unit

/-! The readers of a scan on the pieces of a written unit: each takes its own piece and stops right after
it. -/
namespace PlsqlNav.Written
open Token

variable {r : Reserved} {t : Token} {ts : List Token}

theorem Word.is {keyword : String} (word : Word [keyword]) : word.token.isWord keyword := by
  rw [← Token.isOneOf_singleton]
  exact word.isWord

theorem Word.isName {keywords : List String} (word : Word keywords) : word.token.isName :=
  isName_of_isOneOf word.isWord

section Lead

theorem lead_begin (h : t.isWord "begin") : Lead.of t = .begin := by
  simp only [Lead.of, isWord_of_isWord h]
  rfl

theorem lead_end (h : t.isWord "end") : Lead.of t = .finish := by
  simp only [Lead.of, isWord_of_isWord h]
  rfl

theorem lead_pragma (h : t.isWord "pragma") : Lead.of t = .pragma := by
  simp only [Lead.of, isWord_of_isWord h]
  rfl

theorem lead_routine (kind : Routine) (h : t.isWord kind.keyword) :
    Lead.of t = .routine kind.kind := by
  cases kind <;> simp only [Lead.of, isWord_of_isWord h] <;> rfl

theorem lead_introduced (kind : Introduced) (h : t.isWord kind.keyword) :
    Lead.of t = .named kind.kind := by
  cases kind <;> simp only [Lead.of, isWord_of_isWord h] <;> rfl

theorem lead_other (h : t.isOneOf Reserved.keywords.leading = false) : Lead.of t = .other := by
  have hword := not_isOneOf_iff.mp h
  simp only [Reserved.keywords, List.mem_cons, List.not_mem_nil, or_false, forall_eq_or_imp,
    forall_eq] at hword
  simp only [Lead.of, hword, Bool.false_eq_true, if_false]

end Lead

section Header

theorem qualifiedName_titled {IsRun : List Token → Prop} (title : Titled IsRun)
    (h : ∀ t ∈ ts.head?, t.isPunct '.' = false) :
    Header.qualifiedName (title.tokens ++ ts) = some (title.name.last.name, title.run ++ ts) := by
  have hpoint : ∀ t ∈ (title.run ++ ts).head?, t.isPunct '.' = false := by
    cases hrun : title.run with
    | nil => exact h
    | cons u us => exact fun t ht => title.noPoint t (hrun ▸ ht)
  rw [Titled.tokens, List.append_assoc]
  generalize title.run ++ ts = rest at hpoint
  cases title.name with
  | plain name =>
    rw [Name.tokens, List.singleton_append, Header.qualifiedName.eq_def]
    dsimp only
    rw [if_pos name.isName]
    split
    · next dot u after =>
      rw [hpoint dot rfl, Bool.false_and, if_neg Bool.false_ne_true, Name.last]
    · rfl
  | qualified schema point name =>
    rw [Name.tokens, List.cons_append, List.cons_append, List.singleton_append,
      Header.qualifiedName.eq_def]
    dsimp only
    rw [if_pos schema.isName, if_pos (by rw [point.isMark, name.isName]; rfl), Name.last]

/-- Within parentheses nothing ends a header. -/
theorem findEnd_balanced {inner : List Token} (h : Balanced inner) (depth : Nat) (d : Bool) :
    ∃ d', Header.findEnd (depth + 1) d (inner ++ ts) = Header.findEnd (depth + 1) d' ts := by
  induction h generalizing depth d ts with
  | nil => exact ⟨d, rfl⟩
  | token hopen hclose _ ih =>
    rw [List.cons_append, Header.findEnd, hopen, hclose]
    exact ih depth _
  | @group l r inner us hopen _ hclose _ ihinner ih =>
    have hnot : r.isPunct '(' = false := not_isPunct_of_isPunct hclose (by decide)
    rw [List.cons_append, List.cons_append, List.append_assoc, Header.findEnd, if_pos hopen]
    obtain ⟨d', hd'⟩ := @ihinner (r :: us ++ ts) (depth + 1) false
    rw [hd', List.cons_append, Header.findEnd, hnot, if_neg Bool.false_ne_true, if_pos hclose]
    exact ih depth false

/-- A header does not end before its `is`, `as` or semicolon. -/
theorem findEnd_headerRun {run : List Token} (h : HeaderRun run) (d : Bool) :
    ∃ d', Header.findEnd 0 d (run ++ ts) = Header.findEnd 0 d' ts := by
  induction h generalizing d with
  | nil => exact ⟨d, rfl⟩
  | token hopen hclose hsemi hbody hstop _ ih =>
    rw [List.cons_append, Header.findEnd, hopen, hclose, hsemi, hbody, hstop]
    exact ih _
  | @group l r inner us hopen hinner hclose _ ih =>
    have hnot : r.isPunct '(' = false := not_isPunct_of_isPunct hclose (by decide)
    rw [List.cons_append, List.cons_append, List.append_assoc, Header.findEnd, if_pos hopen]
    obtain ⟨d', hd'⟩ := @findEnd_balanced (r :: us ++ ts) _ hinner 0 false
    rw [hd', List.cons_append, Header.findEnd, hnot, if_neg Bool.false_ne_true, if_pos hclose]
    exact ih false

theorem findEnd_body (heading : Heading) (opener : Word ["is", "as"]) :
    Header.findEnd 0 false (heading.run ++ opener.token :: ts) = .body (opener.token :: ts) := by
  obtain ⟨d, hd⟩ := @findEnd_headerRun (opener.token :: ts) _ heading.isRun false
  rw [hd, Header.findEnd]
  simp only [not_isPunct_of_isName opener.isName, opener.isWord, Nat.lt_irrefl, gt_iff_lt,
    Bool.false_eq_true, if_false, if_true]

theorem findEnd_semicolon (heading : Heading) (semicolon : Mark ';') :
    Header.findEnd 0 false (heading.run ++ semicolon.token :: ts) =
      .semicolon (semicolon.token :: ts) := by
  obtain ⟨d, hd⟩ := @findEnd_headerRun (semicolon.token :: ts) _ heading.isRun false
  have hopen : semicolon.token.isPunct '(' = false :=
    not_isPunct_of_isPunct semicolon.isMark (by decide)
  have hclose : semicolon.token.isPunct ')' = false :=
    not_isPunct_of_isPunct semicolon.isMark (by decide)
  rw [hd, Header.findEnd]
  simp only [hopen, hclose, semicolon.isMark, Nat.lt_irrefl, gt_iff_lt, Bool.false_eq_true,
    if_false, if_true]

end Header

section Statement

theorem fromSemicolon_run {run : List Token} (h : ∀ t ∈ run, t.isPunct ';' = false)
    (semicolon : Mark ';') :
    Scan.fromSemicolon (run ++ semicolon.token :: ts) = semicolon.token :: ts := by
  rw [Scan.fromSemicolon, List.dropWhile_append_of_pos]
  · rw [List.dropWhile_cons_of_neg]
    rw [semicolon.isMark]
    decide
  · intro t ht
    rw [h t ht]
    rfl

theorem afterStatement_run {run : List Token} (h : ∀ t ∈ run, t.isPunct ';' = false)
    (hplain : ∀ t ∈ run, t.isOneOf ["begin", "end", "create"] = false) (semicolon : Mark ';')
    (d : Bool) : Unexpected.afterStatement d (run ++ semicolon.token :: ts) = ts := by
  induction run generalizing d with
  | nil => rw [List.nil_append, Unexpected.afterStatement, if_pos semicolon.isMark]
  | cons t run ih =>
    have htail := ih (fun u hu => h u (List.mem_cons_of_mem t hu))
      (fun u hu => hplain u (List.mem_cons_of_mem t hu))
    rw [List.cons_append, Unexpected.afterStatement, h t List.mem_cons_self,
      hplain t List.mem_cons_self, Bool.and_false]
    exact htail _

theorem skip_stray (first : Stray) {run : List Token} (h : ∀ t ∈ run, t.isPunct ';' = false)
    (hplain : ∀ t ∈ run, t.isOneOf ["begin", "end", "create"] = false) (semicolon : Mark ';') :
    Unexpected.skip first.token (run ++ semicolon.token :: ts) = ts := by
  obtain ⟨w, after, hafter⟩ : ∃ w after, run ++ semicolon.token :: ts = w :: after := by
    cases run with
    | nil => exact ⟨_, _, rfl⟩
    | cons w run => exact ⟨_, _, rfl⟩
  rw [hafter, Unexpected.skip, first.noDollar, Bool.false_and, if_neg Bool.false_ne_true, ← hafter]
  exact afterStatement_run h hplain semicolon false

theorem forall_head_cons {P : Token → Prop} (h : P t) : ∀ u ∈ (t :: ts).head?, P u := by
  intro u hu
  cases hu
  exact h

theorem any_head_eq_false {p : Token → Bool} (h : ∀ t ∈ ts.head?, p t = false) :
    ts.head?.any p = false := by
  cases ts with
  | nil => rfl
  | cons t ts => exact h t rfl

end Statement

section Closing
variable (c : Closing)

theorem find_closing :
    Extent.find 0 false (c.tokens ++ ts) = some ⟨c.semicolon.token.stop, ts⟩ := by
  rw [Closing.tokens]
  cases c.label with
  | none =>
    rw [List.cons_append, List.singleton_append,
      Extent.find_zero c.finish.is (Extent.bare_of_semicolon c.semicolon.isMark),
      Extent.ofEnd_semicolon c.semicolon.isMark]
  | some label =>
    have hbare : Extent.Bare (label.token :: c.semicolon.token :: ts) := by
      intro t ht
      cases ht
      exact label.isLabel
    rw [List.cons_append, List.cons_append, List.singleton_append,
      Extent.find_zero c.finish.is hbare, Extent.ofEnd_label label.isName c.semicolon.isMark]

theorem tokens_closing : c.tokens = c.finish.token :: c.tokens.tail := by
  rw [Closing.tokens]
  split <;> rfl

theorem find_execution (e : Execution Reserved.keywords) :
    Extent.find 0 false (e.statements ++ (c.tokens ++ ts)) =
      some ⟨c.semicolon.token.stop, ts⟩ := by
  have hbare : Extent.Bare (c.tokens ++ ts) := by
    rw [tokens_closing]
    exact Extent.bare_of_end c.finish.is
  rw [Extent.find_wellNested e.wellNested hbare, find_closing]

end Closing

end PlsqlNav.Written
