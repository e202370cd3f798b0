import PlsqlNav.Proofs.Written.Advance

/-! Reading undoes writing: the outline of a written unit holds the symbols and issues that the unit
stands for, however deep its routines nest. -/
namespace PlsqlNav.Written
open Token Scan

variable {text : List Char} {s : Scan} {scope : Scope} {outer : List Scope} {t : Token}
  {ts : List Token}

section Opening

/-- An `is` or `as` before something else than a call specification opens a scope. -/
theorem enter_body {recording : Bool} (first name : Token) (kind : Symbol.Kind) (heading : Heading)
    (opener : Word ["is", "as"])
    (hts : ∀ t ∈ ts.head?, t.isOneOf ["language", "external"] = false) :
    s.enter text recording ⟨first, kind, name.name, heading.run ++ opener.token :: ts⟩ =
      s.opened recording (if kind = .package .spec then .spec else .body)
        (symbol text s.scopes.length first kind name opener.token none) ts := by
  rw [enter, findEnd_body]
  dsimp only
  rw [List.tail_cons, any_head_eq_false hts, if_neg Bool.false_ne_true]
  cases recording <;> rfl

/-- A nested header that ends with a semicolon is a forward declaration. -/
theorem enter_forward {recording : Bool} (hs : s.scopes = scope :: outer) (first name : Token)
    (kind : Routine) (heading : Heading) (semicolon : Mark ';') :
    s.enter text recording ⟨first, kind.kind .body, name.name, heading.run ++ semicolon.token :: ts⟩ =
      s.advance recording
        [symbol text s.scopes.length first (kind.kind .spec) name semicolon.token none] [] ts := by
  have hkind : (kind.kind .body).counterpart = kind.kind .spec := by cases kind <;> rfl
  have hnested : (!s.scopes.isEmpty) = true := by rw [hs]; rfl
  rw [enter, findEnd_semicolon]
  dsimp only
  rw [hnested, if_pos rfl, hkind, List.tail_cons, record_goOn]
  rfl

theorem item_head (i : Item Reserved.keywords true) :
    ∀ t ∈ (i.tokens ++ ts).head?, t.isOneOf ["language", "external"] = false := by
  cases i with
  | pragma word run =>
    exact forall_head_cons (not_isOneOf_of_isWord word.is (by decide))
  | introduced kind word name run =>
    exact forall_head_cons (not_isOneOf_of_isWord word.is (by cases kind <;> decide))
  | constant name word run | exception name word | var name run plain =>
    exact forall_head_cons (name.opens rfl)
  | unexpected first run plain =>
    exact forall_head_cons (not_isOneOf_of_not_isName first.noName)

/-- What opens a scope is not followed by a call specification. -/
theorem items_head {flavour : Flavour} (items : Items Reserved.keywords flavour true)
    (hts : ∀ t ∈ ts.head?, t.isOneOf ["language", "external"] = false) :
    ∀ t ∈ (items.tokens ++ ts).head?, t.isOneOf ["language", "external"] = false := by
  have hroutine (kind : Routine) (word : Word [kind.keyword]) :
      word.token.isOneOf ["language", "external"] = false :=
    not_isOneOf_of_isWord word.is (by cases kind <;> decide)
  cases items with
  | nil => exact hts
  | item i semicolon more =>
    rw [Items.tokens, List.append_assoc]
    exact item_head i
  | specification kind word | forward kind word | routine kind word =>
    exact forall_head_cons (hroutine kind word)

end Opening

section Run

theorem run_step (hs : s.scopes = scope :: outer) : s.run text = (s.step text).run text := by
  apply run_notDone
  rw [isDone, hs, List.isEmpty_cons, Bool.and_false]
  decide

theorem step_execution (hs : s.scopes = scope :: outer) (e : Execution Reserved.keywords)
    (c : Closing) (hr : s.rest = e.tokens ++ (c.tokens ++ ts)) :
    s.step text = (s.leave scope outer c.semicolon.token.stop).goOn ts false := by
  rw [step_begin hs hr e.begin.is, List.append_eq, find_execution]
  rfl

theorem step_closing (hs : s.scopes = scope :: outer) (hd : s.afterDollar = false) (c : Closing)
    (hr : s.rest = c.tokens ++ ts) :
    s.step text = (s.leave scope outer c.semicolon.token.stop).goOn ts false := by
  rw [tokens_closing, List.cons_append] at hr
  rw [step_end hs hr c.finish.is, hd, ← List.cons_append, ← tokens_closing, find_closing]
  rfl

theorem isSome_ite (recording : Bool) (n : Nat) :
    (if recording then some n else none).isSome = recording := by
  cases recording <;> rfl

/-- A scan reads the items of its innermost scope one after another and records what they declare. -/
theorem run_items {flavour : Flavour} {opening : Bool}
    (items : Items Reserved.keywords flavour opening) (hs : s.scopes = scope :: outer)
    (hf : scope.flavour = flavour) (hd : s.afterDollar = false) (hr : s.rest = items.tokens ++ ts) :
    s.run text = (s.advance scope.symbol.isSome (items.symbols text s.scopes.length)
      items.issues ts).run text := by
  induction items generalizing s scope outer ts with
  | nil =>
    have hts : ts = s.rest := hr.symm
    rw [hts]
    exact congrArg (run text) (advance_nil hd).symm
  | item i semicolon more ih =>
    rw [Items.tokens, List.append_assoc, List.cons_append] at hr
    rw [run_step hs, step_item hs i semicolon hr,
      ih (s := s.advance _ _ _ _) hs hf rfl rfl, advance_advance]
    rfl
  | specification kind word signature semicolon more ih =>
    rw [Items.tokens, List.cons_append, List.append_assoc, List.cons_append] at hr
    have hpoint : ∀ t ∈ (semicolon.token :: (more.tokens ++ ts)).head?, t.isPunct '.' = false :=
      forall_head_cons (not_isPunct_of_isPunct semicolon.isMark (by decide))
    rw [run_step hs, step_specification hs hf hr kind word.is (qualifiedName_titled signature hpoint),
      declare_run signature.isRun, ih (s := s.advance _ _ _ _) hs hf rfl rfl, advance_advance]
    rfl
  | forward kind word heading semicolon more ih =>
    rw [Items.tokens, List.cons_append, List.append_assoc, List.cons_append] at hr
    have hpoint : ∀ t ∈ (semicolon.token :: (more.tokens ++ ts)).head?, t.isPunct '.' = false :=
      forall_head_cons (not_isPunct_of_isPunct semicolon.isMark (by decide))
    rw [run_step hs, step_routine hs hf hr kind word.is (qualifiedName_titled heading hpoint),
      enter_forward hs, advance_and, ih (s := s.advance _ _ _ _) hs hf rfl rfl, advance_advance]
    rfl
  | routine kind word heading opener inner execution closing more ihinner ih =>
    rw [Items.tokens, List.cons_append, List.append_assoc, List.cons_append, List.append_assoc,
      List.append_assoc, List.append_assoc] at hr
    have hpoint : ∀ t ∈ (opener.token :: (inner.tokens ++ (execution.tokens ++
        (closing.tokens ++ (more.tokens ++ ts))))).head?, t.isPunct '.' = false :=
      forall_head_cons (not_isPunct_of_isName opener.isName)
    have hbegin : ∀ t ∈ (execution.tokens ++ (closing.tokens ++ (more.tokens ++ ts))).head?,
        t.isOneOf ["language", "external"] = false :=
      forall_head_cons (not_isOneOf_of_isWord execution.begin.is (by decide))
    have hkind : (if kind.kind .body = .package .spec then Flavour.spec else .body) = .body := by
      cases kind <;> rfl
    rw [run_step hs, step_routine hs hf hr kind word.is (qualifiedName_titled heading hpoint),
      enter_body _ _ _ _ _ (items_head inner hbegin), hkind,
      ihinner (s := s.opened _ _ _ _) rfl rfl rfl rfl,
      run_step (s := (s.opened _ _ _ _).advance _ _ _ _) rfl,
      step_execution (s := (s.opened _ _ _ _).advance _ _ _ _) rfl execution closing rfl,
      isSome_ite, leave_opened, advance_and, ih (s := s.advance _ _ _ _) hs hf rfl rfl,
      advance_advance]
    rfl

end Run

section Unit

theorem unitKind_keyword (k : Keyword)
    (hbody : k.flavour = .spec → ∀ t ∈ ts.head?, t.isWord "body" = false) :
    Header.unitKind (k.tokens ++ ts) = some (k.kind, ts) := by
  cases k with
  | package word =>
    cases ts with
    | nil =>
      simp only [Keyword.tokens, List.append_nil, Header.unitKind, isWord_of_isWord word.is]
      rfl
    | cons u us =>
      simp only [Keyword.tokens, List.singleton_append, Header.unitKind, isWord_of_isWord word.is,
        hbody rfl u rfl]
      rfl
  | packageBody word body =>
    simp only [Keyword.tokens, List.cons_append, List.nil_append, Header.unitKind,
      isWord_of_isWord word.is, isWord_of_isWord body.is]
    rfl
  | routine kind word =>
    simp only [Keyword.tokens, List.singleton_append, Header.unitKind, isWord_of_isWord word.is]
    cases kind <;> rfl

theorem first_keyword (k : Keyword) : k.first.isOneOf ["package", "function", "procedure"] := by
  cases k with
  | package word | packageBody word =>
    exact isOneOf_iff.mpr ⟨"package", by simp, word.is⟩
  | routine kind word =>
    exact isOneOf_iff.mpr ⟨kind.keyword, by cases kind <;> simp [Routine.keyword], word.is⟩

theorem tokens_keyword (k : Keyword) : k.tokens = k.first :: k.tokens.tail := by
  cases k <;> rfl

theorem skipReplace_other (h : t.isWord "or" = false) :
    Header.skipReplace (t :: ts) = t :: ts := by
  cases ts with
  | nil => rfl
  | cons u us => rw [Header.skipReplace, h, Bool.false_and, if_neg Bool.false_ne_true]

/-- An edition is all that may still come before the keyword. -/
theorem skipWord_edition (edition : Option (Word ["editionable", "noneditionable"])) (k : Keyword) :
    Header.skipWord ["editionable", "noneditionable"]
      ((edition.map Word.token).toList ++ (k.tokens ++ ts)) = k.tokens ++ ts := by
  cases edition with
  | none =>
    have hnot : k.first.isOneOf ["editionable", "noneditionable"] = false :=
      not_isOneOf_of_isOneOf (first_keyword k) (by decide)
    rw [tokens_keyword k]
    show Header.skipWord _ (k.first :: (k.tokens.tail ++ ts)) = _
    rw [Header.skipWord, hnot, if_neg Bool.false_ne_true]
    rfl
  | some edition => exact if_pos edition.isWord

theorem skipReplace_edition (edition : Option (Word ["editionable", "noneditionable"]))
    (k : Keyword) : Header.skipReplace ((edition.map Word.token).toList ++ (k.tokens ++ ts)) =
      (edition.map Word.token).toList ++ (k.tokens ++ ts) := by
  cases edition with
  | none =>
    rw [tokens_keyword k]
    exact skipReplace_other (not_isWord_of_isOneOf (first_keyword k) (by decide))
  | some edition => exact skipReplace_other (not_isWord_of_isOneOf edition.isWord (by decide))

theorem skipCreate_creation (c : Option Creation) (k : Keyword) :
    Header.skipCreate ((c.map Creation.tokens).getD [] ++ (k.tokens ++ ts)) = k.tokens ++ ts := by
  cases c with
  | none =>
    have hcreate : k.first.isWord "create" = false :=
      not_isWord_of_isOneOf (first_keyword k) (by decide)
    rw [tokens_keyword k]
    show Header.skipCreate (k.first :: (k.tokens.tail ++ ts)) = _
    rw [Header.skipCreate, hcreate, if_neg Bool.false_ne_true]
    rfl
  | some c =>
    obtain ⟨create, replace, edition⟩ := c
    cases replace with
    | some replace =>
      obtain ⟨orWord, replaceWord⟩ := replace
      show Header.skipCreate (create.token :: orWord.token :: replaceWord.token ::
        ((edition.map Word.token).toList ++ (k.tokens ++ ts))) = _
      rw [Header.skipCreate, if_pos create.is, Header.skipReplace, orWord.is, replaceWord.is,
        Bool.and_self, if_pos rfl, skipWord_edition]
    | none =>
      show Header.skipCreate (create.token ::
        ((edition.map Word.token).toList ++ (k.tokens ++ ts))) = _
      rw [Header.skipCreate, if_pos create.is, skipReplace_edition, skipWord_edition]

theorem ofUnit?_unit {r : Reserved} (u : LibraryUnit r) :
    Header.ofUnit? (u.headTokens ++ u.opener.token :: ts) = some ⟨u.first, u.keyword.kind,
      u.heading.name.last.name, u.heading.run ++ u.opener.token :: ts⟩ := by
  have hfirst : (u.headTokens ++ u.opener.token :: ts).head? = some u.first := by
    rw [LibraryUnit.headTokens, LibraryUnit.first, tokens_keyword u.keyword]
    cases u.creation <;> rfl
  have hbody : u.keyword.flavour = .spec →
      ∀ t ∈ (u.heading.tokens ++ u.opener.token :: ts).head?, t.isWord "body" = false := by
    intro hspec t ht
    have hnot := u.notBody hspec
    rw [Titled.tokens] at ht
    cases hn : u.heading.name with
    | plain name | qualified schema point name =>
      rw [hn] at ht hnot
      cases ht
      exact hnot
  have hpoint : ∀ t ∈ (u.opener.token :: ts).head?, t.isPunct '.' = false :=
    forall_head_cons (not_isPunct_of_isName u.opener.isName)
  rw [Header.ofUnit?, hfirst, LibraryUnit.headTokens, List.append_assoc, List.append_assoc,
    skipCreate_creation, unitKind_keyword u.keyword hbody]
  simp only [Option.bind_eq_bind, Option.bind_some, qualifiedName_titled u.heading hpoint]

theorem flavour_keyword (k : Keyword) :
    (if k.kind = .package .spec then Flavour.spec else .body) = k.flavour := by
  cases k with
  | package word | packageBody word body => rfl
  | routine kind word => cases kind <;> rfl

/-- The scope of a unit closes at the end of its execution section, or at its `end` without one. -/
theorem step_finish (hs : s.scopes = scope :: outer) (hd : s.afterDollar = false)
    (e : Option (Execution Reserved.keywords)) (c : Closing)
    (hr : s.rest = (e.map Execution.tokens).getD [] ++ (c.tokens ++ ts)) :
    s.step text = (s.leave scope outer c.semicolon.token.stop).goOn ts false := by
  cases e with
  | none => exact step_closing hs hd c hr
  | some e => exact step_execution hs e c hr

/-- Reading a written unit leaves its symbols and its issues, and nothing else. -/
theorem run_unit (u : LibraryUnit Reserved.keywords) (text : List Char) :
    (ofTokens u.tokens).run text =
      (ofTokens u.tokens).advance true (u.symbols text) u.items.issues [] := by
  have hnotDone : ¬ (ofTokens u.tokens).isDone := by
    rw [isDone, ofTokens, LibraryUnit.tokens]
    simp
  have hfinish : ∀ t ∈ ((u.execution.map Execution.tokens).getD [] ++ u.closing.tokens).head?,
      t.isOneOf ["language", "external"] = false := by
    cases u.execution with
    | none =>
      rw [tokens_closing]
      exact forall_head_cons (not_isOneOf_of_isWord u.closing.finish.is (by decide))
    | some e =>
      exact forall_head_cons (not_isOneOf_of_isWord e.begin.is (by decide))
  have hstep : (ofTokens u.tokens).step text = (ofTokens u.tokens).opened true u.keyword.flavour
      (symbol text 0 u.first u.keyword.kind u.heading.name.last u.opener.token none)
      (u.items.tokens ++ ((u.execution.map Execution.tokens).getD [] ++ u.closing.tokens)) := by
    show (ofTokens u.tokens).stepOut text = _
    rw [stepOut, ofTokens, LibraryUnit.tokens, ofUnit?_unit]
    dsimp only
    rw [enter_body _ _ _ _ _ (items_head u.items hfinish), flavour_keyword]
    rfl
  rw [run_notDone hnotDone, hstep,
    run_items (s := (ofTokens u.tokens).opened true u.keyword.flavour _ _) u.items rfl rfl rfl rfl,
    run_step (s := ((ofTokens u.tokens).opened true u.keyword.flavour _ _).advance _ _ _ _) rfl,
    step_finish (s := ((ofTokens u.tokens).opened true u.keyword.flavour _ _).advance _ _ _ _)
      rfl rfl u.execution u.closing (by rw [List.append_nil]; rfl)]
  exact (congrArg (run text) (leave_opened _ _ _)).trans (run_done rfl)

/-- The outline of a written unit is the one that it stands for. -/
theorem ofText_written (u : LibraryUnit Reserved.keywords) (file text : String)
    (h : Token.ofText text = u.tokens) :
    (Outline.ofText file text).symbols.toList = u.symbols text.toList ∧
      (Outline.ofText file text).issues = u.items.issues := by
  rw [Outline.ofText, h]
  dsimp only
  rw [run_unit]
  constructor <;> simp [advance, ofTokens]

end Unit

section Examples

def semicolonAt (start : Nat) : Mark ';' := ⟨markAt start ';', rfl⟩

def headingAt (start : Nat) (name : String) : Heading where
  name := .plain ⟨wordAt start name, rfl⟩
  run := []
  isRun := .nil
  noPoint := by simp

def nestedText : String := "package body p is procedure q is begin null; end; n number; end p;"

def nestedUnit : LibraryUnit Reserved.keywords where
  creation := none
  keyword := .packageBody ⟨wordAt 0 "package", by decide⟩ ⟨wordAt 8 "body", by decide⟩
  heading := headingAt 13 "p"
  notBody := by decide
  opener := ⟨wordAt 15 "is", by decide⟩
  items := .routine .procedure ⟨wordAt 18 "procedure", by decide⟩ (headingAt 28 "q")
    ⟨wordAt 30 "is", by decide⟩ .nil
    ⟨⟨wordAt 33 "begin", by decide⟩, [wordAt 39 "null", markAt 43 ';'],
      .token (by decide) (by decide) (.token (by decide) (by decide) .nil)⟩
    ⟨⟨wordAt 45 "end", by decide⟩, none, semicolonAt 48⟩
    (.item (.var ⟨wordAt 50 "n", by decide, by decide, by decide⟩
      ⟨[wordAt 52 "number"], by decide⟩ (by decide)) (semicolonAt 58) .nil)
  execution := none
  executes := trivial
  closing := ⟨⟨wordAt 60 "end", by decide⟩, some ⟨wordAt 64 "p", by decide, by decide⟩, semicolonAt 65⟩

theorem ofText_nestedUnit : Token.ofText nestedText = nestedUnit.tokens ∧
    (Outline.ofText "p.pkb" nestedText).symbols.toList = nestedUnit.symbols nestedText.toList ∧
      (Outline.ofText "p.pkb" nestedText).issues = nestedUnit.items.issues := by
  have htokens : Token.ofText nestedText = nestedUnit.tokens := by decide +kernel
  exact ⟨htokens, ofText_written nestedUnit "p.pkb" nestedText htokens⟩

def callText : String := "package p is language number; end p;"

/-- A package whose first variable is named `language`, which announces a call specification. -/
def callUnit : LibraryUnit Reserved.afterEnd where
  creation := none
  keyword := .package ⟨wordAt 0 "package", by decide⟩
  heading := headingAt 8 "p"
  notBody := by decide
  opener := ⟨wordAt 10 "is", by decide⟩
  items := .item (.var ⟨wordAt 13 "language", by decide, by decide, by decide⟩
    ⟨[wordAt 22 "number"], by decide⟩ (by decide)) (semicolonAt 28) .nil
  execution := none
  executes := rfl
  closing := ⟨⟨wordAt 30 "end", by decide⟩, some ⟨wordAt 34 "p", by decide, by decide⟩, semicolonAt 35⟩

def createText : String := "package p is create number; end p;"

/-- A package with a variable named `create`, which starts the next unit. -/
def createUnit : LibraryUnit { Reserved.keywords with leading := [] } where
  creation := none
  keyword := .package ⟨wordAt 0 "package", by decide⟩
  heading := headingAt 8 "p"
  notBody := by decide
  opener := ⟨wordAt 10 "is", by decide⟩
  items := .item (.var ⟨wordAt 13 "create", by decide, by decide, by decide⟩
    ⟨[wordAt 20 "number"], by decide⟩ (by decide)) (semicolonAt 26) .nil
  execution := none
  executes := rfl
  closing := ⟨⟨wordAt 28 "end", by decide⟩, some ⟨wordAt 32 "p", by decide, by decide⟩, semicolonAt 33⟩

def labelText : String := "procedure p is begin begin null; end begin; end p;"

/-- A procedure with an inner block labelled `begin`, which opens one more block. -/
def labelUnit : LibraryUnit { Reserved.keywords with label := Reserved.afterEnd.label } where
  creation := none
  keyword := .routine .procedure ⟨wordAt 0 "procedure", by decide⟩
  heading := headingAt 10 "p"
  notBody := by decide
  opener := ⟨wordAt 12 "is", by decide⟩
  items := .nil
  execution := some ⟨⟨wordAt 15 "begin", by decide⟩,
    [wordAt 21 "begin", wordAt 27 "null", markAt 31 ';', wordAt 33 "end", wordAt 37 "begin",
      markAt 42 ';'],
    @WellNested.labelled _ (wordAt 21 "begin") (wordAt 33 "end") (wordAt 37 "begin")
      (markAt 42 ';') [wordAt 27 "null", markAt 31 ';'] [] (by decide)
      (.token (by decide) (by decide) (.token (by decide) (by decide) .nil)) (by decide) (by decide)
      (by decide) (by decide) .nil⟩
  executes := rfl
  closing := ⟨⟨wordAt 44 "end", by decide⟩, some ⟨wordAt 48 "p", by decide, by decide⟩, semicolonAt 49⟩

/-- It is not enough to reserve the words that make another `end` of the one before them, and each of
the other lists is needed on its own. -/
theorem misread_afterEnd :
    (¬ ∀ (u : LibraryUnit Reserved.afterEnd) (file text : String), Token.ofText text = u.tokens →
      (Outline.ofText file text).symbols.toList = u.symbols text.toList ∧
        (Outline.ofText file text).issues = u.items.issues) ∧
    (¬ ∀ (u : LibraryUnit { Reserved.keywords with leading := [] }) (file text : String),
      Token.ofText text = u.tokens →
        (Outline.ofText file text).symbols.toList = u.symbols text.toList ∧
          (Outline.ofText file text).issues = u.items.issues) ∧
    ¬ ∀ (u : LibraryUnit { Reserved.keywords with label := Reserved.afterEnd.label })
      (file text : String), Token.ofText text = u.tokens →
        (Outline.ofText file text).symbols.toList = u.symbols text.toList ∧
          (Outline.ofText file text).issues = u.items.issues := by
  refine ⟨?_, ?_, ?_⟩
  · intro h
    exact absurd (h callUnit "p.pks" callText (by decide +kernel)) (by decide +kernel)
  · intro h
    exact absurd (h createUnit "p.pks" createText (by decide +kernel)) (by decide +kernel)
  · intro h
    exact absurd (h labelUnit "p.sql" labelText (by decide +kernel)) (by decide +kernel)

end Examples

end PlsqlNav.Written
