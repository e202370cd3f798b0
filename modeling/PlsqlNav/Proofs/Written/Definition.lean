import PlsqlNav.Parameter
import PlsqlNav.Proofs.Written.Reading

/-! Definitions of routines as they are written: which tokens make one up, and which parameters these
tokens stand for. Reading the parameters of a definition undoes writing it. -/
namespace PlsqlNav.Written
open Token

/-- Any tokens with balanced parentheses and no comma outside them. -/
inductive PartRun : List Token → Prop
  | nil : PartRun []
  | token {t ts} : t.isPunct '(' = false → t.isPunct ')' = false → t.isPunct ',' = false →
      PartRun ts → PartRun (t :: ts)
  | group {l r inner ts} : l.isPunct '(' → Balanced inner → r.isPunct ')' → PartRun ts →
      PartRun (l :: inner ++ r :: ts)

inductive Mode where
  | unwritten
  | input (inWord : Word ["in"])
  | output (outWord : Word ["out"])
  | both (inWord : Word ["in"]) (outWord : Word ["out"])

namespace Mode

def tokens : Mode → List Token
  | unwritten => []
  | input inWord => [inWord.token]
  | output outWord => [outWord.token]
  | both inWord outWord => [inWord.token, outWord.token]

def meaning : Mode → Parameter.Mode
  | unwritten | input _ => .input
  | output _ => .output
  | both _ _ => .both

/-- The words that would make another mode of this one. -/
def extensions : Mode → List String
  | unwritten => ["in", "out"]
  | input _ => ["out"]
  | output _ | both _ _ => []

/-- The words that would go on with a mode and a `nocopy` after it, if they stood behind them. -/
def barred (mode : Mode) : Option (Word ["nocopy"]) → List String
  | none => "nocopy" :: mode.extensions
  | some _ => []

end Mode

/-- A type that starts with none of the words `barred`. -/
structure TypeRun (barred : List String) where
  tokens : List Token
  ne_nil : tokens ≠ []
  isRun : PartRun tokens
  noDefault : ∀ t ∈ tokens, t.isWord "default" = false
  noAssignment : ∀ a b, [a, b] <:+: tokens → a.isPunct ':' → b.isPunct '=' = false
  opens : ∀ t ∈ tokens.head?, t.isOneOf barred = false

inductive Default where
  | word (keyword : Word ["default"]) (run : List Token) (isRun : PartRun run)
  | assignment (colon : Mark ':') (equals : Mark '=') (run : List Token) (isRun : PartRun run)

def Default.tokens : Default → List Token
  | word keyword run _ => keyword.token :: run
  | assignment colon equals run _ => colon.token :: equals.token :: run

structure Formal where
  name : Ident
  mode : Mode
  nocopy : Option (Word ["nocopy"])
  type : TypeRun (mode.barred nocopy)
  default : Option Default

def Formal.tokens (p : Formal) : List Token :=
  p.name.token :: (p.mode.tokens ++ ((p.nocopy.map Word.token).toList ++
    (p.type.tokens ++ (p.default.map Default.tokens).getD [])))

/-- Parameters with commas between them. -/
inductive Formals where
  | last (p : Formal)
  | more (p : Formal) (comma : Mark ',') (others : Formals)

namespace Formals

def tokens : Formals → List Token
  | last p => p.tokens
  | more p comma others => p.tokens ++ comma.token :: others.tokens

def toList : Formals → List Formal
  | last p => [p]
  | more p _ others => p :: others.toList

end Formals

structure ParameterList where
  left : Mark '('
  formals : Option Formals
  right : Mark ')'

def ParameterList.tokens (l : ParameterList) : List Token :=
  l.left.token :: ((l.formals.map Formals.tokens).getD [] ++ [l.right.token])

/-- What a function returns, and modifiers, which are no part of it. -/
structure Returned where
  keyword : Word ["return"]
  type : List Token
  ne_nil : type ≠ []
  noModifier : ∀ t ∈ type, t.isOneOf Parameter.modifiers = false
  modifiers : List Token
  isModifier : ∀ t ∈ modifiers.head?, t.isOneOf Parameter.modifiers

def Returned.tokens (r : Returned) : List Token := r.keyword.token :: (r.type ++ r.modifiers)

structure Definition where
  lead : List Token
  leads : ∀ t ∈ lead, t.isOneOf ["function", "procedure"] = false
  keyword : Word ["function", "procedure"]
  name : Name
  parameters : Option ParameterList
  returned : Option Returned

def Definition.tokens (d : Definition) : List Token :=
  d.lead ++ d.keyword.token :: (d.name.tokens ++
    ((d.parameters.map ParameterList.tokens).getD [] ++ (d.returned.map Returned.tokens).getD []))

section Meaning
variable (text : List Char)

/-- The text from the first of the tokens to the last. -/
def excerpt (ts : List Token) (h : ts ≠ []) : String :=
  String.ofList (Text.slice (ts.head h).start (ts.getLast h).stop text)

def Formal.meaning (p : Formal) : Parameter where
  text := excerpt text p.tokens (List.cons_ne_nil _ _)
  name := p.name.token.name
  typeText := excerpt text p.type.tokens p.type.ne_nil
  mode := p.mode.meaning

def Returned.meaning (r : Returned) : Parameter where
  text := excerpt text (r.keyword.token :: r.type) (List.cons_ne_nil _ _)
  name := ""
  typeText := excerpt text r.type r.ne_nil
  mode := .result

def ParameterList.meaning (l : ParameterList) : List Parameter :=
  (l.formals.map Formals.toList).getD [] |>.map (Formal.meaning text)

/-- One parameter for each that is written, in order, and one for what is returned. -/
def Definition.meaning (d : Definition) : List Parameter :=
  (d.parameters.map (ParameterList.meaning text)).getD [] ++
    (d.returned.map (Returned.meaning text)).toList

end Meaning

section Runs
variable {ts us part inner run : List Token}

theorem PartRun.append (h : PartRun ts) (k : PartRun us) : PartRun (ts ++ us) := by
  induction h with
  | nil => exact k
  | token hopen hclose hcomma _ ih => exact .token hopen hclose hcomma ih
  | @group l r inner ts hopen hinner hclose _ ih =>
    rw [List.append_assoc]
    exact .group hopen hinner hclose ih

theorem PartRun.name {t : Token} (ht : t.isName) (h : PartRun ts) : PartRun (t :: ts) :=
  .token (not_isPunct_of_isName ht) (not_isPunct_of_isName ht) (not_isPunct_of_isName ht) h

theorem PartRun.mark {t : Token} {c : Char} (ht : t.isPunct c) (hopen : c ≠ '(') (hclose : c ≠ ')')
    (hcomma : c ≠ ',') (h : PartRun ts) : PartRun (t :: ts) :=
  .token (not_isPunct_of_isPunct ht hopen) (not_isPunct_of_isPunct ht hclose)
    (not_isPunct_of_isPunct ht hcomma) h

/-- Within parentheses no comma splits. -/
theorem splitParts_balanced (h : Balanced inner) (depth : Nat) (part ts : List Token) :
    Parameter.splitParts (depth + 1) part (inner ++ ts) =
      Parameter.splitParts (depth + 1) (inner.reverse ++ part) ts := by
  induction h generalizing depth part ts with
  | nil => rfl
  | @token t inner hopen hclose _ ih =>
    have hdepth : (depth + 1 == 0) = false := rfl
    rw [List.cons_append, Parameter.splitParts, hopen, hclose, hdepth, Bool.and_false,
      if_neg Bool.false_ne_true, if_neg Bool.false_ne_true, if_neg Bool.false_ne_true, ih,
      List.reverse_cons, List.append_assoc, List.singleton_append]
  | @group l r inner us hopen _ hclose _ ihinner ih =>
    have hnot : r.isPunct '(' = false := not_isPunct_of_isPunct hclose (by decide)
    rw [List.cons_append, List.cons_append, List.append_assoc, Parameter.splitParts, if_pos hopen,
      ihinner, List.cons_append, Parameter.splitParts, hnot, if_neg Bool.false_ne_true,
      if_pos hclose, ih]
    simp only [List.reverse_append, List.reverse_cons, List.append_assoc, List.cons_append,
      List.nil_append]

theorem splitParts_run (h : PartRun run) (part ts : List Token) :
    Parameter.splitParts 0 part (run ++ ts) = Parameter.splitParts 0 (run.reverse ++ part) ts := by
  induction h generalizing part ts with
  | nil => rfl
  | @token t run hopen hclose hcomma _ ih =>
    rw [List.cons_append, Parameter.splitParts, hopen, hclose, hcomma, Bool.false_and,
      if_neg Bool.false_ne_true, if_neg Bool.false_ne_true, if_neg Bool.false_ne_true, ih,
      List.reverse_cons, List.append_assoc, List.singleton_append]
  | @group l r inner us hopen hinner hclose _ ih =>
    have hnot : r.isPunct '(' = false := not_isPunct_of_isPunct hclose (by decide)
    rw [List.cons_append, List.cons_append, List.append_assoc, Parameter.splitParts, if_pos hopen,
      splitParts_balanced hinner, List.cons_append, Parameter.splitParts, hnot,
      if_neg Bool.false_ne_true, if_pos hclose, ih]
    simp only [List.reverse_append, List.reverse_cons, List.append_assoc, List.cons_append,
      List.nil_append]

theorem splitParts_close (right : Mark ')') :
    Parameter.splitParts 0 part (right.token :: ts) = ([part.reverse], ts) := by
  have hnot : right.token.isPunct '(' = false := not_isPunct_of_isPunct right.isMark (by decide)
  rw [Parameter.splitParts, hnot, if_neg Bool.false_ne_true, if_pos right.isMark]

theorem splitParts_comma (comma : Mark ',') : Parameter.splitParts 0 part (comma.token :: ts) =
    (part.reverse :: (Parameter.splitParts 0 [] ts).1, (Parameter.splitParts 0 [] ts).2) := by
  have hopen : comma.token.isPunct '(' = false := not_isPunct_of_isPunct comma.isMark (by decide)
  have hclose : comma.token.isPunct ')' = false := not_isPunct_of_isPunct comma.isMark (by decide)
  rw [Parameter.splitParts, hopen, hclose, comma.isMark, if_neg Bool.false_ne_true,
    if_neg Bool.false_ne_true]
  rfl

/-- A type ends where its tokens do, or at a default. -/
theorem typeTokens_run (hdefault : ∀ t ∈ ts, t.isWord "default" = false)
    (hassign : ∀ a b, [a, b] <:+: ts → a.isPunct ':' → b.isPunct '=' = false)
    (hnext : ∀ t ∈ us.head?, t.isPunct '=' = false) (hus : Parameter.typeTokens us = []) :
    Parameter.typeTokens (ts ++ us) = ts := by
  induction ts with
  | nil => exact hus
  | cons t ts ih =>
    have hcolon : t.isPunct ':' → (ts ++ us).head?.any (·.isPunct '=') = false := by
      intro ht
      cases ts with
      | nil => exact any_head_eq_false hnext
      | cons u ts => exact hassign t u (List.prefix_append [t, u] ts).isInfix ht
    have hgoes : (t.isWord "default" || (t.isPunct ':' && (ts ++ us).head?.any (·.isPunct '='))) =
        false := by
      rw [hdefault t List.mem_cons_self, Bool.false_or]
      cases ht : t.isPunct ':' with
      | false => rfl
      | true => rw [hcolon ht, Bool.and_false]
    rw [List.cons_append, Parameter.typeTokens, hgoes, if_neg Bool.false_ne_true,
      ih (fun u hu => hdefault u (List.mem_cons_of_mem t hu))
        fun a b hab => hassign a b (hab.trans (List.suffix_cons t ts).isInfix)]

end Runs

section Reading
variable {text : List Char} {ts : List Token}

theorem textOf_eq (h : ts ≠ []) : Parameter.textOf text ts = excerpt text ts h := by
  have hlast := List.getLast?_eq_some_getLast h
  cases ts with
  | nil => contradiction
  | cons first us =>
    simp only [Parameter.textOf, hlast]
    rfl

theorem readMode_tokens (mode : Mode)
    (h : ∀ t ∈ ts.head?, t.isOneOf mode.extensions = false) :
    Parameter.readMode (mode.tokens ++ ts) = (mode.meaning, ts) := by
  cases mode with
  | unwritten =>
    cases ts with
    | nil => rfl
    | cons t ts =>
      have ht := not_isOneOf_iff.mp (h t rfl)
      simp only [Mode.tokens, List.nil_append, Parameter.readMode, ht "in" (by decide),
        ht "out" (by decide), Bool.false_eq_true, if_false]
      rfl
  | input inWord =>
    simp only [Mode.tokens, List.singleton_append, Parameter.readMode, inWord.is, if_true]
    cases ts with
    | nil => rfl
    | cons t ts =>
      have ht := not_isOneOf_iff.mp (h t rfl) "out" (List.mem_singleton_self _)
      simp only [ht, Bool.false_eq_true, if_false]
      rfl
  | output outWord =>
    have hin : outWord.token.isWord "in" = false := not_isWord_of_isWord outWord.is (by decide)
    simp only [Mode.tokens, List.singleton_append, Parameter.readMode, hin, outWord.is,
      Bool.false_eq_true, if_false, if_true]
    rfl
  | both inWord outWord =>
    simp only [Mode.tokens, List.cons_append, List.nil_append, Parameter.readMode, inWord.is,
      outWord.is, if_true]
    rfl

section Front
variable {mode : Mode} {nocopy : Option (Word ["nocopy"])}
  (h : ∀ t ∈ ts.head?, t.isOneOf (mode.barred nocopy) = false)
include h

theorem readMode_written : Parameter.readMode (mode.tokens ++ ((nocopy.map Word.token).toList ++ ts)) =
    (mode.meaning, (nocopy.map Word.token).toList ++ ts) := by
  apply readMode_tokens
  intro t ht
  cases nocopy with
  | none => exact not_isOneOf_of_subset (h t ht) fun k hk => List.mem_cons_of_mem _ hk
  | some word =>
    obtain rfl : word.token = t := Option.some.inj ht
    cases mode <;> exact not_isOneOf_of_isWord word.is rfl

theorem skipWord_written :
    Header.skipWord ["nocopy"] ((nocopy.map Word.token).toList ++ ts) = ts := by
  cases nocopy with
  | none =>
    cases ts with
    | nil => rfl
    | cons t ts =>
      have ht : t.isOneOf ["nocopy"] = false :=
        not_isOneOf_of_subset (h t rfl) fun k hk => by simp_all [Mode.barred]
      rw [Option.map_none, Option.toList_none, List.nil_append, Header.skipWord, ht]
      rfl
  | some word =>
    rw [Option.map_some, Option.toList_some, List.singleton_append, Header.skipWord,
      if_pos word.isWord]

end Front

/-- A default ends a type and does not start with an equals sign. -/
theorem Default.stops (default : Option Default) :
    (∀ t ∈ ((default.map Default.tokens).getD []).head?, t.isPunct '=' = false) ∧
      Parameter.typeTokens ((default.map Default.tokens).getD []) = [] := by
  rcases default with _ | ⟨keyword, run, _⟩ | ⟨colon, equals, run, _⟩
  · exact ⟨by simp, rfl⟩
  · refine ⟨?_, ?_⟩
    · intro t ht
      obtain rfl : keyword.token = t := Option.some.inj ht
      exact not_isPunct_of_isName keyword.isName
    · rw [Option.map_some, Option.getD_some, tokens, Parameter.typeTokens, keyword.is,
        Bool.true_or, if_pos rfl]
  · refine ⟨?_, ?_⟩
    · intro t ht
      obtain rfl : colon.token = t := Option.some.inj ht
      exact not_isPunct_of_isPunct colon.isMark (by decide)
    · rw [Option.map_some, Option.getD_some, tokens, Parameter.typeTokens, colon.isMark,
        List.head?_cons, Option.any_some, equals.isMark, Bool.and_self, Bool.or_true, if_pos rfl]

namespace Formal
variable (p : Formal)

theorem partRun : PartRun p.tokens := by
  have hmode : PartRun p.mode.tokens := by
    cases p.mode with
    | unwritten => exact .nil
    | input inWord => exact .name inWord.isName .nil
    | output outWord => exact .name outWord.isName .nil
    | both inWord outWord => exact .name inWord.isName (.name outWord.isName .nil)
  have hnocopy : PartRun (p.nocopy.map Word.token).toList := by
    cases p.nocopy with
    | none => exact .nil
    | some word => exact .name word.isName .nil
  have hdefault : PartRun ((p.default.map Default.tokens).getD []) := by
    rcases p.default with _ | ⟨keyword, run, isRun⟩ | ⟨colon, equals, run, isRun⟩
    · exact .nil
    · exact .name keyword.isName isRun
    · exact .mark colon.isMark (by decide) (by decide) (by decide)
        (.mark equals.isMark (by decide) (by decide) (by decide) isRun)
  exact .name p.name.isName (hmode.append (hnocopy.append (p.type.isRun.append hdefault)))

theorem ofTokens?_tokens : Parameter.ofTokens? text p.tokens = some (p.meaning text) := by
  obtain ⟨hnext, hstop⟩ := Default.stops p.default
  have hopens : ∀ t ∈ (p.type.tokens ++ (p.default.map Default.tokens).getD []).head?,
      t.isOneOf (p.mode.barred p.nocopy) = false := by
    obtain ⟨first, more, hfirst⟩ := List.exists_cons_of_ne_nil p.type.ne_nil
    intro t ht
    rw [hfirst] at ht
    exact p.type.opens t (by rw [hfirst]; exact ht)
  have htype := typeTokens_run p.type.noDefault p.type.noAssignment hnext hstop
  have hempty : p.type.tokens.isEmpty = false := List.isEmpty_eq_false_iff.mpr p.type.ne_nil
  rw [tokens, Parameter.ofTokens?, readMode_written hopens]
  dsimp only
  rw [skipWord_written hopens, htype, hempty, textOf_eq (List.cons_ne_nil _ _),
    textOf_eq p.type.ne_nil, if_neg Bool.false_ne_true]
  rfl

end Formal

theorem splitParts_formals (ps : Formals) (right : Mark ')') :
    Parameter.splitParts 0 [] (ps.tokens ++ right.token :: ts) =
      (ps.toList.map Formal.tokens, ts) := by
  induction ps with
  | last p =>
    rw [Formals.tokens, splitParts_run p.partRun, splitParts_close, List.append_nil,
      List.reverse_reverse]
    rfl
  | more p comma others ih =>
    rw [Formals.tokens, List.append_assoc, List.cons_append, splitParts_run p.partRun,
      splitParts_comma, ih, List.append_nil, List.reverse_reverse]
    rfl

theorem filterMap_formals (ps : List Formal) :
    (ps.map Formal.tokens).filterMap (Parameter.ofTokens? text) = ps.map (Formal.meaning text) := by
  induction ps with
  | nil => rfl
  | cons p ps ih =>
    rw [List.map_cons, List.filterMap_cons_some p.ofTokens?_tokens, ih, List.map_cons]

/-- The parts of the list that may follow a name, and the tokens after it. -/
def listed (ts : List Token) : List (List Token) × List Token :=
  match ts with
  | t :: rest => if t.isPunct '(' then Parameter.splitParts 0 [] rest else ([], ts)
  | [] => ([], [])

theorem listed_of_not_isPunct (h : ∀ t ∈ ts.head?, t.isPunct '(' = false) : listed ts = ([], ts) := by
  cases ts with
  | nil => rfl
  | cons t ts => rw [listed, h t rfl, if_neg Bool.false_ne_true]

/-- An empty list leaves one part without tokens, which is no parameter. -/
theorem listed_parameterList (l : ParameterList) :
    (listed (l.tokens ++ ts)).1.filterMap (Parameter.ofTokens? text) = l.meaning text ∧
      (listed (l.tokens ++ ts)).2 = ts := by
  rw [ParameterList.tokens, List.cons_append, List.append_assoc, List.singleton_append, listed,
    if_pos l.left.isMark, ParameterList.meaning]
  cases l.formals with
  | none =>
    rw [Option.map_none, Option.getD_none, List.nil_append, splitParts_close]
    exact ⟨rfl, rfl⟩
  | some ps =>
    rw [Option.map_some, Option.getD_some, splitParts_formals]
    exact ⟨filterMap_formals ps.toList, rfl⟩

theorem ofReturn?_tokens (returned : Option Returned) :
    Parameter.ofReturn? text ((returned.map Returned.tokens).getD []) =
      returned.map (Returned.meaning text) := by
  cases returned with
  | none => rfl
  | some r =>
    have htype : (r.type ++ r.modifiers).takeWhile (fun t => !t.isOneOf Parameter.modifiers) =
        r.type := by
      rw [List.takeWhile_append_of_pos fun t ht => by rw [r.noModifier t ht]; rfl]
      cases hmodifiers : r.modifiers with
      | nil => rw [List.takeWhile_nil, List.append_nil]
      | cons t ts =>
        have ht := r.isModifier t (by rw [hmodifiers]; rfl)
        rw [List.takeWhile_cons_of_neg (by rw [ht]; decide), List.append_nil]
    have hempty : r.type.isEmpty = false := List.isEmpty_eq_false_iff.mpr r.ne_nil
    simp only [Option.map_some, Option.getD_some, Returned.tokens, Parameter.ofReturn?, htype,
      hempty, r.keyword.is, Bool.not_false, Bool.and_self, if_true, textOf_eq r.ne_nil,
      textOf_eq (List.cons_ne_nil r.keyword.token r.type)]
    rfl

/-- What follows the name of a routine is no point. -/
theorem afterName_head (parameters : Option ParameterList) (returned : Option Returned) :
    ∀ t ∈ ((parameters.map ParameterList.tokens).getD [] ++
      (returned.map Returned.tokens).getD []).head?, t.isPunct '.' = false := by
  intro t ht
  cases parameters with
  | some l =>
    obtain rfl : l.left.token = t := Option.some.inj ht
    exact not_isPunct_of_isPunct l.left.isMark (by decide)
  | none =>
    cases returned with
    | some r =>
      obtain rfl : r.keyword.token = t := Option.some.inj ht
      exact not_isPunct_of_isName r.keyword.isName
    | none => contradiction

theorem listed_written (text : List Char) (parameters : Option ParameterList) (returned : Option Returned) :
    (listed ((parameters.map ParameterList.tokens).getD [] ++
        (returned.map Returned.tokens).getD [])).1.filterMap (Parameter.ofTokens? text) =
      (parameters.map (ParameterList.meaning text)).getD [] ∧
    (listed ((parameters.map ParameterList.tokens).getD [] ++
        (returned.map Returned.tokens).getD [])).2 = (returned.map Returned.tokens).getD [] := by
  cases parameters with
  | some l => exact listed_parameterList l
  | none =>
    rw [Option.map_none, Option.getD_none, List.nil_append, listed_of_not_isPunct]
    · exact ⟨rfl, rfl⟩
    · intro t ht
      cases returned with
      | none => contradiction
      | some r =>
        obtain rfl : r.keyword.token = t := Option.some.inj ht
        exact not_isPunct_of_isName r.keyword.isName

end Reading

/-- The parameters of a definition are those that are written in it. -/
theorem ofDefinition_written (d : Definition) (text : String) (h : Token.ofText text = d.tokens) :
    Parameter.ofDefinition text = d.meaning text.toList := by
  have hroutine : d.tokens.dropWhile (fun t => !t.isOneOf ["function", "procedure"]) =
      d.keyword.token :: (d.name.tokens ++ ((d.parameters.map ParameterList.tokens).getD [] ++
        (d.returned.map Returned.tokens).getD [])) := by
    rw [Definition.tokens, List.dropWhile_append_of_pos fun t ht => by rw [d.leads t ht]; rfl,
      List.dropWhile_cons_of_neg (by rw [d.keyword.isWord]; decide)]
  have hname := qualifiedName_titled (⟨d.name, [], rfl, by simp⟩ : Titled (· = []))
    (afterName_head d.parameters d.returned)
  simp only [Titled.tokens, List.append_nil, List.nil_append] at hname
  obtain ⟨hparts, hrest⟩ := listed_written text.toList d.parameters d.returned
  calc Parameter.ofDefinition text
      = (listed ((d.parameters.map ParameterList.tokens).getD [] ++
            (d.returned.map Returned.tokens).getD [])).1.filterMap (Parameter.ofTokens? text.toList) ++
          (Parameter.ofReturn? text.toList (listed ((d.parameters.map ParameterList.tokens).getD [] ++
            (d.returned.map Returned.tokens).getD [])).2).toList := by
        rw [Parameter.ofDefinition, h, hroutine]
        dsimp only [List.tail_cons]
        rw [hname]
        rfl
    _ = d.meaning text.toList := by
        rw [hparts, hrest, ofReturn?_tokens, Definition.meaning]

section Example

def definitionText : String :=
  "create function s.\"F\"(a in out nocopy t(1, 2), b n := f(x, (y))) return t(3) pipelined"

theorem noAssignment_of_noColon {ts : List Token} (h : ∀ t ∈ ts, t.isPunct ':' = false) :
    ∀ a b, [a, b] <:+: ts → a.isPunct ':' → b.isPunct '=' = false := by
  intro a b hab ha
  rw [h a (hab.subset List.mem_cons_self)] at ha
  contradiction

def firstFormal : Formal where
  name := ⟨wordAt 22 "a", by decide⟩
  mode := .both ⟨wordAt 24 "in", by decide⟩ ⟨wordAt 27 "out", by decide⟩
  nocopy := some ⟨wordAt 31 "nocopy", by decide⟩
  type :=
    { tokens := [wordAt 38 "t", markAt 39 '(', ⟨.number, 40, "1", none⟩, markAt 41 ',',
        ⟨.number, 43, "2", none⟩, markAt 44 ')']
      ne_nil := by decide
      isRun := .name (by decide) (@PartRun.group (markAt 39 '(') (markAt 44 ')')
        [⟨.number, 40, "1", none⟩, markAt 41 ',', ⟨.number, 43, "2", none⟩] [] (by decide)
        (.token (by decide) (by decide) (.token (by decide) (by decide)
          (.token (by decide) (by decide) .nil))) (by decide) .nil)
      noDefault := by decide
      noAssignment := noAssignment_of_noColon (by decide)
      opens := by decide }
  default := none

def secondFormal : Formal where
  name := ⟨wordAt 47 "b", by decide⟩
  mode := .unwritten
  nocopy := none
  type :=
    { tokens := [wordAt 49 "n"]
      ne_nil := by decide
      isRun := .name (by decide) .nil
      noDefault := by decide
      noAssignment := noAssignment_of_noColon (by decide)
      opens := by decide }
  default := some (.assignment ⟨markAt 51 ':', by decide⟩ ⟨markAt 52 '=', by decide⟩
    [wordAt 54 "f", markAt 55 '(', wordAt 56 "x", markAt 57 ',', markAt 59 '(', wordAt 60 "y",
      markAt 61 ')', markAt 62 ')']
    (.name (by decide) (@PartRun.group (markAt 55 '(') (markAt 62 ')')
      [wordAt 56 "x", markAt 57 ',', markAt 59 '(', wordAt 60 "y", markAt 61 ')'] [] (by decide)
      (.token (by decide) (by decide) (.token (by decide) (by decide)
        (@Balanced.group (markAt 59 '(') (markAt 61 ')') [wordAt 60 "y"] [] (by decide)
          (.token (by decide) (by decide) .nil) (by decide) .nil))) (by decide) .nil)))

def exampleDefinition : Definition where
  lead := [wordAt 0 "create"]
  leads := by decide
  keyword := ⟨wordAt 7 "function", by decide⟩
  name := .qualified ⟨wordAt 16 "s", by decide⟩ ⟨markAt 17 '.', by decide⟩
    ⟨⟨.quoted, 18, "\"F\"", none⟩, by decide⟩
  parameters := some ⟨⟨markAt 21 '(', by decide⟩,
    some (.more firstFormal ⟨markAt 45 ',', by decide⟩ (.last secondFormal)),
    ⟨markAt 63 ')', by decide⟩⟩
  returned := some
    { keyword := ⟨wordAt 65 "return", by decide⟩
      type := [wordAt 72 "t", markAt 73 '(', ⟨.number, 74, "3", none⟩, markAt 75 ')']
      ne_nil := by decide
      noModifier := by decide
      modifiers := [wordAt 77 "pipelined"]
      isModifier := by decide }

theorem ofDefinition_exampleDefinition : Token.ofText definitionText = exampleDefinition.tokens ∧
    Parameter.ofDefinition definitionText =
      [⟨"a in out nocopy t(1, 2)", "a", "t(1, 2)", .both⟩, ⟨"b n := f(x, (y))", "b", "n", .input⟩,
        ⟨"return t(3)", "", "t(3)", .result⟩] := by
  have htokens : Token.ofText definitionText = exampleDefinition.tokens := by decide +kernel
  refine ⟨htokens, ?_⟩
  rw [ofDefinition_written exampleDefinition definitionText htokens]
  decide +kernel

end Example

end PlsqlNav.Written
