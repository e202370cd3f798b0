import Mathlib.Data.List.Forall2
import PlsqlNav.Proofs.Scan.Readers
import PlsqlNav.Proofs.Token.Line
import PlsqlNav.Proofs.Written.Definition
import PlsqlNav.Report

/-! Parameters told one a line. What a row tells is read from the tokens of the definition, and the rows
are one for each parameter where no name and no type goes over several lines of it. -/
namespace PlsqlNav

namespace Parameter
open Token Written
variable {definition : String} {p : Parameter} {named : Option Token} {type ts : List Token}

/-- The tokens that a parameter of a definition is read from: the one that names it, unless it is what a
function returns, and those of its type. -/
structure ReadFrom (definition : String) (p : Parameter) (named : Option Token) (type : List Token) :
    Prop where
  named_mem : ∀ t ∈ named, t ∈ ofText definition
  named_eq_none : named = none ↔ p.mode = .result
  name : p.name = (named.map Token.name).getD ""
  type_infix : type <:+: ofText definition
  type_eq_nil : type = [] ↔ p.mode = .untyped
  typeText : p.typeText = textOf definition.toList type

section Parts

/-- What is split off behind `front`, and what is left behind that. -/
def SplitsOff (front ts : List Token) (split : List (List Token) × List Token) : Prop :=
  (∀ q ∈ split.1, q <:+: front ++ ts) ∧ split.2 <:+ ts

theorem SplitsOff.cons {t : Token} {part : List Token} {split : List (List Token) × List Token}
    (h : SplitsOff (t :: part).reverse ts split) : SplitsOff part.reverse (t :: ts) split := by
  rw [SplitsOff, List.reverse_cons, List.append_assoc] at h
  exact ⟨h.1, h.2.trans (List.suffix_cons t ts)⟩

theorem splitParts_splitsOff (depth : Nat) (part ts : List Token) :
    SplitsOff part.reverse ts (splitParts depth part ts) := by
  fun_induction splitParts depth part ts with
  | case1 => exact ⟨fun q hq => absurd hq List.not_mem_nil, List.suffix_refl _⟩
  | case2 _ _ _ _ _ ih | case4 _ _ _ _ _ _ ih | case6 _ _ _ _ _ _ _ ih => exact ih.cons
  | case3 part t rest =>
    refine ⟨fun q hq => ?_, List.suffix_cons t rest⟩
    rw [List.mem_singleton.mp hq]
    exact (List.prefix_append part.reverse _).isInfix
  | case5 depth part t rest _ _ _ parts after hsplit ih =>
    rw [hsplit] at ih
    refine ⟨fun q hq => ?_, ih.2.trans (List.suffix_cons t rest)⟩
    rcases List.mem_cons.mp hq with rfl | hq
    · exact (List.prefix_append part.reverse _).isInfix
    · refine (ih.1 q hq).trans ?_
      exact ((List.suffix_cons t rest).trans (List.suffix_append part.reverse _)).isInfix

theorem typeTokens_prefix (ts : List Token) : typeTokens ts <+: ts := by
  induction ts with
  | nil => exact List.prefix_refl _
  | cons t ts ih =>
    rw [typeTokens]
    split
    · exact List.nil_prefix
    · exact (List.prefix_cons_inj t).mpr ih

theorem readMode_suffix (ts : List Token) : (readMode ts).2 <:+ ts := by
  unfold readMode
  split
  · exact List.suffix_refl _
  · next t rest =>
    split
    · split
      · next u after =>
        split
        · exact (List.suffix_cons u after).trans (List.suffix_cons t _)
        · exact List.suffix_cons t _
      · exact List.nil_suffix
    · split
      · exact List.suffix_cons t rest
      · exact List.suffix_refl _

/-- A mode that is read is one of a parameter with a type. -/
theorem readMode_fst (ts : List Token) : (readMode ts).1 ≠ .result ∧ (readMode ts).1 ≠ .untyped := by
  unfold readMode
  repeat' split
  all_goals exact ⟨by rintro ⟨⟩, by rintro ⟨⟩⟩

end Parts

theorem ofTokens?_readFrom (hts : ts <:+: ofText definition)
    (h : ofTokens? definition.toList ts = some p) : ∃ named type, ReadFrom definition p named type := by
  cases ts with
  | nil => contradiction
  | cons first rest =>
    obtain ⟨⟨mode, after⟩, hread⟩ : ∃ found, readMode rest = found := ⟨_, rfl⟩
    have hsuffix := readMode_suffix rest
    obtain ⟨hresult, huntyped⟩ := readMode_fst rest
    rw [hread] at hsuffix hresult huntyped
    have htype := typeTokens_prefix (Header.skipWord ["nocopy"] after)
    have hrest := ((Header.skipWord_suffix ["nocopy"] after).trans hsuffix).trans (List.suffix_cons first rest)
    simp only [ofTokens?, hread, Option.some.injEq] at h
    subst h
    refine ⟨some first, typeTokens (Header.skipWord ["nocopy"] after), ?_, ?_, rfl,
      htype.isInfix.trans (hrest.isInfix.trans hts), ?_, rfl⟩
    · rintro t ⟨⟩
      exact hts.subset List.mem_cons_self
    · refine iff_of_false (Option.some_ne_none first) ?_
      dsimp only
      split
      · rintro ⟨⟩
      · exact hresult
    · rw [← List.isEmpty_iff]
      dsimp only
      split
      · next hempty => exact iff_of_true hempty rfl
      · next hempty => exact iff_of_false hempty huntyped

theorem ofReturn?_readFrom (hts : ts <:+ ofText definition)
    (h : ofReturn? definition.toList ts = some p) : ∃ named type, ReadFrom definition p named type := by
  cases ts with
  | nil => contradiction
  | cons keyword rest =>
    rw [ofReturn?] at h
    split at h
    · next hreturn =>
      cases h
      simp only [Bool.and_eq_true, Bool.not_eq_true', List.isEmpty_eq_false_iff] at hreturn
      have htype := List.takeWhile_prefix (fun t : Token => !t.isOneOf modifiers) (l := rest)
      have hrest := (List.suffix_cons keyword rest).trans hts
      exact ⟨none, _, fun t ht => absurd ht (Option.not_mem_none t), iff_of_true rfl rfl, rfl,
        htype.isInfix.trans hrest.isInfix, iff_of_false hreturn.2 (by rintro ⟨⟩), rfl⟩
    · contradiction

theorem listed_splitsOff (ts : List Token) : SplitsOff [] ts (listed ts) := by
  cases ts with
  | nil => exact ⟨fun q hq => absurd hq List.not_mem_nil, List.suffix_refl _⟩
  | cons t rest =>
    rw [listed]
    split
    · obtain ⟨hparts, hrest⟩ := splitParts_splitsOff 0 [] rest
      have hsuffix := List.suffix_cons t rest
      exact ⟨fun q hq => (hparts q hq).trans hsuffix.isInfix, hrest.trans hsuffix⟩
    · exact ⟨fun q hq => absurd hq List.not_mem_nil, List.suffix_refl _⟩

/-- The tokens behind the name of the routine. -/
def behindName (definition : String) : List Token :=
  let routine := (ofText definition).dropWhile fun t => !t.isOneOf ["function", "procedure"]
  match Header.qualifiedName routine.tail with
  | some (_, rest) => rest
  | none => routine.tail

theorem behindName_suffix (definition : String) : behindName definition <:+ ofText definition := by
  have hroutine := (ofText definition).dropWhile_suffix fun t => !t.isOneOf ["function", "procedure"]
  have htail := (List.tail_suffix _).trans hroutine
  rw [behindName]
  split
  · next name rest hname => exact (Header.qualifiedName_suffix hname).trans htail
  · exact htail

theorem ofDefinition_eq (definition : String) : ofDefinition definition =
    (listed (behindName definition)).1.filterMap (ofTokens? definition.toList) ++
      (ofReturn? definition.toList (listed (behindName definition)).2).toList := rfl

/-- Each parameter of a definition is read from tokens of it. -/
theorem exists_readFrom (h : p ∈ ofDefinition definition) :
    ∃ named type, ReadFrom definition p named type := by
  have hts := behindName_suffix definition
  obtain ⟨hparts, hrest⟩ := listed_splitsOff (behindName definition)
  rw [ofDefinition_eq, List.mem_append, List.mem_filterMap, Option.mem_toList] at h
  rcases h with ⟨part, hpart, h⟩ | h
  · exact ofTokens?_readFrom ((hparts part hpart).trans hts.isInfix) h
  · exact ofReturn?_readFrom (hrest.trans hts) h

section ReadFrom

theorem not_mem_newline_textOf (h : ts <:+: ofText definition) :
    '\n' ∉ (textOf definition.toList ts).toList ↔ OnOneLine definition.toList ts := by
  cases ts with
  | nil => exact iff_of_true List.not_mem_nil (onOneLine_nil definition.toList)
  | cons first ts =>
    have hlast := List.getLast?_eq_some_getLast (List.cons_ne_nil first ts)
    obtain ⟨front, region, back, htext, hslice, hstart, hstop, hbetween⟩ := exists_region h hlast
    have hregion : (textOf definition.toList (first :: ts)).toList = region := by
      simp only [textOf, hlast, String.toList_ofList, hslice]
    rw [hregion, Text.not_mem_newline_iff htext, ← hstart, ← hstop]
    constructor
    · rintro ⟨before, line, after, hline, hle, hge⟩
      refine ⟨before, line, after, hline, fun t ht => ?_⟩
      exact ⟨Nat.le_trans hle (hbetween t ht).1, Nat.le_trans (hbetween t ht).2 hge⟩
    · rintro ⟨before, line, after, hline, hall⟩
      exact ⟨before, line, after, hline, (hall first List.mem_cons_self).1,
        (hall _ (List.mem_of_getLast? hlast)).2⟩

/-- A parameter is declared on one line. -/
def OneLine (definition : String) (named : Option Token) (type : List Token) : Prop :=
  (∀ t ∈ named, t.kind = .string → '\n' ∉ t.text.toList) ∧ OnOneLine definition.toList type

theorem ReadFrom.oneLine_iff (h : ReadFrom definition p named type) :
    OneLine definition named type ↔ '\n' ∉ p.name.toList ∧ '\n' ∉ p.typeText.toList := by
  rw [OneLine, h.typeText, not_mem_newline_textOf h.type_infix, and_congr_left_iff]
  intro
  rw [h.name]
  cases hnamed : named with
  | none => exact iff_of_true (fun t ht => absurd ht (Option.not_mem_none t)) List.not_mem_nil
  | some t =>
    rw [Option.map_some, Option.getD_some, not_mem_newline_name (h.named_mem t hnamed)]
    simp only [Option.mem_def, Option.some.injEq, forall_eq']

end ReadFrom

end Parameter

namespace Report
open Parameter

/-- What a row tells of a parameter. -/
inductive IsRow (p : Parameter) : String → Prop
  | result : p.mode = .result → IsRow p ("return " ++ p.typeText)
  | name : p.mode = .untyped → IsRow p p.name
  | whole : p.mode ≠ .result → p.mode ≠ .untyped →
      IsRow p (p.name ++ " " ++ p.mode.label ++ " " ++ p.typeText)

/-- The lines of `written` are rows, one for each of the parameters in order. -/
def RowEach (ps : List Parameter) (written : String) : Prop :=
  ∃ rows : List String, List.Forall₂ IsRow ps rows ∧
    Text.splitLines written.toList = rows.map String.toList ++ [[]]

section Rows
variable {p : Parameter} {ps : List Parameter} {row : String} {rows : List String}
  {definition : String} {named : Option Token} {type : List Token}

theorem exists_isRow (routine : String) (p : Parameter) :
    ∃ row, IsRow p row ∧ parameter .grep routine p = line row := by
  rw [parameter]
  split
  · next hmode => exact ⟨_, .result hmode, rfl⟩
  · next hmode => exact ⟨_, .name hmode, rfl⟩
  · next hresult huntyped => exact ⟨_, .whole hresult huntyped, rfl⟩

theorem count_newline_label (mode : Parameter.Mode) : mode.label.toList.count '\n' = 0 := by
  cases mode <;> decide

/-- A row has the line breaks of the name and the type. -/
theorem IsRow.count_newline (h : IsRow p row) (hread : ReadFrom definition p named type) :
    row.toList.count '\n' = p.name.toList.count '\n' + p.typeText.toList.count '\n' := by
  have hlead : "return ".toList.count '\n' = 0 := by decide
  have hspace : " ".toList.count '\n' = 0 := by decide
  have hempty : "".toList.count '\n' = 0 := rfl
  cases h with
  | result hmode =>
    have hname : p.name = "" := by
      rw [hread.name, hread.named_eq_none.mpr hmode]
      rfl
    rw [hname, String.toList_append, List.count_append, hlead, hempty]
  | name hmode =>
    have htype : p.typeText = "" := by
      rw [hread.typeText, hread.type_eq_nil.mpr hmode]
      rfl
    rw [htype, hempty, Nat.add_zero]
  | whole =>
    simp only [String.toList_append, List.count_append, hspace, count_newline_label, Nat.add_zero]

theorem IsRow.not_mem_newline_iff (h : IsRow p row) (hread : ReadFrom definition p named type) :
    '\n' ∉ row.toList ↔ OneLine definition named type := by
  rw [hread.oneLine_iff, ← List.count_eq_zero, ← List.count_eq_zero, ← List.count_eq_zero,
    h.count_newline hread, Nat.add_eq_zero_iff]

theorem exists_rows (routine : String) (ps : List Parameter) :
    ∃ rows, List.Forall₂ IsRow ps rows ∧ ps.map (parameter .grep routine) = rows.map line := by
  induction ps with
  | nil => exact ⟨[], .nil, rfl⟩
  | cons p ps ih =>
    obtain ⟨row, hrow, hline⟩ := exists_isRow routine p
    obtain ⟨rows, hrows, hlines⟩ := ih
    exact ⟨row :: rows, .cons hrow hrows, by rw [List.map_cons, List.map_cons, hline, hlines]⟩

theorem toList_join_line (row : String) (rows : List String) :
    (String.join ((row :: rows).map line)).toList =
      row.toList ++ '\n' :: (String.join (rows.map line)).toList := by
  rw [List.map_cons, String.join_cons, String.toList_append, line, String.toList_append, List.append_assoc]
  rfl

theorem splitLines_join (h : ∀ row ∈ rows, '\n' ∉ row.toList) :
    Text.splitLines (String.join (rows.map line)).toList = rows.map String.toList ++ [[]] := by
  induction rows with
  | nil => rfl
  | cons row rows ih =>
    rw [List.forall_mem_cons] at h
    rw [toList_join_line, Text.splitLines_append, Text.splitLines_of_not_mem h.1, ih h.2, List.map_cons,
      List.singleton_append, List.cons_append]

variable (hread : ∀ p ∈ ps, ∃ named type, ReadFrom definition p named type)
include hread

theorem count_newline_parameters (routine : String) :
    (String.join (ps.map (parameter .grep routine))).toList.count '\n' =
      ps.length + (ps.flatMap fun p => p.name.toList ++ p.typeText.toList).count '\n' := by
  induction ps with
  | nil => rfl
  | cons p ps ih =>
    rw [List.forall_mem_cons] at hread
    obtain ⟨⟨named, type, hp⟩, hps⟩ := hread
    obtain ⟨row, hrow, hline⟩ := exists_isRow routine p
    have hnewline : "\n".toList.count '\n' = 1 := rfl
    rw [List.map_cons, String.join_cons, hline, line, String.toList_append, String.toList_append,
      List.count_append, List.count_append, hrow.count_newline hp, ih hps, hnewline, List.length_cons,
      List.flatMap_cons, List.count_append, List.count_append]
    omega

theorem forall_not_mem_newline_iff (h : List.Forall₂ IsRow ps rows) :
    (∀ row ∈ rows, '\n' ∉ row.toList) ↔
      ∀ p ∈ ps, ∀ named type, ReadFrom definition p named type → OneLine definition named type := by
  induction h with
  | nil => exact iff_of_true (List.forall_mem_nil _) (List.forall_mem_nil _)
  | @cons p row ps rows hrow _ ih =>
    rw [List.forall_mem_cons] at hread
    obtain ⟨⟨named, type, hp⟩, hps⟩ := hread
    rw [List.forall_mem_cons, List.forall_mem_cons, ih hps, and_congr_left_iff]
    intro
    constructor
    · exact fun hplain _ _ hread => (hrow.not_mem_newline_iff hread).mp hplain
    · exact fun hline => (hrow.not_mem_newline_iff hp).mpr (hline named type hp)

theorem rowEach_iff (routine : String) : RowEach ps (String.join (ps.map (parameter .grep routine))) ↔
    ∀ p ∈ ps, ∀ named type, ReadFrom definition p named type → OneLine definition named type := by
  constructor
  · rintro ⟨rows, hrows, hlines⟩
    rw [← forall_not_mem_newline_iff hread hrows]
    intro row hrow
    have hmem : row.toList ∈ Text.splitLines (String.join (ps.map (parameter .grep routine))).toList := by
      rw [hlines]
      exact List.mem_append_left _ (List.mem_map_of_mem hrow)
    exact (Text.of_mem_splitLines hmem).2
  · intro honeLine
    obtain ⟨rows, hrows, hlines⟩ := exists_rows routine ps
    rw [hlines]
    exact ⟨rows, hrows, splitLines_join ((forall_not_mem_newline_iff hread hrows).mpr honeLine)⟩

end Rows

/-- The parameters of a symbol, told one after another. -/
def parametersOf (s : Symbol) : String := String.join (s.parameters.map (parameter .grep s.name))

/-- What it comes to when the parameters of a symbol are told. -/
structure TellsParameters (s : Symbol) : Prop where
  readFrom : ∀ p ∈ s.parameters, ∃ named type, ReadFrom s.definition p named type
  rows : ∃ rows, List.Forall₂ IsRow s.parameters rows ∧ parametersOf s = String.join (rows.map line)
  /-- A line break in a name or in a type adds a line. -/
  count_newline : (parametersOf s).toList.count '\n' = s.parameters.length +
    (s.parameters.flatMap fun p => p.name.toList ++ p.typeText.toList).count '\n'
  rowEach : RowEach s.parameters (parametersOf s) ↔ ∀ p ∈ s.parameters, ∀ named type,
    ReadFrom s.definition p named type → OneLine s.definition named type

/-- A routine of a file is told in one row for each parameter just where each is declared on one line. -/
theorem ofText_tellsParameters (file text : String) (i : (Outline.ofText file text).Id) :
    TellsParameters ((Outline.ofText file text).get i) := by
  generalize (Outline.ofText file text).get i = s
  have hread : ∀ p ∈ s.parameters, ∃ named type, ReadFrom s.definition p named type := by
    intro p hp
    rw [Symbol.parameters] at hp
    split at hp
    · exact exists_readFrom hp
    · contradiction
  obtain ⟨rows, hrows, hlines⟩ := exists_rows s.name s.parameters
  exact
    { readFrom := hread
      rows := ⟨rows, hrows, congrArg String.join hlines⟩
      count_newline := count_newline_parameters hread s.name
      rowEach := rowEach_iff hread s.name }

theorem RowEach.count_newline {ps : List Parameter} {written : String} (h : RowEach ps written) :
    written.toList.count '\n' = ps.length := by
  obtain ⟨rows, hrows, hlines⟩ := h
  have hlength := Text.length_splitLines written.toList
  rw [hlines, List.length_append, List.length_map, ← hrows.length_eq] at hlength
  exact (Nat.succ.inj hlength).symm

/-- The type of this parameter is written over two lines, and so is its row. -/
theorem not_forall_rowEach : ¬ ∀ (file text : String) (i : (Outline.ofText file text).Id),
    ((Outline.ofText file text).get i).kind.isRoutine →
      RowEach ((Outline.ofText file text).get i).parameters (parametersOf ((Outline.ofText file text).get i)) := by
  intro hrows
  have hcount := (hrows "t.sql" "procedure p(x in double\n precision) is begin null; end;"
    ⟨0, by decide +kernel⟩ (by decide +kernel)).count_newline
  exact absurd hcount (by decide +kernel)

end Report

end PlsqlNav
