import Mathlib.Data.List.FinRange
import PlsqlNav.Proofs.Outline.Passing
import PlsqlNav.Proofs.Outline.WellFormed
import PlsqlNav.Proofs.Scan.Headed

/-! The issues of an outline. They come in text order, and each has its reason: a unit without its body, a
token that starts no declaration, or a scope that is left open where its symbol stops. -/
namespace PlsqlNav

namespace Extent

/-- What the token `last` closes stops right behind it, or behind the semicolon that comes next, perhaps
after a label. -/
inductive StopsAt (last : Token) : List Token → Nat → Prop
  | semicolon {s ts} : s.isPunct ';' → StopsAt last (s :: ts) s.stop
  | label {l s ts} : l.isName → s.isPunct ';' → StopsAt last (l :: s :: ts) s.stop
  | bare {ts} : (∀ s ∈ ts.head?, s.isPunct ';' = false) →
      (∀ l s more, ts = l :: s :: more → l.isName → s.isPunct ';' = false) → StopsAt last ts last.stop

/-- The tokens start with `end` or `end case`, and what it closes stops at the given position. -/
inductive Ends : List Token → Nat → Prop
  | plain {t ts stop} : t.isWord "end" → Bare ts → StopsAt t ts stop → Ends (t :: ts) stop
  | ofCase {t u ts stop} : t.isWord "end" → u.isWord "case" → StopsAt u ts stop → Ends (t :: u :: ts) stop

def ClosedAt (ts : List Token) (stop : Nat) : Prop := ∃ us, us <:+ ts ∧ Ends us stop

variable {t u : Token} {ts us : List Token} {stop : Nat} {e : Extent}

theorem ClosedAt.of_suffix (h : ClosedAt us stop) (hus : us <:+ ts) : ClosedAt ts stop := by
  obtain ⟨vs, hvs, hends⟩ := h
  exact ⟨vs, hvs.trans hus, hends⟩

theorem ClosedAt.cons (t : Token) (h : ClosedAt ts stop) : ClosedAt (t :: ts) stop :=
  h.of_suffix (List.suffix_cons t ts)

theorem ofEnd_stopsAt (last : Token) (ts : List Token) : StopsAt last ts (ofEnd last ts).stop := by
  unfold ofEnd
  split
  · exact .bare (by simp) (by simp)
  · next t rest =>
    split
    · next ht => exact .semicolon ht
    · next ht =>
      have hfirst : ∀ s ∈ (t :: rest).head?, s.isPunct ';' = false := by
        rintro s ⟨⟩
        exact Bool.not_eq_true _ ▸ ht
      split
      · exact .bare hfirst (by simp)
      · next u more =>
        split
        · next hlabel =>
          rw [Bool.and_eq_true] at hlabel
          exact .label hlabel.1 hlabel.2
        · next hlabel =>
          rw [Bool.not_eq_true, Bool.and_eq_false_imp] at hlabel
          refine .bare hfirst fun l s more' hts hl => ?_
          cases hts
          exact hlabel hl

/-- The search for the end of a block finds an `end`. -/
theorem closedAt_of_find {inner : Nat} {d : Bool} (h : find inner d ts = some e) :
    ClosedAt ts e.stop := by
  fun_induction find inner d ts with
  | case1 => contradiction
  | case2 _ _ _ _ _ ih | case3 _ _ _ _ _ _ ih => exact (ih h).cons _
  | case4 d t ht hd =>
    cases h
    exact ⟨[t], List.suffix_refl _, .plain (end_of_counted hd).1 (by simp [Bare]) (ofEnd_stopsAt t [])⟩
  | case5 => contradiction
  | case6 _ _ _ _ _ _ _ _ ih | case8 _ _ _ _ _ _ _ _ _ ih => exact ((ih h).cons _).cons _
  | case7 d t ht hd u after hu hcase =>
    cases h
    exact ⟨_, List.suffix_refl _, .ofCase (end_of_counted hd).1 hcase (ofEnd_stopsAt u after)⟩
  | case9 d t ht hd u after hu hcase =>
    cases h
    have hbare : Bare (u :: after) := by
      rintro v ⟨⟩
      simp_all [Token.isOneOf]
    exact ⟨_, List.suffix_refl _, .plain (end_of_counted hd).1 hbare (ofEnd_stopsAt t _)⟩
  | case10 _ _ _ _ _ _ _ _ _ ih => exact (ih h).cons _

end Extent

namespace Header

def End.isSemicolon : End → Bool
  | semicolon _ => true
  | body _ | cut _ _ => false

def End.isCut : End → Bool
  | cut _ _ => true
  | body _ | semicolon _ => false

end Header

namespace Symbol

/-- How the header of the symbol ends. -/
def headerEnd? (ts : List Token) (x : Symbol) : Option Header.End :=
  (x.header? ts).map fun h => Header.findEnd 0 false h.rest

/-- The body of the routine is in another language. -/
def IsCallSpecification (ts : List Token) (x : Symbol) : Prop :=
  ∃ opener w more, x.headerEnd? ts = some (.body (opener :: w :: more)) ∧
    w.isOneOf ["language", "external"]

/-- The symbol has no scope, although its header does not end with a semicolon. -/
def missesBody (ts : List Token) (x : Symbol) : Bool :=
  x.stop.isNone && !(x.headerEnd? ts).any (·.isSemicolon)

/-- The symbol is a unit whose header neither ends nor is followed by a body. -/
def isCutShort (ts : List Token) (x : Symbol) : Bool :=
  x.level = 0 && (x.headerEnd? ts).any (·.isCut)

/-- Where the symbol stops, something closes it or it is reported. -/
def StopsTruly (ts : List Token) (issues : Array Issue) (x : Symbol) : Prop :=
  ∀ e, x.stop = some e →
    x.IsCallSpecification ts ∨ Extent.ClosedAt ts e ∨ ⟨e, .unclosedBlock⟩ ∈ issues

end Symbol

/-- The issues of a text are in text order and true of the symbols. -/
structure Outline.TruthfulIssues (text : String) (o : Outline) : Prop where
  bounded : ∀ i ∈ o.issues, i.offset ≤ Text.byteLength text.toList
  ordered : o.issues.Pairwise (·.offset ≤ ·.offset)
  missingBodies : (o.issues.filter (·.kind = .missingBody)).map Issue.offset =
    ((o.topLevel.map o.get).filter (Symbol.missesBody (Token.ofText text))).map Symbol.start
  unexpected : ∀ i ∈ o.issues, i.kind = .unexpectedToken →
    ∃ t ∈ Token.ofText text, t.start = i.offset
  distinct : ((o.issues.filter (·.kind = .unexpectedToken)).map Issue.offset).Nodup
  stops : ∀ i e, (o.get i).stop = some e → (o.get i).IsCallSpecification (Token.ofText text) ∨
    Extent.ClosedAt (Token.ofText text) e ∨ ⟨e, .unclosedBlock⟩ ∈ o.issues

namespace Scan

variable {text : List Char} {ts : List Token} {pos pos' : Nat} {s s' : Scan}

/-- The issues recorded before `pos`, each unexpected token among those that were read. -/
structure IssuesBefore (ts : List Token) (pos : Nat) (issues : List Issue) : Prop where
  bounded : ∀ i ∈ issues, i.offset ≤ pos
  ordered : issues.Pairwise (·.offset ≤ ·.offset)
  unexpected : ∀ i ∈ issues, i.kind = .unexpectedToken → i.offset < pos ∧ ∃ t ∈ ts, t.start = i.offset
  distinct : ((issues.filter (·.kind = .unexpectedToken)).map Issue.offset).Nodup

theorem IssuesBefore.push {issues : List Issue} {i : Issue} (h : IssuesBefore ts pos issues)
    (hpos : pos ≤ i.offset) (hle : i.offset ≤ pos')
    (hi : i.kind = .unexpectedToken → i.offset < pos' ∧ ∃ t ∈ ts, t.start = i.offset) :
    IssuesBefore ts pos' (issues ++ [i]) where
  bounded := by
    intro j hj
    rcases List.mem_append.mp hj with hj | hj
    · exact Nat.le_trans (h.bounded j hj) (Nat.le_trans hpos hle)
    · rwa [List.mem_singleton.mp hj]
  ordered := by
    refine List.pairwise_append.mpr ⟨h.ordered, List.pairwise_singleton _ _, fun j hj k hk => ?_⟩
    rw [List.mem_singleton.mp hk]
    exact Nat.le_trans (h.bounded j hj) hpos
  unexpected := by
    intro j hj hkind
    rcases List.mem_append.mp hj with hj | hj
    · obtain ⟨hlt, htoken⟩ := h.unexpected j hj hkind
      exact ⟨Nat.lt_of_lt_of_le hlt (Nat.le_trans hpos hle), htoken⟩
    · rw [List.mem_singleton.mp hj] at hkind ⊢
      exact hi hkind
  distinct := by
    rw [List.filter_append, List.map_append]
    refine List.nodup_append.mpr ⟨h.distinct, ?_, ?_⟩
    · rw [List.filter_cons]
      split
      · exact List.pairwise_singleton _ _
      · exact List.nodup_nil
    · intro a ha b hb
      obtain ⟨j, hj, rfl⟩ := List.mem_map.mp ha
      obtain ⟨k, hk, rfl⟩ := List.mem_map.mp hb
      obtain ⟨hj, hkind⟩ := List.mem_filter.mp hj
      rw [List.mem_singleton.mp (List.mem_filter.mp hk).1]
      have hlt := (h.unexpected j hj (of_decide_eq_true hkind)).1
      omega

/-- A scan that has recorded its issues in the order in which it reads. -/
def Reports (text : List Char) (ts : List Token) (s : Scan) : Prop :=
  ∃ pos, Reading text pos s.rest ∧ IssuesBefore ts pos s.issues.toList

theorem report_reports {n : Nat} {kind : Issue.Kind} (h : IssuesBefore ts pos s.issues.toList)
    (hpos : pos ≤ n) (hread : Reading text pos' s.rest) (hle : n ≤ pos')
    (hkind : kind = .unexpectedToken → n < pos' ∧ ∃ t ∈ ts, t.start = n) :
    Reports text ts (s.report kind n) := by
  refine ⟨pos', hread, ?_⟩
  rw [report, Array.toList_push]
  exact h.push hpos hle hkind

theorem Reports.move (hs : s.rest <:+ ts) (h : Reports text ts s) (hmove : Move text s s') :
    Reports text ts s' := by
  obtain ⟨pos, hread, hissues⟩ := h
  have hnext : Reading text pos s'.rest := hread.suffix hmove.rest_suffix
  cases hmove with
  | pass | statement | declared | specified | ended | called | opened | closed =>
    exact ⟨pos, hnext, by simpa using hissues⟩
  | @unexpected t rest hrest =>
    rw [hrest] at hread hs
    exact report_reports (s := s.goOn (Unexpected.skip t rest) false) hissues hread.laid.1
      (hread.tail.suffix (Unexpected.skip_suffix t rest)) (Nat.le_of_lt hread.laid.2.1)
      fun _ => ⟨hread.laid.2.1, t, hs.subset List.mem_cons_self, rfl⟩
  | @cut hd us d hscopes hh he =>
    obtain ⟨_, hfirst, hlater⟩ := hread.named (Header.ofUnit?_named hh).2
    exact report_reports (by simpa using hissues) hfirst.laid.1
      (hlater us (Header.suffix_of_findEnd he)) (Nat.le_of_lt hfirst.laid.2.1) (by simp)
  | interrupted _ hrest =>
    rw [hrest] at hread
    refine report_reports (by simpa using hissues) hread.laid.1 ?_ (Nat.le_refl _) (by simp)
    rw [leave_rest, hrest]
    exact ⟨⟨Nat.le_refl _, hread.laid.2⟩, hread.boundary⟩
  | unfinished d hscopes =>
    refine report_reports (by simpa using hissues) hread.laid.le ?_ (Nat.le_refl _) (by simp)
    exact ⟨Nat.le_refl _, by simp⟩

/-- The offsets of the missing bodies that were reported. -/
def reportedMissing (issues : Array Issue) : List Nat :=
  (issues.toList.filter (·.kind = .missingBody)).map Issue.offset

/-- The starts of the units that were cut short. -/
def cutStarts (ts : List Token) (symbols : Array Symbol) : List Nat :=
  (symbols.toList.filter (Symbol.isCutShort ts)).map Symbol.start

theorem reportedMissing_push (issues : Array Issue) (i : Issue) :
    reportedMissing (issues.push i) =
      reportedMissing issues ++ if i.kind = .missingBody then [i.offset] else [] := by
  rw [reportedMissing, Array.toList_push, List.filter_append, List.map_append, List.filter_cons]
  by_cases hi : i.kind = .missingBody
  · rw [if_pos hi, if_pos (decide_eq_true hi)]
    rfl
  · rw [if_neg hi, if_neg (by rwa [decide_eq_true_iff])]
    rfl

theorem reportedMissing_report {kind : Issue.Kind} (hkind : kind ≠ .missingBody) (n : Nat) :
    reportedMissing (s.report kind n).issues = reportedMissing s.issues := by
  rw [report, reportedMissing_push, if_neg hkind, List.append_nil]

theorem cutStarts_push (symbols : Array Symbol) (x : Symbol) :
    cutStarts ts (symbols.push x) =
      cutStarts ts symbols ++ if x.isCutShort ts then [x.start] else [] := by
  rw [cutStarts, Array.toList_push, List.filter_append, List.map_append, List.filter_cons]
  split <;> rfl

/-- Where a symbol stops makes no difference. -/
theorem filter_isCutShort_modify (symbols : List Symbol) (p e : Nat) :
    ((symbols.modify p fun x => { x with stop := some e }).filter (Symbol.isCutShort ts)).map
      Symbol.start = (symbols.filter (Symbol.isCutShort ts)).map Symbol.start := by
  induction symbols generalizing p with
  | nil => rw [List.modify_nil]
  | cons x symbols ih =>
    cases p with
    | zero =>
      rw [List.modify_zero_cons, List.filter_cons, List.filter_cons]
      have hsame : Symbol.isCutShort ts { x with stop := some e } = x.isCutShort ts := rfl
      rw [hsame]
      split <;> rfl
    | succ p =>
      rw [List.modify_succ_cons, List.filter_cons, List.filter_cons]
      split
      · rw [List.map_cons, List.map_cons, ih]
      · exact ih p

theorem cutStarts_setStop (symbol : Option Nat) (n : Nat) :
    cutStarts ts (s.setStop symbol n).symbols = cutStarts ts s.symbols := by
  cases symbol with
  | none => rfl
  | some p =>
    rw [setStop_symbols, stopped, cutStarts, Array.toList_modify]
    exact filter_isCutShort_modify s.symbols.toList p n

theorem cutStarts_leave (scope : Scope) (outer : List Scope) (n : Nat) :
    cutStarts ts (s.leave scope outer n).symbols = cutStarts ts s.symbols :=
  cutStarts_setStop scope.symbol n

theorem cutStarts_record {x : Symbol} (hx : x.isCutShort ts = false) (recording : Bool) :
    cutStarts ts (s.record recording x).symbols = cutStarts ts s.symbols := by
  cases recording with
  | false => rfl
  | true =>
    rw [record, if_pos rfl, cutStarts_push, hx, if_neg Bool.false_ne_true, List.append_nil]

section Missing
variable {lo hi : Nat} {h : Header}

/-- The symbol of the header that comes next has the end of this header. -/
theorem headerEnd?_symbolOf (text : List Char) (hlaid : Token.Laid lo hi ts) (hs : s.rest <:+ ts)
    (hread : Header.ofUnit? s.rest = some h) (kind : Symbol.Kind) (stop : List Token) :
    (s.symbolOf text h.first kind h.name stop).headerEnd? ts = some (Header.findEnd 0 false h.rest) := by
  rw [Symbol.headerEnd?, Symbol.header?_eq hlaid hs hread rfl]
  rfl

theorem isCutShort_nested {scope : Scope} {outer : List Scope} (hscopes : s.scopes = scope :: outer)
    (first : Token) (kind : Symbol.Kind) (name : String) (stop : List Token) :
    (s.symbolOf text first kind name stop).isCutShort ts = false := by
  have hlevel : (s.symbolOf text first kind name stop).level = outer.length + 1 :=
    congrArg List.length hscopes
  rw [Symbol.isCutShort, hlevel]
  rfl

/-- A body is reported as missing just when a unit is cut short. -/
theorem missing_move (hlaid : Token.Laid lo hi ts) (hs : s.rest <:+ ts)
    (hinv : reportedMissing s.issues = cutStarts ts s.symbols) (hmove : Move text s s') :
    reportedMissing s'.issues = cutStarts ts s'.symbols := by
  have hcut {hd : Header} (hread : Header.ofUnit? s.rest = some hd) (kind : Symbol.Kind)
      (stop : List Token) : (s.symbolOf text hd.first kind hd.name stop).isCutShort ts =
        (decide (s.scopes.length = 0) && (Header.findEnd 0 false hd.rest).isCut) := by
    rw [Symbol.isCutShort, headerEnd?_symbolOf _ hlaid hs hread]
    rfl
  have hbody {hd : Header} {us : List Token} (hread : Header.ofUnit? s.rest = some hd)
      (hend : Header.findEnd 0 false hd.rest = .body us) (stop : List Token) :
      (s.symbolOf text hd.first hd.kind hd.name stop).isCutShort ts = false := by
    rw [hcut hread, hend]
    exact Bool.and_false _
  cases hmove with
  | pass | statement => exact hinv
  | unexpected => exact (reportedMissing_report (by decide) _).trans hinv
  | declared hscopes | specified _ _ hscopes =>
    rw [goOn_issues, record_issues, goOn_symbols, cutStarts_record (isCutShort_nested hscopes _ _ _ _), hinv]
  | @ended hd us hscopes hread hend =>
    have hx : (s.symbolOf text hd.first hd.kind hd.name us).isCutShort ts = false := by
      rw [hcut hread, hend]
      exact Bool.and_false _
    rw [goOn_issues, record_issues, goOn_symbols, cutStarts_record hx, hinv]
  | @cut hd us d hscopes hread hend =>
    have hx : (s.symbolOf text hd.first hd.kind hd.name us).isCutShort ts = true := by
      rw [hcut hread, hend, hscopes]
      rfl
    rw [report_symbols, goOn_symbols, record, if_pos rfl, cutStarts_push, hx, if_pos rfl, ← hinv]
    exact reportedMissing_push _ _
  | called hread _ hend hcall =>
    rw [goOn_issues, setStop_issues, record_issues, goOn_symbols, cutStarts_setStop,
      cutStarts_record (hbody hread hend _), hinv]
  | @opened _ _ recording hread _ hend =>
    exact (congrArg _ (record_issues _ _ _)).trans
      (hinv.trans (cutStarts_record (hbody hread hend _) recording).symm)
  | closed hscopes hus he =>
    rw [goOn_issues, leave_issues, goOn_symbols, cutStarts_leave, hinv]
  | interrupted =>
    rw [reportedMissing_report (by decide), leave_issues, report_symbols, cutStarts_leave, hinv]
  | unfinished d hscopes =>
    rw [reportedMissing_report (by decide), goOn_issues, leave_issues, report_symbols, goOn_symbols,
      cutStarts_leave, hinv]

end Missing

/-- Every symbol that has stopped has a reason to. -/
def AllStopTruly (ts : List Token) (issues : Array Issue) (symbols : Array Symbol) : Prop :=
  ∀ x ∈ symbols, x.StopsTruly ts issues

section Stops
variable {lo hi : Nat} {issues : Array Issue} {symbols : Array Symbol} {x : Symbol}

theorem AllStopTruly.push_issue (h : AllStopTruly ts issues symbols) (i : Issue) :
    AllStopTruly ts (issues.push i) symbols := by
  intro x hx e he
  rcases h x hx e he with hcall | hclosed | hissue
  · exact .inl hcall
  · exact .inr (.inl hclosed)
  · exact .inr (.inr (Array.mem_push_of_mem i hissue))

theorem AllStopTruly.record (h : AllStopTruly ts issues s.symbols) (hx : x.stop = none)
    (recording : Bool) : AllStopTruly ts issues (s.record recording x).symbols := by
  cases recording with
  | false => exact h
  | true =>
    intro y hy e he
    rcases Array.mem_push.mp hy with hy | rfl
    · exact h y hy e he
    · rw [hx] at he
      contradiction

theorem AllStopTruly.setStop (h : AllStopTruly ts issues s.symbols) (symbol : Option Nat) {n : Nat}
    (hn : ∀ p ∈ symbol, ∀ x, s.symbols[p]? = some x →
      x.IsCallSpecification ts ∨ Extent.ClosedAt ts n ∨ ⟨n, .unclosedBlock⟩ ∈ issues) :
    AllStopTruly ts issues (s.setStop symbol n).symbols := by
  cases symbol with
  | none => exact h
  | some p =>
    rw [setStop_symbols]
    intro y hy e he
    obtain ⟨i, hlt, hget⟩ := Array.mem_iff_getElem.mp hy
    obtain ⟨x, hx, rfl⟩ := getElem?_stopped (Array.getElem?_eq_some_iff.mpr ⟨hlt, hget⟩)
    by_cases hip : i = p
    · rw [if_pos hip] at he
      cases he
      exact hn p rfl x (hip ▸ hx)
    · rw [if_neg hip] at he
      exact h x (Array.mem_of_getElem? hx) e he

/-- The symbol of a scope stops where the scope closes. -/
theorem AllStopTruly.leave (h : AllStopTruly ts issues s.symbols) (scope : Scope)
    (outer : List Scope) {n : Nat} (hn : Extent.ClosedAt ts n ∨ ⟨n, .unclosedBlock⟩ ∈ issues) :
    AllStopTruly ts issues (s.leave scope outer n).symbols :=
  h.setStop scope.symbol fun _ _ _ _ => .inr hn

theorem AllStopTruly.move (hlaid : Token.Laid lo hi ts) (hs : s.rest <:+ ts)
    (h : AllStopTruly ts s.issues s.symbols) (hmove : Move text s s') :
    AllStopTruly ts s'.issues s'.symbols := by
  cases hmove with
  | pass | statement => exact h
  | unexpected => exact h.push_issue _
  | declared | specified =>
    rw [goOn_issues, record_issues]
    exact h.record rfl _
  | ended hscopes hread hend => exact h.record rfl true
  | cut hscopes hread hend => exact (h.record rfl true).push_issue _
  | @called hd us recording hread _ hend hcall =>
    rw [goOn_issues, setStop_issues, record_issues, goOn_symbols]
    refine (h.record rfl recording).setStop _ fun p hp x hx => .inl ?_
    cases recording with
    | false => contradiction
    | true =>
      cases hp
      have hlast : some (s.symbolOf text hd.first hd.kind hd.name us) = some x := by
        rw [← hx, Scan.record, if_pos rfl, Array.getElem?_push, if_pos rfl]
      cases hlast
      have hheader := headerEnd?_symbolOf text hlaid hs hread hd.kind us
      rw [hend] at hheader
      match us, hcall with
      | opener :: w :: more, hcall => exact ⟨opener, w, more, hheader, hcall⟩
  | @opened _ _ recording =>
    show AllStopTruly ts (s.record recording _).issues _
    rw [record_issues]
    exact h.record rfl recording
  | @closed scope outer _ _ _ hscopes hus he =>
    rw [goOn_issues, leave_issues]
    exact h.leave scope outer (.inl ((Extent.closedAt_of_find he).of_suffix (hus.trans hs)))
  | @interrupted scope outer t =>
    have hleave := (h.push_issue ⟨t.start, .unclosedBlock⟩).leave scope outer
      (.inr (Array.mem_push_self))
    rwa [← leave_issues s scope outer t.start] at hleave
  | @unfinished scope outer =>
    have hleave := (h.push_issue ⟨Text.byteLength text, .unclosedBlock⟩).leave scope outer
      (.inr (Array.mem_push_self))
    rwa [← leave_issues s scope outer (Text.byteLength text)] at hleave

end Stops

end Scan

namespace Outline

variable {text : String}

/-- A unit misses its body just when it was cut short. -/
theorem isCutShort_eq (file : String) {x : Symbol} (hx : x ∈ (Outline.ofText file text).symbols) :
    x.isCutShort (Token.ofText text) =
      (x.missesBody (Token.ofText text) && decide (x.level = 0)) := by
  by_cases hlevel : x.level = 0
  · obtain ⟨i, hlt, hget⟩ := Array.mem_iff_getElem.mp hx
    obtain ⟨h, hread⟩ := (ofText_headed file text).headers i x
      (Array.getElem?_eq_some_iff.mpr ⟨hlt, hget⟩) (.inl hlevel)
    have hblock : x.kind.isBlock :=
      hread.headed.kind hlevel ▸ (Header.ofUnit?_eq_some hread.headed.read).1
    have hscope : x.stop.isSome ↔ h.HasBody := by
      rw [← and_iff_right hblock (b := h.HasBody), ← hread.scope, or_iff_left]
      rintro ⟨_, hmem, _⟩
      contradiction
    rw [Symbol.isCutShort, Symbol.missesBody, Symbol.headerEnd?, hread.headed.read,
      decide_eq_true hlevel, Bool.true_and, Bool.and_true, Option.map_some, Option.any_some,
      Option.any_some]
    cases hend : Header.findEnd 0 false h.rest with
    | body us =>
      obtain ⟨e, he⟩ := Option.isSome_iff_exists.mp (hscope.mpr ⟨us, hend⟩)
      rw [he]
      rfl
    | semicolon us => exact (Bool.and_false _).symm
    | cut us d =>
      have hstop : ¬ x.stop.isSome := by
        rw [hscope]
        rintro ⟨us', hus'⟩
        rw [hend] at hus'
        contradiction
      rw [Option.not_isSome_iff_eq_none.mp hstop]
      rfl
  · rw [Symbol.isCutShort, decide_eq_false hlevel, Bool.false_and, Bool.and_false]

theorem topLevel_map_get (o : Outline) :
    o.topLevel.map o.get = o.symbols.toList.filter fun x => x.level = 0 := by
  have hall : o.ids.map o.get = o.symbols.toList := List.map_get_finRange o.symbols.toList
  rw [topLevel, ← hall, List.filter_map]
  rfl

theorem ofText_missingBodies (file text : String) :
    ((Outline.ofText file text).issues.filter (·.kind = .missingBody)).map Issue.offset =
      (((Outline.ofText file text).topLevel.map (Outline.ofText file text).get).filter
        (Symbol.missesBody (Token.ofText text))).map Symbol.start := by
  have hcut : Scan.reportedMissing ((Scan.ofTokens (Token.ofText text)).run text.toList).issues =
      Scan.cutStarts (Token.ofText text) ((Scan.ofTokens (Token.ofText text)).run text.toList).symbols :=
    Scan.run_keeps
      (P := fun s => Scan.reportedMissing s.issues = Scan.cutStarts (Token.ofText text) s.symbols)
      (Scan.missing_move (Token.ofText_laid text)) (List.suffix_refl _) rfl
  refine hcut.trans (congrArg (List.map Symbol.start) ?_)
  rw [topLevel_map_get, List.filter_filter]
  exact List.filter_congr fun x hx => isCutShort_eq file (Array.mem_toList_iff.mp hx)

theorem ofText_truthfulIssues (file text : String) :
    (Outline.ofText file text).TruthfulIssues text := by
  have hlaid := Token.ofText_laid text
  have hall := List.suffix_refl (Token.ofText text)
  obtain ⟨pos, hread, hissues⟩ : Scan.Reports text.toList (Token.ofText text)
      ((Scan.ofTokens (Token.ofText text)).run text.toList) := by
    refine Scan.run_keeps Scan.Reports.move hall ⟨0, ?_, ?_⟩
    · exact ⟨hlaid, Token.ofText_boundary text⟩
    · constructor <;> simp [Scan.ofTokens]
  have hstops : Scan.AllStopTruly (Token.ofText text)
      ((Scan.ofTokens (Token.ofText text)).run text.toList).issues
      ((Scan.ofTokens (Token.ofText text)).run text.toList).symbols :=
    Scan.run_keeps (P := fun s => Scan.AllStopTruly (Token.ofText text) s.issues s.symbols)
      (Scan.AllStopTruly.move hlaid) hall fun x hx => absurd hx (Array.not_mem_empty x)
  refine ⟨fun i hi => ?_, hissues.ordered, ofText_missingBodies file text, fun i hi hkind => ?_,
    hissues.distinct, fun i e he => ?_⟩
  · exact Nat.le_trans (hissues.bounded i hi) hread.laid.le
  · exact (hissues.unexpected i hi hkind).2
  · rcases hstops _ (Array.getElem_mem i.isLt) e he with hcall | hclosed | hissue
    · exact .inl hcall
    · exact .inr (.inl hclosed)
    · exact .inr (.inr (Array.mem_toList_iff.mpr hissue))

end Outline

end PlsqlNav
