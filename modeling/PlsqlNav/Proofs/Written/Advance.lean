import PlsqlNav.Proofs.Scan.Progress
import PlsqlNav.Proofs.Written.Reading

/-! How far a scan gets in one step: over an item, into a routine, and out of it again. -/
namespace PlsqlNav

namespace Scan
variable {text : List Char} {s : Scan} {scope : Scope} {outer : List Scope} {recording : Bool}

/-- The scan once it has read declarations that leave these symbols, if any are recorded, and these
issues. -/
def advance (s : Scan) (recording : Bool) (symbols : List Symbol) (issues : List Issue)
    (rest : List Token) : Scan where
  rest := rest
  afterDollar := false
  scopes := s.scopes
  symbols := s.symbols ++ (if recording then symbols else []).toArray
  issues := s.issues ++ issues.toArray

section Advance
variable {xs ys : List Symbol} {is js : List Issue} {ts us vs : List Token}

theorem advance_nil (h : s.afterDollar = false) : s.advance recording [] [] s.rest = s := by
  cases s with
  | mk rest afterDollar scopes symbols issues =>
    cases h
    rw [advance, ite_self, Array.append_empty, Array.append_empty]

theorem advance_advance : (s.advance recording xs is ts).advance recording ys js us =
    s.advance recording (xs ++ ys) (is ++ js) us := by
  cases recording <;> simp [advance]

theorem record_goOn (x : Symbol) : (s.record recording x).goOn ts false =
    s.advance recording [x] [] ts := by
  cases recording <;> simp [advance, record, goOn]

theorem goOn_eq_advance : s.goOn ts false = s.advance recording [] [] ts := by
  simp [advance, goOn]

/-- Symbols that are recorded under a condition may as well be left out without it. -/
theorem advance_and (p : Prop) [Decidable p] : s.advance (recording && decide p) xs is ts =
    s.advance recording (if p then xs else []) is ts := by
  by_cases hp : p
  · rw [decide_eq_true hp, Bool.and_true, if_pos hp]
  · rw [decide_eq_false hp, Bool.and_false, if_neg hp, advance, advance, ite_self]
    rfl

/-- A scope that has just opened behind the symbol `x`. -/
def opened (s : Scan) (recording : Bool) (flavour : Flavour) (x : Symbol) (rest : List Token) :
    Scan :=
  { s.record recording x with
    rest
    afterDollar := false
    scopes := ⟨flavour, if recording then some s.symbols.size else none⟩ :: s.scopes }

theorem modify_record (symbols : Array Symbol) (x : Symbol) (f : Symbol → Symbol) :
    (symbols ++ (x :: ys).toArray).modify symbols.size f = symbols ++ (f x :: ys).toArray := by
  apply Array.toList_inj.mp
  rw [Array.toList_modify, List.modify_eq_take_cons_drop (by simp)]
  simp [List.drop_append]

/-- When the scope closes, its symbol comes before all that were recorded in it. -/
theorem leave_opened (flavour : Flavour) (x : Symbol) (stop : Nat) :
    (((s.opened recording flavour x us).advance recording xs is vs).leave
        ⟨flavour, if recording then some s.symbols.size else none⟩ s.scopes stop).goOn ts false =
      s.advance recording ({ x with stop := some stop } :: xs) is ts := by
  cases recording with
  | false => simp [opened, advance, leave, setStop, goOn, record]
  | true => simp [opened, advance, leave, setStop, goOn, record, modify_record]

end Advance

end Scan

namespace Written
open Token Scan

variable {text : List Char} {s : Scan} {scope : Scope} {outer : List Scope} {t u : Token}
  {ts : List Token}

section Declarations

theorem declare_run {run : List Token} (h : ∀ t ∈ run, t.isPunct ';' = false) (first name : Token)
    (kind : Symbol.Kind) (semicolon : Mark ';') :
    s.declare text scope first kind name.name (run ++ semicolon.token :: ts) =
      s.advance scope.symbol.isSome
        [symbol text s.scopes.length first kind name semicolon.token none] [] ts := by
  rw [declare, fromSemicolon_run h semicolon, List.tail_cons, record_goOn]
  rfl

theorem noSemicolon_cons (ht : t.isName) (h : ∀ u ∈ ts, u.isPunct ';' = false) :
    ∀ u ∈ t :: ts, u.isPunct ';' = false :=
  List.forall_mem_cons.mpr ⟨not_isPunct_of_isName ht, h⟩

theorem step_pragma (hs : s.scopes = scope :: outer) (hr : s.rest = t :: ts)
    (h : t.isWord "pragma") : s.step text = s.goOn (fromSemicolon ts).tail false := by
  have hname := isName_of_isWord h
  simp only [step, hs, stepIn, hr, not_isPunct_of_isName hname, hname, lead_pragma h,
    Bool.false_eq_true, Bool.not_true, if_false]

theorem step_introduced (hs : s.scopes = scope :: outer) (hr : s.rest = t :: u :: ts)
    (kind : Introduced) (h : t.isWord kind.keyword) (hu : u.isName) :
    s.step text = s.declare text scope t kind.kind u.name ts := by
  have hname := isName_of_isWord h
  simp only [step, hs, stepIn, hr, not_isPunct_of_isName hname, hname, lead_introduced kind h, hu,
    Bool.false_eq_true, Bool.not_true, if_false, if_true]

/-- A name that is no keyword leads a declaration of its own. -/
theorem step_free {opening : Bool} (hs : s.scopes = scope :: outer)
    (name : Free Reserved.keywords opening) (hr : s.rest = name.token :: ts)
    {kind : Symbol.Kind}
    (hkind : (if ts.head?.any (·.isWord "constant") then Symbol.Kind.constant
      else if ts.head?.any (·.isWord "exception") then .exception else .var) = kind) :
    s.step text = s.declare text scope name.token kind name.token.name ts := by
  simp only [step, hs, stepIn, hr, not_isPunct_of_isName name.isName, name.isName,
    lead_other name.leads, hkind, Bool.false_eq_true, Bool.not_true, if_false]

theorem step_specification (hs : s.scopes = scope :: outer) (hspec : scope.flavour = .spec)
    (hr : s.rest = t :: ts) (kind : Routine) (h : t.isWord kind.keyword) {name : String}
    {after : List Token} (hname : Header.qualifiedName ts = some (name, after)) :
    s.step text = s.declare text scope t (kind.kind .spec) name after := by
  have hn := isName_of_isWord h
  simp only [step, hs, stepIn, hr, not_isPunct_of_isName hn, hn, lead_routine kind h, hname, hspec,
    Bool.false_eq_true, Bool.not_true, if_false]

theorem step_routine (hs : s.scopes = scope :: outer) (hbody : scope.flavour = .body)
    (hr : s.rest = t :: ts) (kind : Routine) (h : t.isWord kind.keyword) {name : String}
    {after : List Token} (hname : Header.qualifiedName ts = some (name, after)) :
    s.step text = s.enter text (scope.symbol.isSome && s.scopes.length ≤ recordedDepth)
      ⟨t, kind.kind .body, name, after⟩ := by
  have hn := isName_of_isWord h
  simp only [step, hs, stepIn, hr, not_isPunct_of_isName hn, hn, lead_routine kind h, hname, hbody,
    Bool.false_eq_true, Bool.not_true, if_false, List.length_cons]

theorem step_begin (hs : s.scopes = scope :: outer) (hr : s.rest = t :: ts)
    (h : t.isWord "begin") : s.step text = s.leaveAt text scope outer (Extent.find 0 false ts) := by
  have hn := isName_of_isWord h
  simp only [step, hs, stepIn, hr, not_isPunct_of_isName hn, hn, lead_begin h,
    Bool.false_eq_true, Bool.not_true, if_false]

theorem step_end (hs : s.scopes = scope :: outer) (hr : s.rest = t :: ts) (h : t.isWord "end") :
    s.step text = s.leaveAt text scope outer (Extent.find 0 s.afterDollar (t :: ts)) := by
  have hn := isName_of_isWord h
  simp only [step, hs, stepIn, hr, not_isPunct_of_isName hn, hn, lead_end h,
    Bool.false_eq_true, Bool.not_true, if_false]

theorem step_stray (hs : s.scopes = scope :: outer) (first : Stray) (hr : s.rest = first.token :: ts) :
    s.step text = s.stepOver first.token ts := by
  simp only [step, hs, stepIn, hr, first.noSemicolon, first.noName, Bool.false_eq_true,
    Bool.not_false, if_false, if_true]

theorem step_item {opening : Bool} (hs : s.scopes = scope :: outer)
    (i : Item Reserved.keywords opening) (semicolon : Mark ';')
    (hr : s.rest = i.tokens ++ semicolon.token :: ts) :
    s.step text = s.advance scope.symbol.isSome
      (i.symbols text s.scopes.length semicolon.token) i.issues ts := by
  cases i with
  | pragma word run =>
    rw [step_pragma hs hr word.is, List.append_eq, fromSemicolon_run run.noSemicolon semicolon,
      List.tail_cons]
    exact goOn_eq_advance
  | introduced kind word name run =>
    rw [step_introduced hs hr kind word.is name.isName]
    exact declare_run run.noSemicolon _ _ _ _
  | constant name word run =>
    rw [step_free hs name hr (by exact if_pos word.is)]
    exact declare_run (noSemicolon_cons word.isName run.noSemicolon) _ _ _ _
  | exception name word =>
    have hconstant : word.token.isWord "constant" = false := by
      rw [isWord_of_isWord word.is]
      decide
    have hkind : (if word.token.isWord "constant" then Symbol.Kind.constant
        else if word.token.isWord "exception" then .exception else .var) = .exception := by
      rw [hconstant, if_neg Bool.false_ne_true, if_pos word.is]
    rw [step_free hs name hr hkind]
    exact declare_run (noSemicolon_cons word.isName (List.forall_mem_nil _)) _ _ _ _
  | var name run plain =>
    have hhead : ∀ t ∈ (run.tokens ++ semicolon.token :: ts).head?,
        t.isOneOf ["constant", "exception"] = false := by
      cases hrun : run.tokens with
      | nil =>
        intro t ht
        cases ht
        exact not_isOneOf_of_not_isName (not_isName_of_isPunct semicolon.isMark)
      | cons u us => exact fun t ht => plain t (hrun ▸ ht)
    have hno {keyword : String} (hk : keyword ∈ ["constant", "exception"]) :
        (run.tokens ++ semicolon.token :: ts).head?.any (·.isWord keyword) = false :=
      any_head_eq_false fun t ht => not_isOneOf_iff.mp (hhead t ht) keyword hk
    have hkind : (if (run.tokens ++ semicolon.token :: ts).head?.any (·.isWord "constant") then
        Symbol.Kind.constant
        else if (run.tokens ++ semicolon.token :: ts).head?.any (·.isWord "exception") then .exception
        else .var) = .var := by
      rw [hno (by simp), hno (by simp), if_neg Bool.false_ne_true, if_neg Bool.false_ne_true]
    rw [step_free hs name hr hkind]
    exact declare_run run.noSemicolon _ _ _ _
  | unexpected first run plain =>
    rw [step_stray hs first hr, stepOver, List.append_eq,
      skip_stray first run.noSemicolon plain semicolon]
    simp [advance, report, goOn, Item.symbols, Item.issues]

end Declarations

end Written

end PlsqlNav
