import PlsqlNav.Proofs.Outline.WellFormed

/-! Where the parents of an outline come from. Each symbol is recorded by one step of the scan, and its
parent is the symbol of the scope that was innermost before this step. -/
namespace PlsqlNav

namespace Scan

variable {text : List Char} {s s' : Scan}

/-- All that parents depend on. Once a symbol is recorded its level stays as it is. -/
def levels (symbols : Array Symbol) : List Nat := symbols.toList.map Symbol.level

theorem length_levels (symbols : Array Symbol) : (levels symbols).length = symbols.size := by
  rw [levels, List.length_map, Array.length_toList]

theorem getElem?_levels (symbols : Array Symbol) (i : Nat) :
    (levels symbols)[i]? = symbols[i]?.map Symbol.level := by
  rw [levels, List.getElem?_map, Array.getElem?_toList]

theorem levels_setStop (s : Scan) (symbol : Option Nat) (n : Nat) :
    levels (s.setStop symbol n).symbols = levels s.symbols := by
  cases symbol with
  | none => rfl
  | some p =>
    apply List.ext_getElem?
    intro i
    rw [getElem?_levels, getElem?_levels, setStop_symbols, stopped, Array.getElem?_modify]
    split
    · rw [Option.map_map]
      rfl
    · rfl

/-- The levels are those of `s` and of one symbol more, recorded in the innermost scope. -/
structure Adds (s : Scan) (ls : List Nat) : Prop where
  levels : ls = levels s.symbols ++ [s.scopes.length]
  rest : s.rest ≠ []
  scope : ∀ scope outer, s.scopes = scope :: outer → scope.symbol.isSome

theorem record_adds {first : Token} {name : String} {after : List Token}
    (hnames : Token.Names s.rest first name after) (kind : Symbol.Kind) (stop : List Token)
    {recording : Bool}
    (hscope : recording → ∀ scope outer, s.scopes = scope :: outer → scope.symbol.isSome) :
    levels (s.record recording (s.symbolOf text first kind name stop)).symbols = levels s.symbols ∨
      s.Adds (levels (s.record recording (s.symbolOf text first kind name stop)).symbols) := by
  obtain ⟨us, hrest, _⟩ := hnames.exists_cons
  cases recording with
  | false => exact .inl rfl
  | true =>
    refine .inr ⟨?_, hrest ▸ List.cons_ne_nil first us, hscope rfl⟩
    rw [record, if_pos rfl, levels, Array.toList_push, List.map_append]
    rfl

/-- A move adds one symbol at most. -/
theorem Move.adds (h : Move text s s') :
    levels s'.symbols = levels s.symbols ∨ s.Adds (levels s'.symbols) := by
  have hinside {scope : Scope} {outer : List Scope} (hs : s.scopes = scope :: outer)
      (hsome : scope.symbol.isSome) : ∀ sc out, s.scopes = sc :: out → sc.symbol.isSome := by
    intro sc out heq
    cases hs.symm.trans heq
    exact hsome
  have hbody {recording : Bool} (hrecording : s.records (some recordedDepth) = recording)
      (hrec : recording) : ∀ sc out, s.scopes = sc :: out → sc.symbol.isSome :=
    fun _ _ hs => symbol_isSome_of_records (hrecording.trans hrec) hs
  cases h with
  | pass | statement | unexpected => exact .inl rfl
  | declared hs hnames => exact record_adds hnames _ _ (hinside hs)
  | specified recording d hs hread _ _ hrecords =>
    exact record_adds hread.named _ _ fun hrec => hinside hs (hrecords hrec).1
  | ended hs hread | cut hs hread =>
    exact record_adds (Header.ofUnit?_named hread).2 _ _ (hbody (records_outside hs))
  | called hread _ _ _ hrecording =>
    rw [goOn_symbols, levels_setStop]
    exact record_adds (Header.ofUnit?_named hread).2 _ _ (hbody hrecording)
  | opened hread _ _ hrecording =>
    exact record_adds (Header.ofUnit?_named hread).2 _ _ (hbody hrecording)
  | @closed scope | @interrupted scope | @unfinished scope =>
    exact .inl (levels_setStop s scope.symbol _)

theorem Reaches.levels (h : Reaches text s s') : levels s.symbols <+: levels s'.symbols := by
  refine h.keeps (P := fun s' => Scan.levels s.symbols <+: Scan.levels s'.symbols)
    (fun _ hprefix hmove => ?_) (List.prefix_refl _)
  rcases hmove.adds with hsame | hadds
  · rwa [hsame]
  · rw [hadds.levels]
    exact hprefix.trans (List.prefix_append _ _)

/-- A run of the text comes to `s`, and with the next step it records its symbol in place `i`. -/
structure RecordedFrom (text : String) (i : Nat) (s : Scan) : Prop where
  reached : Reaches text.toList (ofTokens (Token.ofText text)) s
  before : s.symbols.size = i
  after : i < (s.step text.toList).symbols.size

theorem RecordedFrom.adds {text : String} {i : Nat} (h : RecordedFrom text i s) :
    s.Adds (levels (s.step text.toList).symbols) := by
  refine (step_move text.toList s).adds.resolve_left fun hsame => ?_
  have hsize := congrArg List.length hsame
  rw [length_levels, length_levels, h.before] at hsize
  exact Nat.ne_of_gt h.after hsize

/-- Each symbol of a run has been recorded by one of its steps. -/
theorem Reaches.exists_recordedFrom {text : String} {i : Nat}
    (h : Reaches text.toList (ofTokens (Token.ofText text)) s) (hi : i < s.symbols.size) :
    ∃ s, RecordedFrom text i s := by
  induction h with
  | refl => contradiction
  | @step s₁ hreach ih =>
    rcases Nat.lt_trichotomy i s₁.symbols.size with hlt | heq | hgt
    · exact ih hlt
    · exact ⟨s₁, hreach, heq.symm, hi⟩
    · have hsize := length_levels (s₁.step text.toList).symbols
      rcases (step_move text.toList s₁).adds with hsame | hadds
      · rw [hsame, length_levels] at hsize
        omega
      · rw [hadds.levels, List.length_append, length_levels, List.length_singleton] at hsize
        omega

end Scan

namespace Outline

variable {o : Outline}

theorem level_of_prefix {ls : List Nat} (h : ls <+: Scan.levels o.symbols) {i : o.Id} {n : Nat}
    (hn : ls[i.val]? = some n) : (o.get i).level = n := by
  obtain ⟨later, hlater⟩ := h
  have hlevel : (Scan.levels o.symbols)[i.val]? = some n := by
    rw [← hlater, List.getElem?_append_left (List.getElem?_eq_some_iff.mp hn).1, hn]
  rw [Scan.getElem?_levels, getElem?_symbols] at hlevel
  exact Option.some.inj hlevel

/-- What is recorded behind `symbols`, in the innermost scope, has the symbol of this for its parent. -/
theorem parent?_of_innermost {symbols : Array Symbol} {outer : List Scope} {p : Nat}
    (h : Scan.Innermost symbols outer p)
    (hlevels : Scan.levels symbols <+: Scan.levels o.symbols) {i : o.Id} (hi : i.val = symbols.size)
    (hlevel : (o.get i).level = outer.length + 1) : ∃ q : o.Id, q.val = p ∧ o.parent? i = some q := by
  obtain ⟨y, hy, hsymbol, _⟩ := h.symbol
  have hpi : p < i.val := hi ▸ (Array.getElem?_eq_some_iff.mp hy).1
  have hbefore {k : o.Id} {x : Symbol} (hx : symbols[k.val]? = some x) : (o.get k).level = x.level := by
    refine level_of_prefix hlevels ?_
    rw [Scan.getElem?_levels, hx]
    rfl
  refine ⟨⟨p, Nat.lt_trans hpi i.isLt⟩, rfl, parent?_eq_some_iff.mpr ⟨hpi, ?_, ?_⟩⟩
  · rw [hlevel, hbefore hy, hsymbol]
  · intro k hpk hki
    have hlt : k.val < symbols.size := hi ▸ hki
    have hk := Array.getElem?_eq_getElem hlt
    rw [hbefore hk, hbefore hy, hsymbol]
    exact Nat.ne_of_gt (h.deeper k.val k.val _ hpk (Nat.le_refl _) hk)

/-- Every symbol is recorded by a step. It lies as deep as scopes were open before this, and the symbol
of the innermost of these is its parent; outside all scopes it has none. -/
theorem ofText_parent? (file text : String) (i : (ofText file text).Id) :
    (∃ s, Scan.RecordedFrom text i s) ∧ ∀ s, Scan.RecordedFrom text i s →
      ((ofText file text).get i).level = s.scopes.length ∧
        s.scopes.head?.map Scope.symbol = ((ofText file text).parent? i).map fun p => some p.val := by
  refine ⟨(Scan.reaches_run _ _).exists_recordedFrom i.isLt, fun s hs => ?_⟩
  have hadds := hs.adds
  have hrun : (Scan.ofTokens (Token.ofText text)).run text.toList = (s.step text.toList).run text.toList := by
    rw [hs.reached.run_eq hadds.rest, Scan.run_notDone (Scan.not_isDone hadds.rest)]
  have hlevels : Scan.levels s.symbols ++ [s.scopes.length] <+: Scan.levels (ofText file text).symbols := by
    rw [← hadds.levels]
    show _ <+: Scan.levels ((Scan.ofTokens (Token.ofText text)).run text.toList).symbols
    rw [hrun]
    exact (Scan.reaches_run _ _).levels
  have hlevel : ((ofText file text).get i).level = s.scopes.length := by
    refine level_of_prefix hlevels ?_
    rw [← hs.before, ← Scan.length_levels, List.getElem?_concat_length]
  refine ⟨hlevel, ?_⟩
  cases hscopes : s.scopes with
  | nil =>
    rw [hscopes] at hlevel
    rw [(parent?_eq_none_iff (ofText_rising file text)).mpr hlevel]
    rfl
  | cons scope outer =>
    obtain ⟨p, hp⟩ := Option.isSome_iff_exists.mp (hadds.scope scope outer hscopes)
    obtain ⟨pos, _, hrecorded⟩ := hs.reached.sound (Scan.ofText_sound text)
    rw [hscopes] at hrecorded hlevel
    obtain ⟨q, rfl, hq⟩ := parent?_of_innermost (hrecorded.opened.2 p hp)
      ((List.prefix_append _ _).trans hlevels) hs.before.symm hlevel
    rw [hq, List.head?_cons, Option.map_some, Option.map_some, hp]

end Outline

end PlsqlNav
