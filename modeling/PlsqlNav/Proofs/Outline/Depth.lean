import PlsqlNav.Proofs.Outline.Kinds
import PlsqlNav.Proofs.Scan.Walk

/-! The depth down to which routines are recorded only prunes an outline: a run that records them at
every depth gives the same issues, and the recorded symbols unchanged and in order among others. -/
namespace PlsqlNav.Scan

variable {text : List Char} {s : Scan} {scope : Scope} {scopes outer : List Scope}
  {symbols : Array Symbol} {limit : Nat}

/-- A step that records routines down to the given depth, or at every depth without one. -/
def stepWithin (limit : Option Nat) (text : List Char) (s : Scan) : Scan :=
  s.perform text (s.records limit) s.action

theorem stepWithin_recordedDepth : s.stepWithin (some recordedDepth) text = s.step text :=
  (step_eq_perform text s).symm

theorem stepWithin_sameWalk (limit : Option Nat) (text : List Char) (s : Scan) :
    SameWalk (s.stepWithin limit text) (s.step text) := by
  rw [step_eq_perform]
  exact (SameWalk.refl s).perform _ _ _

def runWithin (limit : Option Nat) (text : List Char) (s : Scan) : Scan :=
  if h : s.isDone then s
  else
    have : (s.stepWithin limit text).size < s.size :=
      (stepWithin_sameWalk limit text s).size ▸ step_size h
    runWithin limit text (s.stepWithin limit text)
termination_by s.size

theorem runWithin_done (limit : Option Nat) (h : s.isDone) : s.runWithin limit text = s := by
  rw [runWithin, dif_pos h]

theorem runWithin_notDone (limit : Option Nat) (h : ¬ s.isDone) :
    s.runWithin limit text = (s.stepWithin limit text).runWithin limit text := by
  rw [runWithin, dif_neg h]

theorem runWithin_recordedDepth (text : List Char) (s : Scan) :
    s.runWithin (some recordedDepth) text = s.run text := by
  fun_induction run text s with
  | case1 s hdone => exact runWithin_done _ hdone
  | case2 s hdone _ ih => rw [runWithin_notDone _ hdone, stepWithin_recordedDepth, ih]

/-- Whether a symbol is recorded when routines are down to the depth `limit`. What is declared right
inside the deepest of them is recorded too, but for routines. -/
def keptWithin (limit : Nat) (x : Symbol) : Bool :=
  x.level ≤ limit || (x.level == limit + 1 && !x.kind.hasCounterpart)

/-- The place of the symbol `i` among the kept. -/
def rank (limit : Nat) (symbols : Array Symbol) (i : Nat) : Nat :=
  (symbols.toList.take i).countP (keptWithin limit)

def pruneScope (limit : Nat) (symbols : Array Symbol) (depth : Nat) (scope : Scope) : Scope where
  flavour := scope.flavour
  symbol := if depth ≤ limit then scope.symbol.map (rank limit symbols) else none

def pruneScopes (limit : Nat) (symbols : Array Symbol) : List Scope → List Scope
  | [] => []
  | scope :: outer =>
    pruneScope limit symbols outer.length scope :: pruneScopes limit symbols outer

/-- What a scan comes to that has recorded no routine deeper than `limit`. -/
def prune (limit : Nat) (s : Scan) : Scan :=
  { s with
    scopes := pruneScopes limit s.symbols s.scopes
    symbols := s.symbols.filter (keptWithin limit) }

theorem keptWithin_of_hasCounterpart {x : Symbol} (h : x.kind.hasCounterpart) :
    keptWithin limit x = decide (x.level ≤ limit) := by
  rw [keptWithin, h, Bool.not_true, Bool.and_false, Bool.or_false]

theorem keptWithin_of_plain {x : Symbol} (h : x.kind.hasCounterpart = false) :
    keptWithin limit x = decide (x.level ≤ limit + 1) := by
  rw [keptWithin, h, Bool.not_false, Bool.and_true, Bool.eq_iff_iff, Bool.or_eq_true, beq_iff_eq,
    decide_eq_true_eq, decide_eq_true_eq]
  omega

/-- Where a symbol stops has no say in whether it is kept. -/
theorem keptWithin_stop (e : Option Nat) (x : Symbol) :
    keptWithin limit { x with stop := e } = keptWithin limit x := rfl

@[simp] theorem pruneScopes_length : (pruneScopes limit symbols scopes).length = scopes.length := by
  induction scopes with
  | nil => rfl
  | cons scope outer ih => rw [pruneScopes, List.length_cons, List.length_cons, ih]

theorem pruneScopes_flavours :
    (pruneScopes limit symbols scopes).map Scope.flavour = scopes.map Scope.flavour := by
  induction scopes with
  | nil => rfl
  | cons scope outer ih => rw [pruneScopes, List.map_cons, List.map_cons, ih, pruneScope]

theorem prune_sameWalk (limit : Nat) (s : Scan) : SameWalk (s.prune limit) s :=
  ⟨rfl, rfl, pruneScopes_flavours, rfl⟩

theorem symbolOf_level (first : Token) (kind : Symbol.Kind) (name : String) (stop : List Token) :
    (s.symbolOf text first kind name stop).level = s.scopes.length := rfl

theorem symbolOf_prune (first : Token) (kind : Symbol.Kind) (name : String) (stop : List Token) :
    (s.prune limit).symbolOf text first kind name stop = s.symbolOf text first kind name stop := by
  rw [symbolOf, symbolOf, (prune_sameWalk limit s).length]

section Rank

theorem filter_modify {α : Type} {p : α → Bool} {f : α → α} (hf : ∀ x, p (f x) = p x) {x : α}
    {l : List α} {i : Nat} (hx : l[i]? = some x) :
    (l.modify i f).filter p =
      if p x then (l.filter p).modify ((l.take i).countP p) f else l.filter p := by
  induction l generalizing i with
  | nil => contradiction
  | cons y l ih =>
    cases i with
    | zero =>
      cases hx
      rw [List.modify_zero_cons, List.take_zero, List.countP_nil]
      by_cases hp : p x
      · rw [List.filter_cons_of_pos (by rwa [hf]), List.filter_cons_of_pos hp, if_pos hp,
          List.modify_zero_cons]
      · rw [List.filter_cons_of_neg (by rwa [hf]), List.filter_cons_of_neg hp, if_neg hp]
    | succ i =>
      rw [List.getElem?_cons_succ] at hx
      rw [List.modify_succ_cons, List.take_succ_cons]
      by_cases hp : p y
      · rw [List.filter_cons_of_pos hp, List.filter_cons_of_pos hp, List.countP_cons_of_pos hp,
          List.modify_succ_cons, ih hx]
        split <;> rfl
      · rw [List.filter_cons_of_neg hp, List.filter_cons_of_neg hp, List.countP_cons_of_neg hp, ih hx]

theorem countP_take_modify {α : Type} {p : α → Bool} {f : α → α} (hf : ∀ x, p (f x) = p x)
    (l : List α) (i j : Nat) : ((l.modify i f).take j).countP p = (l.take j).countP p := by
  induction l generalizing i j with
  | nil => rw [List.modify_nil]
  | cons y l ih =>
    cases j with
    | zero => rfl
    | succ j =>
      cases i with
      | zero =>
        rw [List.modify_zero_cons, List.take_succ_cons, List.take_succ_cons, List.countP_cons,
          List.countP_cons, hf]
      | succ i =>
        rw [List.modify_succ_cons, List.take_succ_cons, List.take_succ_cons, List.countP_cons,
          List.countP_cons, ih]

theorem rank_stopped (symbols : Array Symbol) (p e i : Nat) :
    rank limit (stopped symbols p e) i = rank limit symbols i := by
  rw [rank, rank, stopped, Array.toList_modify]
  exact countP_take_modify (keptWithin_stop (some e)) _ _ _

theorem rank_push {i : Nat} (hi : i ≤ symbols.size) (x : Symbol) :
    rank limit (symbols.push x) i = rank limit symbols i := by
  rw [rank, rank, Array.toList_push, List.take_append_of_le_length hi]

theorem rank_size (symbols : Array Symbol) :
    rank limit symbols symbols.size = (symbols.filter (keptWithin limit)).size := by
  rw [rank, List.take_of_length_le (Nat.le_of_eq Array.length_toList),
    List.countP_eq_length_filter, ← Array.toList_filter, Array.length_toList]

theorem filter_stopped (limit : Nat) {p : Nat} {x : Symbol} (hx : symbols[p]? = some x) (e : Nat) :
    (stopped symbols p e).filter (keptWithin limit) =
      if keptWithin limit x then stopped (symbols.filter (keptWithin limit)) (rank limit symbols p) e
      else symbols.filter (keptWithin limit) := by
  apply Array.toList_inj.mp
  rw [Array.toList_filter, stopped, Array.toList_modify,
    filter_modify (keptWithin_stop (some e)) (by rwa [Array.getElem?_toList])]
  split
  · rw [stopped, Array.toList_modify, Array.toList_filter, rank]
  · rw [Array.toList_filter]

theorem filter_push (symbols : Array Symbol) (x : Symbol) :
    (symbols.push x).filter (keptWithin limit) =
      if keptWithin limit x then (symbols.filter (keptWithin limit)).push x
      else symbols.filter (keptWithin limit) := by
  apply Array.toList_inj.mp
  rw [Array.toList_filter, Array.toList_push, List.filter_append]
  split
  · next hx => rw [List.filter_cons_of_pos hx, Array.toList_push, Array.toList_filter]; rfl
  · next hx => rw [List.filter_cons_of_neg hx, Array.toList_filter]; exact List.append_nil _

end Rank

/-- Every open scope has its symbol, on the level that the scope stands on. -/
def Tracked (symbols : Array Symbol) : List Scope → Prop
  | [] => True
  | scope :: outer =>
    (∃ i x, scope.symbol = some i ∧ symbols[i]? = some x ∧ x.level = outer.length ∧
      x.kind.hasCounterpart) ∧ Tracked symbols outer

theorem Tracked.push (h : Tracked symbols scopes) (y : Symbol) : Tracked (symbols.push y) scopes := by
  induction scopes with
  | nil => trivial
  | cons scope outer ih =>
    obtain ⟨⟨i, x, hi, hx, hlevel⟩, houter⟩ := h
    exact ⟨⟨i, x, hi, getElem?_push_of_some hx, hlevel⟩, ih houter⟩

theorem Tracked.stopped (h : Tracked symbols scopes) (p e : Nat) :
    Tracked (stopped symbols p e) scopes := by
  induction scopes with
  | nil => trivial
  | cons scope outer ih =>
    obtain ⟨⟨i, x, hi, hx, hlevel, hkind⟩, houter⟩ := h
    refine ⟨?_, ih houter⟩
    by_cases hp : p = i
    · refine ⟨i, { x with stop := some e }, hi, ?_, hlevel, hkind⟩
      rw [Scan.stopped, Array.getElem?_modify, if_pos hp, hx, Option.map_some]
    · exact ⟨i, x, hi, (getElem?_stopped_of_ne (Ne.symm hp)).trans hx, hlevel, hkind⟩

theorem pruneScopes_push (limit : Nat) (h : Tracked symbols scopes) (y : Symbol) :
    pruneScopes limit (symbols.push y) scopes = pruneScopes limit symbols scopes := by
  induction scopes with
  | nil => rfl
  | cons scope outer ih =>
    obtain ⟨⟨i, x, hi, hx, _⟩, houter⟩ := h
    have hlt := (Array.getElem?_eq_some_iff.mp hx).1
    rw [pruneScopes, pruneScopes, ih houter, pruneScope, pruneScope, hi, Option.map_some,
      Option.map_some, rank_push (Nat.le_of_lt hlt)]

theorem pruneScopes_stopped (limit : Nat) (symbols : Array Symbol) (p e : Nat) (scopes : List Scope) :
    pruneScopes limit (stopped symbols p e) scopes = pruneScopes limit symbols scopes := by
  induction scopes with
  | nil => rfl
  | cons scope outer ih =>
    rw [pruneScopes, pruneScopes, ih, pruneScope, pruneScope, funext (rank_stopped symbols p e)]

/-- A scan in which every routine so far has left its symbol. -/
structure Unlimited (s : Scan) : Prop where
  tracked : Tracked s.symbols s.scopes
  scopes : SpecOutside s.scopes

section Prune
variable {hd : Header} {x y : Symbol}

theorem prune_record (h : s.Unlimited) (x : Symbol) :
    (s.record true x).prune limit = (s.prune limit).record (keptWithin limit x) x := by
  simp only [record, prune, if_true, pruneScopes_push limit h.tracked, filter_push]
  split <;> rfl

theorem prune_setStop (limit : Nat) {i : Nat} (hx : s.symbols[i]? = some x) (n : Nat) :
    (s.setStop (some i) n).prune limit = (s.prune limit).setStop
      (if keptWithin limit x then some (rank limit s.symbols i) else none) n := by
  have hfilter := filter_stopped limit hx n
  have hscopes := pruneScopes_stopped limit s.symbols i n s.scopes
  rw [stopped] at hfilter hscopes
  simp only [setStop, prune, hfilter, hscopes]
  split <;> rfl

theorem prune_leave (h : s.Unlimited) (hs : s.scopes = scope :: outer) (n : Nat) :
    (s.leave scope outer n).prune limit = (s.prune limit).leave
      (pruneScope limit s.symbols outer.length scope) (pruneScopes limit s.symbols outer) n := by
  have htracked := h.tracked
  rw [hs] at htracked
  obtain ⟨⟨i, x, hi, hx, hlevel, hkind⟩, _⟩ := htracked
  have hstop := prune_setStop limit hx n
  simp only [keptWithin_of_hasCounterpart hkind, hlevel, decide_eq_true_eq] at hstop
  have hscopes : pruneScopes limit (s.setStop (some i) n).symbols outer =
      pruneScopes limit s.symbols outer := pruneScopes_stopped limit s.symbols i n outer
  calc (s.leave scope outer n).prune limit
    _ = { (s.setStop (some i) n).prune limit with
          scopes := pruneScopes limit (s.setStop (some i) n).symbols outer } := by rw [leave, hi]; rfl
    _ = _ := by rw [hstop, hscopes, leave, pruneScope, hi, Option.map_some]

/-- The place that a pushed symbol takes among the kept. -/
theorem rank_pushed (limit : Nat) (s : Scan) (y : Symbol) :
    rank limit (s.symbols.push y) s.symbols.size = (s.prune limit).symbols.size :=
  (rank_push (Nat.le_refl _) y).trans (rank_size s.symbols)

theorem prune_setStop_pushed (limit : Nat) (hkind : y.kind.hasCounterpart)
    (hlevel : y.level = s.scopes.length) (n : Nat) :
    ((s.record true y).setStop (some s.symbols.size) n).prune limit =
      ((s.record true y).prune limit).setStop
        (if decide (s.scopes.length ≤ limit) then some (s.prune limit).symbols.size else none) n := by
  have hstop := prune_setStop (s := s.record true y) limit Array.getElem?_push_size n
  rw [keptWithin_of_hasCounterpart hkind, hlevel] at hstop
  rw [hstop, ← rank_pushed limit s y]
  rfl

theorem pruneScope_pushed (limit : Nat) (s : Scan) (y : Symbol) (flavour : Flavour) :
    pruneScope limit (s.symbols.push y) s.scopes.length ⟨flavour, some s.symbols.size⟩ =
      ⟨flavour, if decide (s.scopes.length ≤ limit) then some (s.prune limit).symbols.size
        else none⟩ := by
  simp only [pruneScope, Option.map_some, rank_pushed, decide_eq_true_eq]

theorem prune_enter (h : s.Unlimited) (hkind : hd.kind.hasCounterpart) :
    (s.enter text true hd).prune limit =
      (s.prune limit).enter text (decide (s.scopes.length ≤ limit)) hd := by
  have hempty := (prune_sameWalk limit s).isEmpty
  have hrecord (k : Symbol.Kind) (hk : k.hasCounterpart) (ts : List Token) :
      (s.record true (s.symbolOf text hd.first k hd.name ts)).prune limit =
        (s.prune limit).record (decide (s.scopes.length ≤ limit))
          ((s.prune limit).symbolOf text hd.first k hd.name ts) := by
    rw [prune_record h, symbolOf_prune, keptWithin_of_hasCounterpart hk]
    rfl
  have hcounterpart : hd.kind.counterpart.hasCounterpart :=
    hd.kind.hasCounterpart_counterpart.trans hkind
  cases he : Header.findEnd 0 false hd.rest with
  | semicolon us =>
    rw [enter_of_semicolon he, enter_of_semicolon he, hempty, ← hrecord _ _ us]
    · rfl
    · split
      · exact hcounterpart
      · exact hkind
  | cut us d =>
    rw [enter_of_cut he, enter_of_cut he, hempty, ← hrecord _ hcounterpart us, ← hrecord _ hkind us]
    split <;> rfl
  | body us =>
    rw [enter_of_body he, enter_of_body he, ← hrecord _ hkind us]
    split
    · -- A call specification stops the symbol that it has just pushed.
      let y := s.symbolOf text hd.first hd.kind hd.name us
      have hstop := prune_setStop_pushed limit (y := y) hkind rfl (stopOf text (fromSemicolon us.tail))
      exact congrArg (·.goOn (fromSemicolon us.tail).tail false) hstop
    · have hscopes := pruneScopes_push limit h.tracked
        (s.symbolOf text hd.first hd.kind hd.name us)
      simp only [prune, pruneScopes, record, if_true, pruneScope_pushed, hscopes]

end Prune

section Fits

/-- Packages and routines are declared without a body only right inside a unit, and specifications are
entered only outside. -/
def Action.Fits (scopes : List Scope) : Action → Prop
  | .declare _ kind _ _ => kind.hasCounterpart → scopes.length ≤ 1
  | .enter h => h.kind.hasCounterpart ∧ (h.kind = .package .spec → scopes = [])
  | .pass .. | .stepOver .. | .close _ | .breakOff => True

theorem outside_fits (ts : List Token) : (Action.outside ts).Fits [] := by
  rw [Action.outside]
  split
  · next h hread =>
    exact ⟨Symbol.Kind.hasCounterpart_of_isBlock (Header.ofUnit?_eq_some hread).1, fun _ => rfl⟩
  · trivial

theorem inside_fits (h : SpecOutside (scope :: outer)) (afterDollar : Bool) (ts : List Token) :
    (Action.inside scope.flavour afterDollar ts).Fits (scope :: outer) := by
  have hplain {kind : Symbol.Kind} (hkind : kind.hasCounterpart = false) (first : Token)
      (name : String) (rest : List Token) :
      (Action.declare first kind name rest).Fits (scope :: outer) :=
    fun hsome => absurd hsome (ne_true_of_eq_false hkind)
  rw [Action.inside.eq_def]
  split
  · trivial
  · next t rest =>
    split
    · trivial
    split
    · trivial
    split
    · trivial
    · trivial
    · trivial
    · trivial
    · next kind hlead =>
      have hroutine := Lead.isRoutine_of_routine hlead .body
      split
      · trivial
      · split
        · next hflavour =>
          intro _
          rw [h.1 hflavour]
          exact Nat.le_refl 1
        · refine ⟨Symbol.Kind.hasCounterpart_of_declared (.inl hroutine), fun heq => ?_⟩
          rw [show kind .body = .package .spec from heq] at hroutine
          contradiction
    · next kind hlead =>
      split
      · trivial
      · split
        · exact hplain (Lead.hasCounterpart_of_named hlead) _ _ _
        · trivial
    · refine hplain ?_ _ _ _
      split
      · rfl
      split
      · rfl
      · rfl

theorem action_fits (h : SpecOutside s.scopes) : s.action.Fits s.scopes := by
  rw [action]
  cases hs : s.scopes with
  | nil => exact outside_fits s.rest
  | cons scope outer => exact inside_fits (hs ▸ h) s.afterDollar s.rest

end Fits

namespace Unlimited

theorem isSome (h : s.Unlimited) (hs : s.scopes = scope :: outer) : scope.symbol.isSome = true := by
  have htracked := h.tracked
  rw [hs] at htracked
  obtain ⟨⟨i, _, hi, _⟩, _⟩ := htracked
  rw [hi, Option.isSome_some]

theorem isSome_pruneScope (h : s.Unlimited) (hs : s.scopes = scope :: outer) :
    (pruneScope limit s.symbols outer.length scope).symbol.isSome = decide (outer.length ≤ limit) := by
  rw [pruneScope]
  split
  · next hle => rw [Option.isSome_map, h.isSome hs, decide_eq_true hle]
  · next hle => rw [Option.isSome_none, decide_eq_false hle]

theorem records_none (h : s.Unlimited) : s.records none = true := by
  rw [records]
  split
  · rfl
  · next hs =>
    rw [h.isSome hs]
    rfl

theorem records_prune (h : s.Unlimited) :
    (s.prune limit).records (some limit) = decide (s.scopes.length ≤ limit) := by
  cases hs : s.scopes with
  | nil =>
    rw [records, prune, hs]
    exact (decide_eq_true (Nat.zero_le _)).symm
  | cons scope outer =>
    have hscopes : (s.prune limit).scopes =
        pruneScope limit s.symbols outer.length scope :: pruneScopes limit s.symbols outer := by
      rw [prune, hs, pruneScopes]
    rw [records, hscopes]
    dsimp only
    rw [h.isSome_pruneScope hs, pruneScopes_length, Option.all_some, List.length_cons,
      Bool.eq_iff_iff, Bool.and_eq_true]
    simp only [decide_eq_true_eq]
    omega

theorem goOn (h : s.Unlimited) (ts : List Token) (d : Bool) : (s.goOn ts d).Unlimited :=
  ⟨h.tracked, h.scopes⟩

theorem report (h : s.Unlimited) (kind : Issue.Kind) (n : Nat) : (s.report kind n).Unlimited :=
  ⟨h.tracked, h.scopes⟩

theorem record (h : s.Unlimited) (x : Symbol) : (s.record true x).Unlimited :=
  ⟨h.tracked.push x, h.scopes⟩

theorem setStop (h : s.Unlimited) (symbol : Option Nat) (n : Nat) : (s.setStop symbol n).Unlimited := by
  cases symbol with
  | none => exact h
  | some i => exact ⟨h.tracked.stopped i n, h.scopes⟩

theorem leave (h : s.Unlimited) (hs : s.scopes = scope :: outer) (n : Nat) :
    (s.leave scope outer n).Unlimited := by
  obtain ⟨htracked, hscopes⟩ := h.setStop scope.symbol n
  rw [setStop_scopes, hs] at htracked hscopes
  exact ⟨htracked.2, hscopes.2⟩

theorem enter (h : s.Unlimited) {hd : Header} (hkind : hd.kind.hasCounterpart)
    (hspec : hd.kind = .package .spec → s.scopes = []) : (s.enter text true hd).Unlimited := by
  cases he : Header.findEnd 0 false hd.rest with
  | semicolon us =>
    rw [enter_of_semicolon he]
    exact (h.record _).goOn _ _
  | cut us d =>
    rw [enter_of_cut he]
    split
    · exact (h.record _).goOn _ _
    · exact ((h.record _).goOn _ _).report _ _
  | body us =>
    rw [enter_of_body he]
    split
    · exact ((h.record _).setStop _ _).goOn _ _
    · refine ⟨⟨⟨s.symbols.size, _, rfl, Array.getElem?_push_size, rfl, hkind⟩, h.tracked.push _⟩,
        fun hflavour => ?_, h.scopes⟩
      split at hflavour
      · next heq => exact hspec heq
      · contradiction

theorem perform (h : s.Unlimited) {a : Action} (ha : a.Fits s.scopes) :
    (s.perform text true a).Unlimited := by
  cases a with
  | pass rest d => exact h.goOn _ _
  | stepOver first rest => exact (h.report _ _).goOn _ _
  | enter hd => exact h.enter ha.1 ha.2
  | declare first kind name rest =>
    rw [Scan.perform]
    split
    · exact h
    · next hs =>
      rw [declare, h.isSome hs]
      exact (h.record _).goOn _ _
  | close extent =>
    rw [Scan.perform]
    split
    · exact h
    · next hs =>
      cases extent with
      | none => exact ((h.leave hs _).goOn _ _).report _ _
      | some e => exact (h.leave hs _).goOn _ _
  | breakOff =>
    rw [Scan.perform]
    split
    · exact h
    · next hs => exact (h.leave hs _).report _ _

theorem stepWithin (h : s.Unlimited) : (s.stepWithin none text).Unlimited := by
  rw [Scan.stepWithin, h.records_none]
  exact h.perform (action_fits h.scopes)

end Unlimited

theorem prune_declare (h : s.Unlimited) (hlimit : 1 ≤ limit) (hs : s.scopes = scope :: outer)
    {first : Token} {kind : Symbol.Kind} {name : String} {rest : List Token}
    (hfits : (Action.declare first kind name rest).Fits s.scopes) :
    (s.declare text scope first kind name rest).prune limit = (s.prune limit).declare text
      (pruneScope limit s.symbols outer.length scope) first kind name rest := by
  have hlevel : s.scopes.length = outer.length + 1 := by rw [hs, List.length_cons]
  have hkept : keptWithin limit (s.symbolOf text first kind name (fromSemicolon rest)) =
      decide (outer.length ≤ limit) := by
    cases hkind : kind.hasCounterpart with
    | true =>
      -- The scope is a specification, and so the only one.
      have hone := hfits hkind
      rw [keptWithin_of_hasCounterpart hkind]
      exact decide_eq_decide.mpr (by rw [symbolOf_level]; omega)
    | false =>
      rw [keptWithin_of_plain hkind]
      exact decide_eq_decide.mpr (by rw [symbolOf_level]; omega)
  rw [declare, declare, h.isSome hs, h.isSome_pruneScope hs, symbolOf_prune, ← hkept,
    ← prune_record h]
  rfl

theorem prune_perform (h : s.Unlimited) (hlimit : 1 ≤ limit) {a : Action} (ha : a.Fits s.scopes) :
    (s.perform text true a).prune limit =
      (s.prune limit).perform text ((s.prune limit).records (some limit)) a := by
  have hscopes : (s.prune limit).scopes = pruneScopes limit s.symbols s.scopes := rfl
  cases a with
  | pass rest d => rfl
  | stepOver first rest => rfl
  | enter hd => rw [perform, perform, h.records_prune, prune_enter h ha.1]
  | declare first kind name rest =>
    rw [perform, perform, hscopes]
    cases hs : s.scopes with
    | nil => rfl
    | cons scope outer => exact prune_declare h hlimit hs ha
  | close extent =>
    rw [perform, perform, hscopes]
    cases hs : s.scopes with
    | nil => rfl
    | cons scope outer =>
      rw [pruneScopes]
      dsimp only
      cases extent with
      | none => rw [leaveAt, leaveAt, ← prune_leave h hs]; rfl
      | some e => rw [leaveAt, leaveAt, ← prune_leave h hs]; rfl
  | breakOff =>
    rw [perform, perform, hscopes]
    cases hs : s.scopes with
    | nil => rfl
    | cons scope outer =>
      rw [pruneScopes]
      dsimp only
      rw [← prune_leave h hs]
      rfl

/-- To record with a limit is to record without one and to prune. -/
theorem prune_stepWithin (h : s.Unlimited) (hlimit : 1 ≤ limit) :
    (s.stepWithin none text).prune limit = (s.prune limit).stepWithin (some limit) text := by
  rw [stepWithin, stepWithin, h.records_none, prune_perform h hlimit (action_fits h.scopes),
    (prune_sameWalk limit s).action]

theorem prune_runWithin (text : List Char) (h : s.Unlimited) (hlimit : 1 ≤ limit) :
    (s.runWithin none text).prune limit = (s.prune limit).runWithin (some limit) text := by
  fun_induction runWithin none text s with
  | case1 s hdone => rw [runWithin_done _ ((prune_sameWalk limit s).isDone ▸ hdone)]
  | case2 s hdone _ ih =>
    rw [ih h.stepWithin, prune_stepWithin h hlimit,
      ← runWithin_notDone _ ((prune_sameWalk limit s).isDone ▸ hdone)]

theorem ofTokens_unlimited (ts : List Token) : (ofTokens ts).Unlimited := ⟨trivial, trivial⟩

theorem prune_ofTokens (ts : List Token) : (ofTokens ts).prune limit = ofTokens ts := rfl

/-- Recording is no part of the walk. A package or routine that is walked without being recorded is
walked to the same token with the same issues, and leaves the symbols as they are. So the depth down
to which routines are recorded only leaves symbols out. -/
theorem recording_only_prunes (text : List Char) :
    (∀ (h : Header) (s : Scan),
      (∀ recording,
        (s.block text recording h).run text = (s.enter text recording h).run text) ∧
      (s.block text false h).rest = (s.block text true h).rest ∧
      (s.block text false h).afterDollar = (s.block text true h).afterDollar ∧
      (s.block text false h).issues = (s.block text true h).issues ∧
      (s.block text false h).scopes = (s.block text true h).scopes ∧
      (s.block text false h).symbols = s.symbols) ∧
    ∀ ts : List Token,
      ((ofTokens ts).run text).issues = ((ofTokens ts).runWithin none text).issues ∧
      ((ofTokens ts).run text).symbols =
        ((ofTokens ts).runWithin none text).symbols.filter (keptWithin recordedDepth) := by
  refine ⟨fun h s => ?_, fun ts => ?_⟩
  · have hwalk := block_sameWalk text false true h s
    exact ⟨fun recording => run_block text recording h s, hwalk.rest, hwalk.afterDollar, hwalk.issues,
      (block_scopes text false h s).trans (block_scopes text true h s).symm,
      block_silent_symbols text h s⟩
  · have hprune := prune_runWithin text (ofTokens_unlimited ts) (Nat.le_refl recordedDepth)
    rw [prune_ofTokens, runWithin_recordedDepth] at hprune
    rw [← hprune]
    exact ⟨rfl, rfl⟩

/-- A routine in a routine of a package is left out, with all that it declares. -/
example : let text := "package body p is procedure q is n int; procedure r is k int; begin null; end;
      begin null; end; end;"
    let unlimited := (ofTokens (Token.ofText text)).runWithin none text.toList
    unlimited.symbols.toList.map (fun x => (x.name, keptWithin recordedDepth x)) =
      [("p", true), ("q", true), ("n", true), ("r", false), ("k", false)] := by decide +kernel

end PlsqlNav.Scan
