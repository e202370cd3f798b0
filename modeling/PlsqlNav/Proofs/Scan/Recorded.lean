import PlsqlNav.Outline.Scan
import PlsqlNav.Proofs.Token.Placement

/-! What a scan has recorded: symbols in text order whose extents nest as their levels say. A symbol is
pushed inside the innermost open scope, and a scope closes behind all that was recorded in it. -/
namespace PlsqlNav.Scan

/-- Symbols after `i`, up to `j`, are deeper than `level`. -/
def Deeper (symbols : Array Symbol) (level i j : Nat) : Prop :=
  ∀ (k : Nat) (z : Symbol), i < k → k ≤ j → symbols[k]? = some z → level < z.level

def IsOpen (scopes : List Scope) (i : Nat) : Prop := ∃ scope ∈ scopes, scope.symbol = some i

/-- The symbol `p` of a scope that opened inside `outer` and has not closed. -/
structure Innermost (symbols : Array Symbol) (outer : List Scope) (p : Nat) : Prop where
  recorded : ∀ scope ∈ outer, scope.symbol.isSome
  depth : outer.length ≤ recordedDepth
  later : ∀ q, IsOpen outer q → q < p
  symbol : ∃ x, symbols[p]? = some x ∧ x.level = outer.length ∧ x.stop = none ∧ x.kind.isBlock
  deeper : ∀ j, Deeper symbols outer.length p j

def OpenScopes (symbols : Array Symbol) : List Scope → Prop
  | [] => True
  | scope :: outer =>
    OpenScopes symbols outer ∧ ∀ p, scope.symbol = some p → Innermost symbols outer p

/-- A symbol that lies before `pos`; only packages and routines with a body have an end. -/
structure SymbolPlaced (text : List Char) (pos : Nat) (x : Symbol) : Prop where
  start_lt : x.start < pos
  boundary : Text.IsBoundary text x.start
  level_le : x.level ≤ recordedDepth + 1
  stop : ∀ e, x.stop = some e → x.kind.isBlock ∧ x.start < e ∧ e ≤ pos

/-- How a symbol `y` stands to an earlier one that stops at `e`: inside it or after it, as the levels
between them say. -/
def Apart (symbols : Array Symbol) (level i j e : Nat) (y : Symbol) : Prop :=
  Deeper symbols level i j ∧ y.start < e ∧ (∀ e', y.stop = some e' → e' ≤ e) ∨
    ¬ Deeper symbols level i j ∧ e ≤ y.start

/-- The symbols recorded before `pos` while `scopes` are open. -/
structure Recorded (text : List Char) (pos : Nat) (scopes : List Scope) (symbols : Array Symbol) :
    Prop where
  opened : OpenScopes symbols scopes
  placed : ∀ (i : Nat) (x : Symbol), symbols[i]? = some x → SymbolPlaced text pos x
  ascend : ∀ (i j : Nat) (x y : Symbol), i < j → symbols[i]? = some x → symbols[j]? = some y → x.start < y.start
  rising : ∀ (i : Nat) (x : Symbol), symbols[i]? = some x → x.level ≠ 0 →
    ∃ (j : Nat) (y : Symbol), j + 1 = i ∧ symbols[j]? = some y ∧ x.level ≤ y.level + 1
  nested : ∀ (i j : Nat) (x y : Symbol) (e : Nat), i < j → symbols[i]? = some x →
    symbols[j]? = some y → x.stop = some e → Apart symbols x.level i j e y
  closed : ∀ (i : Nat) (x y : Symbol), symbols[i]? = some x → symbols[i + 1]? = some y → x.level < y.level →
    x.stop.isSome ∨ IsOpen scopes i

section Open
variable {symbols : Array Symbol} {scopes outer : List Scope} {scope : Scope} {i : Nat}

theorem IsOpen.cons (h : IsOpen outer i) : IsOpen (scope :: outer) i := by
  obtain ⟨s, hs, hi⟩ := h
  exact ⟨s, List.mem_cons_of_mem _ hs, hi⟩

theorem isOpen_cons_iff : IsOpen (scope :: outer) i ↔ scope.symbol = some i ∨ IsOpen outer i := by
  simp only [IsOpen, List.mem_cons, exists_eq_or_imp]

theorem OpenScopes.innermost (h : OpenScopes symbols scopes) (hi : IsOpen scopes i) :
    ∃ outer, Innermost symbols outer i := by
  induction scopes with
  | nil =>
    obtain ⟨_, hs, _⟩ := hi
    contradiction
  | cons scope outer ih =>
    rcases isOpen_cons_iff.mp hi with hi | hi
    · exact ⟨outer, h.2 i hi⟩
    · exact ih h.1 hi

theorem OpenScopes.stop_eq_none (h : OpenScopes symbols scopes) (hi : IsOpen scopes i) {x : Symbol}
    (hx : symbols[i]? = some x) : x.stop = none := by
  obtain ⟨outer, hin⟩ := h.innermost hi
  obtain ⟨y, hy, _, hstop, _⟩ := hin.symbol
  rw [hx] at hy
  cases hy
  exact hstop

/-- Recorded scopes are few, since nothing deeper is recorded. -/
theorem OpenScopes.length_le (h : OpenScopes symbols scopes)
    (hall : ∀ scope ∈ scopes, scope.symbol.isSome) : scopes.length ≤ recordedDepth + 1 := by
  cases scopes with
  | nil => exact Nat.zero_le _
  | cons scope outer =>
    obtain ⟨p, hp⟩ := Option.isSome_iff_exists.mp (hall scope List.mem_cons_self)
    have := (h.2 p hp).depth
    rw [List.length_cons]
    omega

theorem OpenScopes.recorded (h : OpenScopes symbols (scope :: outer)) (hs : scope.symbol.isSome) :
    ∀ s ∈ scope :: outer, s.symbol.isSome := by
  obtain ⟨p, hp⟩ := Option.isSome_iff_exists.mp hs
  intro s hmem
  rcases List.mem_cons.mp hmem with rfl | hmem
  · exact hs
  · exact (h.2 p hp).recorded s hmem

/-- A symbol that is not open is as deep as what is pushed next, or an open symbol after it is no
deeper. -/
theorem OpenScopes.not_open (h : OpenScopes symbols scopes)
    (hall : ∀ scope ∈ scopes, scope.symbol.isSome) {x : Symbol} (hx : symbols[i]? = some x)
    (hi : ¬ IsOpen scopes i) :
    scopes.length ≤ x.level ∨
      ∃ k z, i < k ∧ IsOpen scopes k ∧ symbols[k]? = some z ∧ z.level ≤ x.level := by
  induction scopes with
  | nil => exact .inl (Nat.zero_le _)
  | cons scope outer ih =>
    rw [isOpen_cons_iff, not_or] at hi
    obtain ⟨p, hp⟩ := Option.isSome_iff_exists.mp (hall scope List.mem_cons_self)
    have hin := h.2 p hp
    rcases Nat.lt_trichotomy p i with hlt | rfl | hlt
    · have := hin.deeper i i x hlt (Nat.le_refl i) hx
      rw [List.length_cons]
      omega
    · exact absurd hp hi.1
    · right
      rcases ih h.1 (fun s hs => hall s (List.mem_cons_of_mem _ hs)) hi.2 with hle | hk
      · obtain ⟨z, hz, hlevel, _⟩ := hin.symbol
        exact ⟨p, z, hlt, isOpen_cons_iff.mpr (.inl hp), hz, hlevel ▸ hle⟩
      · obtain ⟨k, z, hik, hopen, hz, hle⟩ := hk
        exact ⟨k, z, hik, hopen.cons, hz, hle⟩

/-- What is pushed into the innermost scope is not inside a symbol that is not open. -/
theorem OpenScopes.not_deeper (h : OpenScopes symbols scopes)
    (hall : ∀ scope ∈ scopes, scope.symbol.isSome) {x y : Symbol} (hx : symbols[i]? = some x)
    (hi : ¬ IsOpen scopes i) {symbols' : Array Symbol}
    (hsub : ∀ (k : Nat) (z : Symbol), symbols[k]? = some z → symbols'[k]? = some z) {j : Nat}
    (hij : i < j) (hlater : ∀ k, IsOpen scopes k → k < j) (hy : symbols'[j]? = some y)
    (hlevel : y.level = scopes.length) : ¬ Deeper symbols' x.level i j := by
  intro hdeep
  rcases h.not_open hall hx hi with hle | ⟨k, z, hik, hk, hz, hle⟩
  · have := hdeep j y hij (Nat.le_refl j) hy
    omega
  · have := hdeep k z hik (Nat.le_of_lt (hlater k hk)) (hsub k z hz)
    omega

theorem OpenScopes.lt_size (h : OpenScopes symbols scopes) (hi : IsOpen scopes i) :
    i < symbols.size := by
  obtain ⟨outer, hin⟩ := h.innermost hi
  obtain ⟨y, hy, _⟩ := hin.symbol
  exact (Array.getElem?_eq_some_iff.mp hy).1

/-- The last symbol is that of the innermost scope or lies inside it. -/
theorem Innermost.last {p : Nat} (h : Innermost symbols outer p) :
    ∃ (j : Nat) (y : Symbol), j + 1 = symbols.size ∧ symbols[j]? = some y ∧ outer.length ≤ y.level := by
  obtain ⟨q, hq, hlevel, _⟩ := h.symbol
  have hp := (Array.getElem?_eq_some_iff.mp hq).1
  have hlast : symbols.size - 1 < symbols.size := by omega
  rcases Nat.lt_or_ge p (symbols.size - 1) with hlt | hge
  · refine ⟨symbols.size - 1, symbols[symbols.size - 1], by omega, Array.getElem?_eq_getElem hlast, ?_⟩
    exact Nat.le_of_lt (h.deeper _ _ _ hlt (Nat.le_refl _) (Array.getElem?_eq_getElem hlast))
  · exact ⟨p, q, by omega, hq, Nat.le_of_eq hlevel.symm⟩

end Open

section Push
variable {text : List Char} {pos pos' : Nat} {scopes : List Scope} {symbols : Array Symbol}
  {x : Symbol}

theorem getElem?_push_cases {i : Nat} {y : Symbol} (h : (symbols.push x)[i]? = some y) :
    symbols[i]? = some y ∧ i < symbols.size ∨ i = symbols.size ∧ y = x := by
  rw [Array.getElem?_push] at h
  split at h
  · cases h
    exact .inr ⟨‹_›, rfl⟩
  · exact .inl ⟨h, (Array.getElem?_eq_some_iff.mp h).1⟩

theorem getElem?_push_of_some {i : Nat} {y : Symbol} (h : symbols[i]? = some y) :
    (symbols.push x)[i]? = some y := by
  have hlt := (Array.getElem?_eq_some_iff.mp h).1
  rw [Array.getElem?_push, if_neg (Nat.ne_of_lt hlt), h]

theorem deeper_push {level i j : Nat} (hj : j < symbols.size) :
    Deeper (symbols.push x) level i j ↔ Deeper symbols level i j := by
  constructor
  · intro h k z hik hkj hz
    exact h k z hik hkj (getElem?_push_of_some hz)
  · intro h k z hik hkj hz
    rcases getElem?_push_cases hz with ⟨hz, _⟩ | ⟨rfl, _⟩
    · exact h k z hik hkj hz
    · omega

theorem OpenScopes.push (h : OpenScopes symbols scopes) (hx : scopes.length ≤ x.level) :
    OpenScopes (symbols.push x) scopes := by
  induction scopes with
  | nil => trivial
  | cons scope outer ih =>
    rw [List.length_cons] at hx
    refine ⟨ih h.1 (by omega), fun p hp => ?_⟩
    have hin := h.2 p hp
    obtain ⟨y, hy, hsymbol⟩ := hin.symbol
    refine ⟨hin.recorded, hin.depth, hin.later, ⟨y, getElem?_push_of_some hy, hsymbol⟩, ?_⟩
    intro j k z hpk hkj hz
    rcases getElem?_push_cases hz with ⟨hz, _⟩ | ⟨_, rfl⟩
    · exact hin.deeper j k z hpk hkj hz
    · omega

theorem SymbolPlaced.mono (h : SymbolPlaced text pos x) (hpos : pos ≤ pos') :
    SymbolPlaced text pos' x := by
  refine ⟨Nat.lt_of_lt_of_le h.start_lt hpos, h.boundary, h.level_le, fun e he => ?_⟩
  obtain ⟨hk, hlt, hle⟩ := h.stop e he
  exact ⟨hk, hlt, Nat.le_trans hle hpos⟩

theorem Recorded.mono (h : Recorded text pos scopes symbols) (hpos : pos ≤ pos') :
    Recorded text pos' scopes symbols :=
  { h with placed := fun i x hx => (h.placed i x hx).mono hpos }

/-- A symbol pushed at or after `pos`, inside the innermost scope. -/
theorem Recorded.push (h : Recorded text pos scopes symbols)
    (hall : ∀ scope ∈ scopes, scope.symbol.isSome) (hlevel : x.level = scopes.length)
    (hstop : x.stop = none) (hstart : pos ≤ x.start) (hb : Text.IsBoundary text x.start)
    (hpos : x.start < pos') : Recorded text pos' scopes (symbols.push x) where
  opened := h.opened.push (Nat.le_of_eq hlevel.symm)
  placed := by
    intro i y hy
    rcases getElem?_push_cases hy with ⟨hy, _⟩ | ⟨_, rfl⟩
    · exact (h.placed i y hy).mono (by omega)
    · refine ⟨hpos, hb, hlevel ▸ h.opened.length_le hall, fun e he => ?_⟩
      rw [hstop] at he
      contradiction
  ascend := by
    intro i j y z hij hy hz
    rcases getElem?_push_cases hy with ⟨hy', hi⟩ | ⟨rfl, rfl⟩
    · rcases getElem?_push_cases hz with ⟨hz, _⟩ | ⟨_, rfl⟩
      · exact h.ascend i j y z hij hy' hz
      · exact Nat.lt_of_lt_of_le (h.placed i y hy').start_lt hstart
    · rcases getElem?_push_cases hz with ⟨_, hj⟩ | ⟨rfl, _⟩ <;> omega
  rising := by
    intro i y hy hne
    rcases getElem?_push_cases hy with ⟨hy, _⟩ | ⟨rfl, rfl⟩
    · obtain ⟨j, z, hj, hz, hle⟩ := h.rising i y hy hne
      exact ⟨j, z, hj, getElem?_push_of_some hz, hle⟩
    · cases scopes with
      | nil => exact absurd hlevel hne
      | cons scope outer =>
        obtain ⟨p, hp⟩ := Option.isSome_iff_exists.mp (hall scope List.mem_cons_self)
        obtain ⟨j, z, hj, hz, hle⟩ := (h.opened.2 p hp).last
        refine ⟨j, z, hj, getElem?_push_of_some hz, ?_⟩
        rw [hlevel, List.length_cons, Nat.add_le_add_iff_right]
        exact hle
  nested := by
    intro i j y z e hij hy hz he
    rcases getElem?_push_cases hz with ⟨hz, hj⟩ | ⟨rfl, rfl⟩
    · rcases getElem?_push_cases hy with ⟨hy, _⟩ | ⟨rfl, _⟩
      · rw [Apart, deeper_push hj]
        exact h.nested i j y z e hij hy hz he
      · omega
    · rcases getElem?_push_cases hy with ⟨hy, _⟩ | ⟨rfl, _⟩
      · have hopen : ¬ IsOpen scopes i := by
          intro hopen
          rw [h.opened.stop_eq_none hopen hy] at he
          contradiction
        refine .inr ⟨?_, Nat.le_trans ((h.placed i y hy).stop e he).2.2 hstart⟩
        exact h.opened.not_deeper hall hy hopen (fun _ _ => getElem?_push_of_some) hij
          (fun _ => h.opened.lt_size) hz hlevel
      · omega
  closed := by
    intro i y z hy hz hlt
    rcases getElem?_push_cases hy with ⟨hy', hi⟩ | ⟨rfl, _⟩
    · rcases getElem?_push_cases hz with ⟨hz, _⟩ | ⟨hi', rfl⟩
      · exact h.closed i y z hy' hz hlt
      · by_cases hopen : IsOpen scopes i
        · exact .inr hopen
        · rcases h.opened.not_open hall hy' hopen with hle | ⟨k, w, hik, _, hw, _⟩
          · omega
          · have hk := (Array.getElem?_eq_some_iff.mp hw).1
            omega
    · rcases getElem?_push_cases hz with ⟨_, hi⟩ | ⟨hi, _⟩ <;> omega

end Push

section Close
variable {text : List Char} {pos e : Nat} {scope : Scope} {scopes outer : List Scope}
  {symbols : Array Symbol} {p : Nat}

def stopped (symbols : Array Symbol) (p e : Nat) : Array Symbol :=
  symbols.modify p fun x => { x with stop := some e }

theorem getElem?_stopped_of_ne {i : Nat} (hi : i ≠ p) : (stopped symbols p e)[i]? = symbols[i]? := by
  rw [stopped, Array.getElem?_modify, if_neg (Ne.symm hi)]

theorem getElem?_stopped {i : Nat} {y : Symbol} (h : (stopped symbols p e)[i]? = some y) :
    ∃ x, symbols[i]? = some x ∧ y = { x with stop := if i = p then some e else x.stop } := by
  by_cases hi : i = p
  · subst hi
    rw [stopped, Array.getElem?_modify, if_pos rfl] at h
    obtain ⟨x, hx, rfl⟩ := Option.map_eq_some_iff.mp h
    exact ⟨x, hx, by rw [if_pos rfl]⟩
  · rw [getElem?_stopped_of_ne hi] at h
    exact ⟨y, h, by rw [if_neg hi]⟩

theorem exists_getElem?_stopped {i : Nat} {x : Symbol} (h : symbols[i]? = some x) :
    ∃ y, (stopped symbols p e)[i]? = some y ∧ y.level = x.level := by
  by_cases hi : i = p
  · subst hi
    refine ⟨{ x with stop := some e }, ?_, rfl⟩
    rw [stopped, Array.getElem?_modify, if_pos rfl, h, Option.map_some]
  · exact ⟨x, by rw [getElem?_stopped_of_ne hi, h], rfl⟩

theorem deeper_stopped {level i j : Nat} :
    Deeper (stopped symbols p e) level i j ↔ Deeper symbols level i j := by
  constructor
  · intro h k z hik hkj hz
    obtain ⟨y, hy, hlevel⟩ := exists_getElem?_stopped (p := p) (e := e) hz
    exact hlevel ▸ h k y hik hkj hy
  · intro h k z hik hkj hz
    obtain ⟨x, hx, rfl⟩ := getElem?_stopped hz
    exact h k x hik hkj hx

theorem OpenScopes.stopped (h : OpenScopes symbols scopes) (hp : ¬ IsOpen scopes p) :
    OpenScopes (stopped symbols p e) scopes := by
  induction scopes with
  | nil => trivial
  | cons scope outer ih =>
    rw [isOpen_cons_iff, not_or] at hp
    refine ⟨ih h.1 hp.2, fun q hq => ?_⟩
    have hin := h.2 q hq
    have hne : q ≠ p := fun hqp => hp.1 (hqp ▸ hq)
    obtain ⟨x, hx, hsymbol⟩ := hin.symbol
    exact ⟨hin.recorded, hin.depth, hin.later, ⟨x, by rw [getElem?_stopped_of_ne hne, hx], hsymbol⟩,
      fun j => deeper_stopped.mpr (hin.deeper j)⟩

section Innermost
variable (h : Recorded text pos (scope :: outer) symbols) (hp : scope.symbol = some p) (he : pos ≤ e)
include h hp he

theorem Recorded.placed_stopped {i : Nat} {y : Symbol} (hy : (stopped symbols p e)[i]? = some y) :
    SymbolPlaced text e y := by
  obtain ⟨x, hx, rfl⟩ := getElem?_stopped hy
  obtain ⟨q, hq, _, _, hqblock⟩ := (h.opened.2 p hp).symbol
  have hplaced := h.placed i x hx
  refine ⟨Nat.lt_of_lt_of_le hplaced.start_lt he, hplaced.boundary, hplaced.level_le, ?_⟩
  intro e' he'
  by_cases hi : i = p
  · subst hi
    rw [hq] at hx
    cases hx
    rw [if_pos rfl] at he'
    cases he'
    exact ⟨hqblock, Nat.lt_of_lt_of_le hplaced.start_lt he, Nat.le_refl e⟩
  · rw [if_neg hi] at he'
    obtain ⟨hk, hlt, hle⟩ := hplaced.stop e' he'
    exact ⟨hk, hlt, Nat.le_trans hle he⟩

/-- All that follows the symbol of the closing scope lies inside it. -/
theorem Recorded.apart_closing {j : Nat} {x w : Symbol} (hx : symbols[p]? = some x)
    (hw : symbols[j]? = some w) : Deeper symbols x.level p j ∧ w.start < e ∧
      ∀ e', w.stop = some e' → e' ≤ e := by
  have hin := h.opened.2 p hp
  obtain ⟨q, hq, hqlevel, _⟩ := hin.symbol
  rw [hq] at hx
  cases hx
  have hplaced := h.placed j w hw
  refine ⟨hqlevel ▸ hin.deeper j, Nat.lt_of_lt_of_le hplaced.start_lt he, fun e' he' => ?_⟩
  exact Nat.le_trans (hplaced.stop e' he').2.2 he

omit he in
/-- A symbol that has stopped cannot hold one that is still open. -/
theorem Recorded.not_deeper_closing {i e' : Nat} {x : Symbol} (hip : i < p)
    (hx : symbols[i]? = some x) (hstop : x.stop = some e') : ¬ Deeper symbols x.level i p := by
  have hin := h.opened.2 p hp
  obtain ⟨q, hq, hqlevel, _⟩ := hin.symbol
  have hopen : ¬ IsOpen outer i := by
    intro ho
    rw [h.opened.1.stop_eq_none ho hx] at hstop
    contradiction
  exact h.opened.1.not_deeper hin.recorded hx hopen (fun _ _ hz => hz) hip hin.later hq hqlevel

theorem Recorded.apart_stopped {i j e' : Nat} {y z : Symbol} (hij : i < j)
    (hy : (stopped symbols p e)[i]? = some y) (hz : (stopped symbols p e)[j]? = some z)
    (he' : y.stop = some e') : Apart (stopped symbols p e) y.level i j e' z := by
  obtain ⟨x, hx, rfl⟩ := getElem?_stopped hy
  obtain ⟨w, hw, rfl⟩ := getElem?_stopped hz
  rw [Apart, deeper_stopped]
  by_cases hi : i = p
  · subst hi
    rw [if_pos rfl] at he'
    cases he'
    obtain ⟨hdeep, hstart, hstop⟩ := h.apart_closing hp he hx hw
    refine .inl ⟨hdeep, hstart, fun e'' he'' => ?_⟩
    rw [if_neg (Nat.ne_of_gt hij)] at he''
    exact hstop e'' he''
  · rw [if_neg hi] at he'
    rcases h.nested i j x w e' hij hx hw he' with ⟨hdeep, hstart, hstop⟩ | hafter
    · by_cases hj : j = p
      · subst hj
        exact absurd hdeep (h.not_deeper_closing hp hij hx he')
      · refine .inl ⟨hdeep, hstart, fun e'' he'' => ?_⟩
        rw [if_neg hj] at he''
        exact hstop e'' he''
    · exact .inr hafter

/-- The innermost scope closes behind all that was recorded. -/
theorem Recorded.close : Recorded text e outer (stopped symbols p e) where
  opened := h.opened.1.stopped fun ho => Nat.lt_irrefl p ((h.opened.2 p hp).later p ho)
  placed := fun _ _ hy => h.placed_stopped hp he hy
  ascend := by
    intro i j y z hij hy hz
    obtain ⟨x, hx, rfl⟩ := getElem?_stopped hy
    obtain ⟨w, hw, rfl⟩ := getElem?_stopped hz
    exact h.ascend i j x w hij hx hw
  rising := by
    intro i y hy hne
    obtain ⟨x, hx, rfl⟩ := getElem?_stopped hy
    obtain ⟨j, w, hj, hw, hle⟩ := h.rising i x hx hne
    obtain ⟨z, hz, hzlevel⟩ := exists_getElem?_stopped (p := p) (e := e) hw
    exact ⟨j, z, hj, hz, hzlevel ▸ hle⟩
  nested := fun _ _ _ _ _ hij hy hz he' => h.apart_stopped hp he hij hy hz he'
  closed := by
    intro i y z hy hz hlt
    obtain ⟨x, hx, rfl⟩ := getElem?_stopped hy
    obtain ⟨w, hw, rfl⟩ := getElem?_stopped hz
    by_cases hi : i = p
    · left
      rw [if_pos hi]
      rfl
    · rw [if_neg hi]
      rcases h.closed i x w hx hw hlt with hstop | ho
      · exact .inl hstop
      · rcases isOpen_cons_iff.mp ho with ho | ho
        · rw [hp] at ho
          exact absurd (Option.some.inj ho).symm hi
        · exact .inr ho

end Innermost

end Close

section Opened
variable {text : List Char} {pos pos' : Nat} {scopes : List Scope} {symbols : Array Symbol}
  {x : Symbol}

theorem Recorded.enterSilently (h : Recorded text pos scopes symbols) (flavour : Flavour) :
    Recorded text pos (⟨flavour, none⟩ :: scopes) symbols :=
  { h with
    opened := ⟨h.opened, fun p hp => by contradiction⟩
    closed := fun i x y hx hy hlt => (h.closed i x y hx hy hlt).imp_right IsOpen.cons }

/-- A scope opens with the symbol that was pushed last. -/
theorem Recorded.enter (h : Recorded text pos scopes symbols) (flavour : Flavour)
    (hall : ∀ scope ∈ scopes, scope.symbol.isSome) (hdepth : scopes.length ≤ recordedDepth)
    (hlevel : x.level = scopes.length) (hstop : x.stop = none) (hblock : x.kind.isBlock)
    (hstart : pos ≤ x.start) (hb : Text.IsBoundary text x.start) (hpos : x.start < pos') :
    Recorded text pos' (⟨flavour, some symbols.size⟩ :: scopes) (symbols.push x) := by
  have hpush := h.push hall hlevel hstop hstart hb hpos
  refine { hpush with opened := ⟨hpush.opened, ?_⟩, closed := ?_ }
  · intro p hp
    cases hp
    refine ⟨hall, hdepth, ?_, ⟨x, ?_, hlevel, hstop, hblock⟩, ?_⟩
    · exact fun q => h.opened.lt_size
    · rw [Array.getElem?_push, if_pos rfl]
    · intro j k z hlt _ hz
      have := (Array.getElem?_eq_some_iff.mp hz).1
      rw [Array.size_push] at this
      omega
  · intro i y z hy hz hlt
    exact (hpush.closed i y z hy hz hlt).imp_right IsOpen.cons

end Opened

end PlsqlNav.Scan
