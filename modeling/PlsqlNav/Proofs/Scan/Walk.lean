import PlsqlNav.Proofs.Scan.Action
import PlsqlNav.Proofs.Scan.Sound

/-! Walking over a package or routine without recording it. The walk reads the same tokens and reports
the same issues as one that records, and leaves the symbols as they are. -/
namespace PlsqlNav.Scan

/-- Two scans that stand at the same tokens in scopes of the same flavours, and have reported the same.
What they have recorded may differ. -/
structure SameWalk (s s' : Scan) : Prop where
  rest : s.rest = s'.rest
  afterDollar : s.afterDollar = s'.afterDollar
  flavours : s.scopes.map Scope.flavour = s'.scopes.map Scope.flavour
  issues : s.issues = s'.issues

variable {text : List Char} {s s' : Scan} {scope scope' : Scope} {outer outer' : List Scope}

namespace SameWalk

theorem refl (s : Scan) : SameWalk s s := ⟨rfl, rfl, rfl, rfl⟩

theorem length (h : SameWalk s s') : s.scopes.length = s'.scopes.length := by
  have hlength := congrArg List.length h.flavours
  rwa [List.length_map, List.length_map] at hlength

theorem isEmpty (h : SameWalk s s') : s.scopes.isEmpty = s'.scopes.isEmpty := by
  rw [← List.isEmpty_map (f := Scope.flavour), h.flavours, List.isEmpty_map]

theorem isDone (h : SameWalk s s') : s.isDone = s'.isDone := by
  rw [Scan.isDone, Scan.isDone, h.rest, h.isEmpty]

theorem size (h : SameWalk s s') : s.size = s'.size := by
  rw [Scan.size, Scan.size, h.rest, h.length]

theorem action (h : SameWalk s s') : s.action = s'.action := by
  rw [Scan.action, Scan.action, h.rest, h.afterDollar, h.flavours]

theorem goOn (h : SameWalk s s') (ts : List Token) (d : Bool) : SameWalk (s.goOn ts d) (s'.goOn ts d) :=
  ⟨rfl, rfl, h.flavours, h.issues⟩

theorem report (h : SameWalk s s') (kind : Issue.Kind) (n : Nat) :
    SameWalk (s.report kind n) (s'.report kind n) :=
  ⟨h.rest, h.afterDollar, h.flavours, congrArg (·.push ⟨n, kind⟩) h.issues⟩

theorem record (h : SameWalk s s') (recording recording' : Bool) (x x' : Symbol) :
    SameWalk (s.record recording x) (s'.record recording' x') := by
  cases recording <;> cases recording' <;> exact ⟨h.rest, h.afterDollar, h.flavours, h.issues⟩

theorem setStop (h : SameWalk s s') (symbol symbol' : Option Nat) (n : Nat) :
    SameWalk (s.setStop symbol n) (s'.setStop symbol' n) := by
  cases symbol <;> cases symbol' <;> exact ⟨h.rest, h.afterDollar, h.flavours, h.issues⟩

theorem leave (h : SameWalk s s') (scope scope' : Scope)
    (houter : outer.map Scope.flavour = outer'.map Scope.flavour) (n : Nat) :
    SameWalk (s.leave scope outer n) (s'.leave scope' outer' n) := by
  have hstop := h.setStop scope.symbol scope'.symbol n
  exact ⟨hstop.rest, hstop.afterDollar, houter, hstop.issues⟩

/-- A header is read alike, whether it leaves a symbol or not. -/
theorem enter (h : SameWalk s s') (recording recording' : Bool) (hd : Header) :
    SameWalk (s.enter text recording hd) (s'.enter text recording' hd) := by
  have hrecord (x x' : Symbol) := h.record recording recording' x x'
  cases he : Header.findEnd 0 false hd.rest with
  | semicolon us =>
    rw [enter_of_semicolon he, enter_of_semicolon he]
    exact (hrecord _ _).goOn _ _
  | cut us d =>
    rw [enter_of_cut he, enter_of_cut he, h.isEmpty]
    split
    · exact (hrecord _ _).goOn _ _
    · exact ((hrecord _ _).goOn _ _).report _ _
  | body us =>
    rw [enter_of_body he, enter_of_body he]
    split
    · exact ((hrecord _ _).setStop _ _ _).goOn _ _
    · exact ⟨rfl, rfl, congrArg (_ :: ·) h.flavours, (hrecord _ _).issues⟩

theorem scopes_cases (h : SameWalk s s') : s.scopes = [] ∧ s'.scopes = [] ∨
    ∃ scope outer scope' outer', s.scopes = scope :: outer ∧ s'.scopes = scope' :: outer' ∧
      outer.map Scope.flavour = outer'.map Scope.flavour := by
  have hflavours := h.flavours
  cases hs : s.scopes with
  | nil =>
    rw [hs, List.map_nil] at hflavours
    exact .inl ⟨rfl, List.map_eq_nil_iff.mp hflavours.symm⟩
  | cons scope outer =>
    rw [hs, List.map_cons] at hflavours
    obtain ⟨scope', outer', hs', _, houter⟩ := List.map_eq_cons_iff.mp hflavours.symm
    exact .inr ⟨scope, outer, scope', outer', rfl, hs', houter.symm⟩

theorem perform (h : SameWalk s s') (recording recording' : Bool) (a : Action) :
    SameWalk (s.perform text recording a) (s'.perform text recording' a) := by
  cases a with
  | pass rest d => exact h.goOn rest d
  | stepOver first rest => exact (h.report _ _).goOn _ _
  | enter hd => exact h.enter recording recording' hd
  | declare first kind name rest =>
    rw [Scan.perform, Scan.perform]
    obtain ⟨hs, hs'⟩ | ⟨scope, outer, scope', outer', hs, hs', _⟩ := h.scopes_cases
    · rw [hs, hs']
      exact h
    · rw [hs, hs']
      exact (h.record _ _ _ _).goOn _ _
  | close extent =>
    rw [Scan.perform, Scan.perform]
    obtain ⟨hs, hs'⟩ | ⟨scope, outer, scope', outer', hs, hs', houter⟩ := h.scopes_cases
    · rw [hs, hs']
      exact h
    · rw [hs, hs']
      cases extent with
      | none => exact ((h.leave scope scope' houter _).goOn _ _).report _ _
      | some e => exact (h.leave scope scope' houter _).goOn _ _
  | breakOff =>
    rw [Scan.perform, Scan.perform, h.rest]
    obtain ⟨hs, hs'⟩ | ⟨scope, outer, scope', outer', hs, hs', houter⟩ := h.scopes_cases
    · rw [hs, hs']
      exact h
    · rw [hs, hs']
      exact (h.leave scope scope' houter _).report _ _

theorem step (h : SameWalk s s') : SameWalk (s.step text) (s'.step text) := by
  rw [step_eq_perform, step_eq_perform, h.action]
  exact h.perform _ _ _

end SameWalk

/-- Steps until no more than `depth` scopes are open. -/
def closeTo (text : List Char) (depth : Nat) (s : Scan) : Scan :=
  if h : s.scopes.length ≤ depth then s
  else
    have hgoes : ¬ s.isDone := by
      intro hdone
      rw [isDone, Bool.and_eq_true, List.isEmpty_iff, List.isEmpty_iff] at hdone
      rw [hdone.2] at h
      exact h (Nat.zero_le depth)
    have : (s.step text).size < s.size := step_size hgoes
    closeTo text depth (s.step text)
termination_by s.size

/-- Reads one package or routine behind its header, with all that is nested in it. -/
def block (text : List Char) (recording : Bool) (h : Header) (s : Scan) : Scan :=
  (s.enter text recording h).closeTo text s.scopes.length

theorem SameWalk.closeTo (h : SameWalk s s') (depth : Nat) :
    SameWalk (s.closeTo text depth) (s'.closeTo text depth) := by
  fun_induction Scan.closeTo text depth s generalizing s' with
  | case1 s hclosed =>
    rw [Scan.closeTo, dif_pos (h.length ▸ hclosed)]
    exact h
  | case2 s hopen _ _ ih =>
    rw [Scan.closeTo.eq_def text depth s', dif_neg (h.length ▸ hopen)]
    exact ih h.step

theorem run_closeTo (depth : Nat) : (s.closeTo text depth).run text = s.run text := by
  fun_induction closeTo text depth s with
  | case1 => rfl
  | case2 s _ hgoes _ ih => rw [ih, run_notDone hgoes]

/-- A block is a part of the run that enters it. -/
theorem run_block (text : List Char) (recording : Bool) (hd : Header) (s : Scan) :
    (s.block text recording hd).run text = (s.enter text recording hd).run text := run_closeTo _

theorem closeTo_length_le (text : List Char) (depth : Nat) (s : Scan) :
    (s.closeTo text depth).scopes.length ≤ depth := by
  fun_induction closeTo text depth s with
  | case1 s hclosed => exact hclosed
  | case2 s _ _ _ ih => exact ih

theorem closeTo_keeps {P : Scan → Prop} {depth : Nat}
    (hstep : ∀ {s : Scan}, depth < s.scopes.length → P s → P (s.step text)) (h : P s) :
    P (s.closeTo text depth) := by
  fun_induction closeTo text depth s with
  | case1 => exact h
  | case2 s hopen _ _ ih => exact ih (hstep (Nat.lt_of_not_le hopen) h)

theorem enter_scopes (text : List Char) (recording : Bool) (hd : Header) (s : Scan) :
    (s.enter text recording hd).scopes = s.scopes ∨
      ∃ flavour, (s.enter text recording hd).scopes =
        ⟨flavour, if recording then some s.symbols.size else none⟩ :: s.scopes := by
  cases he : Header.findEnd 0 false hd.rest with
  | semicolon us =>
    rw [enter_of_semicolon he]
    exact .inl (record_scopes _ _ _)
  | cut us d =>
    rw [enter_of_cut he]
    split
    · exact .inl (record_scopes _ _ _)
    · exact .inl (record_scopes _ _ _)
  | body us =>
    rw [enter_of_body he]
    split
    · exact .inl ((setStop_scopes _ _ _).trans (record_scopes _ _ _))
    · exact .inr ⟨_, rfl⟩

/-- A step closes the innermost scope, leaves the scopes as they are, or opens one. -/
theorem perform_scopes (text : List Char) (recording : Bool) (s : Scan) (a : Action) :
    (s.perform text recording a).scopes = s.scopes.tail ∨
      (s.perform text recording a).scopes = s.scopes ∨
      ∃ flavour, (s.perform text recording a).scopes =
        ⟨flavour, if recording then some s.symbols.size else none⟩ :: s.scopes := by
  cases a with
  | pass rest d => exact .inr (.inl rfl)
  | stepOver first rest => exact .inr (.inl rfl)
  | enter hd => exact .inr (enter_scopes text recording hd s)
  | declare first kind name rest =>
    rw [perform]
    split
    · exact .inr (.inl rfl)
    · exact .inr (.inl (record_scopes _ _ _))
  | close extent =>
    rw [perform]
    split
    · exact .inr (.inl rfl)
    · next hs =>
      rw [hs]
      cases extent <;> exact .inl rfl
  | breakOff =>
    rw [perform]
    split
    · exact .inr (.inl rfl)
    · next hs =>
      rw [hs]
      exact .inl rfl

/-- Scopes that stand over `outer`, all of them with the property `P`. -/
def Over (P : Scope → Prop) (outer scopes : List Scope) : Prop :=
  ∃ inner, scopes = inner ++ outer ∧ ∀ x ∈ inner, P x

section Over
variable {P : Scope → Prop} {scopes : List Scope} {recording : Bool}

theorem Over.refl (outer : List Scope) : Over P outer outer :=
  ⟨[], rfl, fun _ hx => absurd hx List.not_mem_nil⟩

theorem Over.cons (h : Over P outer scopes) (hscope : P scope) : Over P outer (scope :: scopes) := by
  obtain ⟨inner, rfl, hinner⟩ := h
  exact ⟨scope :: inner, rfl, List.forall_mem_cons.mpr ⟨hscope, hinner⟩⟩

theorem Over.exists_cons (h : Over P outer scopes) (hdeep : outer.length < scopes.length) :
    ∃ scope rest, scopes = scope :: rest ∧ P scope ∧ Over P outer rest := by
  obtain ⟨inner, rfl, hinner⟩ := h
  cases inner with
  | nil => exact absurd hdeep (Nat.lt_irrefl _)
  | cons scope inner =>
    obtain ⟨hscope, hinner⟩ := List.forall_mem_cons.mp hinner
    exact ⟨scope, inner ++ outer, rfl, hscope, inner, rfl, hinner⟩

theorem Over.eq_of_length_le (h : Over P outer scopes) (hle : scopes.length ≤ outer.length) :
    scopes = outer := by
  obtain ⟨inner, rfl, _⟩ := h
  rw [List.length_append] at hle
  rw [List.eq_nil_of_length_eq_zero (l := inner) (by omega), List.nil_append]

theorem enter_over (hd : Header)
    (hP : ∀ flavour, P ⟨flavour, if recording then some s.symbols.size else none⟩) :
    Over P s.scopes (s.enter text recording hd).scopes := by
  obtain hsame | ⟨flavour, hopened⟩ := enter_scopes text recording hd s
  · exact hsame ▸ .refl _
  · exact hopened ▸ (Over.refl _).cons (hP flavour)

theorem perform_over (h : Over P outer s.scopes) (hdeep : outer.length < s.scopes.length) (a : Action)
    (hP : ∀ flavour, P ⟨flavour, if recording then some s.symbols.size else none⟩) :
    Over P outer (s.perform text recording a).scopes := by
  obtain hclosed | hsame | ⟨flavour, hopened⟩ := perform_scopes text recording s a
  · obtain ⟨scope, rest, hs, _, hrest⟩ := h.exists_cons hdeep
    rw [hclosed, hs]
    exact hrest
  · exact hsame ▸ h
  · exact hopened ▸ h.cons (hP flavour)

end Over

/-- Behind a block, the scopes around it are open. -/
theorem block_scopes (text : List Char) (recording : Bool) (hd : Header) (s : Scan) :
    (s.block text recording hd).scopes = s.scopes := by
  have hover : Over (fun _ => True) s.scopes (s.block text recording hd).scopes := by
    refine closeTo_keeps (P := fun s' => Over _ s.scopes s'.scopes) (fun hdeep h => ?_)
      (enter_over hd fun _ => trivial)
    rw [step_eq_perform]
    exact perform_over h hdeep _ fun _ => trivial
  exact hover.eq_of_length_le (closeTo_length_le text _ _)

theorem enter_silent_symbols (text : List Char) (hd : Header) (s : Scan) :
    (s.enter text false hd).symbols = s.symbols := by
  cases he : Header.findEnd 0 false hd.rest with
  | semicolon us => rw [enter_of_semicolon he]; rfl
  | cut us d => rw [enter_of_cut he]; split <;> rfl
  | body us => rw [enter_of_body he]; split <;> rfl

/-- In a scope that is not recorded, no symbol is pushed or stopped. -/
theorem perform_silent_symbols (hs : s.scopes = scope :: outer) (hscope : scope.symbol = none)
    (a : Action) : (s.perform text false a).symbols = s.symbols := by
  cases a with
  | pass rest d => rfl
  | stepOver first rest => rfl
  | enter hd => exact enter_silent_symbols text hd s
  | declare first kind name rest =>
    simp only [perform, hs, Scan.declare, hscope]
    rfl
  | close extent =>
    simp only [perform, hs]
    cases extent with
    | none => simp only [leaveAt, Scan.leave, hscope]; rfl
    | some e => simp only [leaveAt, Scan.leave, hscope]; rfl
  | breakOff =>
    simp only [perform, hs, Scan.leave, hscope]
    rfl

/-- A block that is walked without recording leaves no trace in the symbols. -/
theorem block_silent_symbols (text : List Char) (hd : Header) (s : Scan) :
    (s.block text false hd).symbols = s.symbols := by
  -- All that a silent walk has opened is silent too.
  let Silent (s' : Scan) : Prop :=
    s'.symbols = s.symbols ∧ Over (fun x => x.symbol = none) s.scopes s'.scopes
  have hsilent : Silent (s.block text false hd) := by
    refine closeTo_keeps (fun {s'} hdeep h => ?_)
      ⟨enter_silent_symbols text hd s, enter_over hd fun _ => rfl⟩
    obtain ⟨scope, rest, hs, hscope, _⟩ := h.2.exists_cons hdeep
    have hrecords : s'.records (some recordedDepth) = false := by
      simp only [records, hs, hscope]
      rfl
    rw [step_eq_perform, hrecords]
    exact ⟨(perform_silent_symbols hs hscope _).trans h.1, perform_over h.2 hdeep _ fun _ => rfl⟩
  exact hsilent.1

/-- Whether it is recorded or not, a block is walked to the same token with the same issues. -/
theorem block_sameWalk (text : List Char) (recording recording' : Bool) (hd : Header) (s : Scan) :
    SameWalk (s.block text recording hd) (s.block text recording' hd) :=
  ((SameWalk.refl s).enter recording recording' hd).closeTo _

end PlsqlNav.Scan
