import PlsqlNav.Proofs.Scan.Sound

/-! Packages and routines and the headers that they were read from. What is recorded later starts behind
the header; just those with a body have a scope. -/
namespace PlsqlNav

/-- The header is followed by a body. -/
def Header.HasBody (h : Header) : Prop := ∃ ts, findEnd 0 false h.rest = .body ts

namespace Symbol

/-- The header at the start of the symbol. -/
def header? (ts : List Token) (x : Symbol) : Option Header :=
  Header.ofUnit? (ts.dropWhile (·.start < x.start))

/-- Units, which no declaration encloses, and nested routines have headers. -/
def HasHeader (x : Symbol) : Prop := x.level = 0 ∨ x.kind.hasCounterpart

structure HeadedBy (ts : List Token) (x : Symbol) (h : Header) : Prop where
  read : x.header? ts = some h
  name : x.name = h.name
  kind : x.level = 0 → x.kind = h.kind

end Symbol

namespace Token

/-- The tokens from the start of one of them on. -/
theorem Laid.dropWhile_start {lo hi : Nat} {t : Token} {ts us : List Token} (h : Laid lo hi ts)
    (ht : t :: us <:+ ts) : ts.dropWhile (·.start < t.start) = t :: us := by
  obtain ⟨front, rfl⟩ := ht
  induction front generalizing lo with
  | nil => exact List.dropWhile_cons_of_neg (by simp)
  | cons u front ih =>
    have hlater : u.stop ≤ t.start := (h.2.2.suffix (List.suffix_append front (t :: us))).1
    have hbefore : u.start < t.start := Nat.lt_of_lt_of_le h.2.1 hlater
    rw [List.cons_append, List.dropWhile_cons, if_pos (decide_eq_true hbefore)]
    exact ih h.tail

end Token

theorem Symbol.header?_eq {lo hi : Nat} {ts us : List Token} {h : Header} {x : Symbol}
    (hlaid : Token.Laid lo hi ts) (hus : us <:+ ts) (hread : Header.ofUnit? us = some h)
    (hstart : x.start = h.first.start) : x.header? ts = some h := by
  obtain ⟨_, after, rfl, _⟩ := Header.ofUnit?_eq_some hread
  rw [header?, hstart, hlaid.dropWhile_start hus, hread]

namespace Scan

variable {text : List Char} {ts rest us : List Token} {t : Token} {scopes : List Scope}
  {symbols : Array Symbol} {x : Symbol} {s s' : Scan} {scope : Scope} {outer : List Scope}

/-- The symbol `x`, in place `i`, has been read from the header `h`. -/
structure HeaderRead (ts rest : List Token) (scopes : List Scope) (symbols : Array Symbol) (i : Nat)
    (x : Symbol) (h : Header) : Prop where
  headed : x.HeadedBy ts h
  behind : rest <:+ h.rest
  later : ∀ (j : Nat) (y : Symbol), i < j → symbols[j]? = some y →
    ∃ u us, u :: us <:+ h.rest ∧ y.start = u.start
  scope : x.stop.isSome ∨ IsOpen scopes i ↔ x.kind.isBlock ∧ h.HasBody

structure Headed (ts rest : List Token) (scopes : List Scope) (symbols : Array Symbol) : Prop where
  opened : ∀ i, IsOpen scopes i → i < symbols.size
  headers : ∀ (i : Nat) (x : Symbol), symbols[i]? = some x → x.HasHeader →
    ∃ h, HeaderRead ts rest scopes symbols i x h

namespace Headed

theorem mono (h : Headed ts rest scopes symbols) (hus : us <:+ rest) : Headed ts us scopes symbols where
  opened := h.opened
  headers := by
    intro i x hx hkind
    obtain ⟨hd, hread⟩ := h.headers i x hx hkind
    exact ⟨hd, { hread with behind := hus.trans hread.behind }⟩

/-- A symbol that is recorded, perhaps with a scope of its own. -/
theorem pushed (h : Headed ts (t :: rest) scopes symbols) {scopes' : List Scope}
    (hopen : ∀ i, i < symbols.size → (IsOpen scopes' i ↔ IsOpen scopes i))
    (hlast : ∀ i, IsOpen scopes' i → i ≤ symbols.size) (hstart : x.start = t.start) (hus : us <:+ rest)
    (hx : x.HasHeader → ∃ hd : Header, x.HeadedBy ts hd ∧ us <:+ hd.rest ∧
      (x.stop.isSome ∨ IsOpen scopes' symbols.size ↔ x.kind.isBlock ∧ hd.HasBody)) :
    Headed ts us scopes' (symbols.push x) where
  opened := by
    intro i hi
    rw [Array.size_push]
    exact Nat.lt_succ_of_le (hlast i hi)
  headers := by
    intro i y hy hkind
    rcases getElem?_push_cases hy with ⟨hy, hlt⟩ | ⟨rfl, rfl⟩
    · obtain ⟨hd, hread⟩ := h.headers i y hy hkind
      refine ⟨hd, hread.headed, (hus.trans (List.suffix_cons t rest)).trans hread.behind, ?_, ?_⟩
      · intro j z hij hz
        rcases getElem?_push_cases hz with ⟨hz, _⟩ | ⟨_, rfl⟩
        · exact hread.later j z hij hz
        · exact ⟨t, rest, hread.behind, hstart⟩
      · rw [hopen i hlt]
        exact hread.scope
    · obtain ⟨hd, hhead, hbehind, hscope⟩ := hx hkind
      refine ⟨hd, hhead, hbehind, ?_, hscope⟩
      intro j z hlt hz
      have hsize := (Array.getElem?_eq_some_iff.mp hz).1
      rw [Array.size_push] at hsize
      omega

theorem push (h : Headed ts (t :: rest) scopes symbols) (hstart : x.start = t.start)
    (hstop : x.stop = none) (hus : us <:+ rest)
    (hx : x.HasHeader → ∃ hd : Header, x.HeadedBy ts hd ∧ us <:+ hd.rest ∧
      ¬ (x.kind.isBlock ∧ hd.HasBody)) : Headed ts us scopes (symbols.push x) := by
  refine h.pushed (fun _ _ => Iff.rfl) (fun i hi => Nat.le_of_lt (h.opened i hi)) hstart hus ?_
  intro hkind
  obtain ⟨hd, hhead, hbehind, hbody⟩ := hx hkind
  refine ⟨hd, hhead, hbehind, iff_of_false ?_ hbody⟩
  rw [hstop, not_or]
  exact ⟨Bool.false_ne_true, fun hopen => Nat.lt_irrefl _ (h.opened _ hopen)⟩

/-- A scope opens with the symbol that is recorded for it. -/
theorem enter (h : Headed ts (t :: rest) scopes symbols) (flavour : Flavour)
    (hstart : x.start = t.start) (hus : us <:+ rest) {hd : Header} (hhead : x.HeadedBy ts hd)
    (hbehind : us <:+ hd.rest) (hbody : x.kind.isBlock ∧ hd.HasBody) :
    Headed ts us (⟨flavour, some symbols.size⟩ :: scopes) (symbols.push x) := by
  refine h.pushed (fun i hlt => ?_) (fun i hi => ?_) hstart hus fun _ =>
    ⟨hd, hhead, hbehind, iff_of_true (.inr (isOpen_cons_iff.mpr (.inl rfl))) hbody⟩
  · have hne : some symbols.size ≠ some i := fun heq => Nat.ne_of_gt hlt (Option.some.inj heq)
    rw [isOpen_cons_iff, or_iff_right hne]
  · rcases isOpen_cons_iff.mp hi with hi | hi
    · exact Nat.le_of_eq (Option.some.inj hi).symm
    · exact Nat.le_of_lt (h.opened i hi)

theorem enterSilently (h : Headed ts rest scopes symbols) (flavour : Flavour) :
    Headed ts rest (⟨flavour, none⟩ :: scopes) symbols := by
  have hsame (i : Nat) : IsOpen (⟨flavour, none⟩ :: scopes) i ↔ IsOpen scopes i :=
    isOpen_cons_iff.trans (or_iff_right (Option.some_ne_none i).symm)
  refine ⟨fun i hi => h.opened i ((hsame i).mp hi), fun i x hx hkind => ?_⟩
  obtain ⟨hd, hread⟩ := h.headers i x hx hkind
  exact ⟨hd, { hread with scope := by rw [hsame]; exact hread.scope }⟩

theorem leave (h : Headed ts rest (scope :: outer) s.symbols) (n : Nat) :
    Headed ts rest outer (s.leave scope outer n).symbols := by
  cases hp : scope.symbol with
  | none =>
    have hsame (i : Nat) : IsOpen (scope :: outer) i ↔ IsOpen outer i := by
      rw [isOpen_cons_iff, hp]
      exact or_iff_right (Option.some_ne_none i).symm
    rw [Scan.leave, hp]
    refine ⟨fun i hi => h.opened i hi.cons, fun i x hx hkind => ?_⟩
    obtain ⟨hd, hread⟩ := h.headers i x hx hkind
    exact ⟨hd, { hread with scope := by rw [← hsame]; exact hread.scope }⟩
  | some p =>
    rw [Scan.leave, hp, setStop_symbols]
    refine ⟨fun i hi => ?_, fun i y hy hkind => ?_⟩
    · rw [stopped, Array.size_modify]
      exact h.opened i hi.cons
    · obtain ⟨x, hx, rfl⟩ := getElem?_stopped hy
      obtain ⟨hd, hread⟩ := h.headers i x hx hkind
      have hscope := hread.scope
      refine ⟨hd, ⟨hread.headed.read, hread.headed.name, hread.headed.kind⟩, hread.behind, ?_, ?_⟩
      · intro j z hij hz
        obtain ⟨w, hw, rfl⟩ := getElem?_stopped hz
        exact hread.later j w hij hw
      · rw [isOpen_cons_iff, hp] at hscope
        by_cases hip : i = p
        · rw [if_pos hip]
          exact iff_of_true (.inl rfl) (hscope.mp (.inr (.inl (congrArg some hip.symm))))
        · have hne : some p ≠ some i := fun heq => hip (Option.some.inj heq).symm
          rw [or_iff_right hne] at hscope
          rw [if_neg hip]
          exact hscope

end Headed

section Steps
variable {lo hi : Nat} {h : Header}

/-- The header that comes next is that of a symbol recorded at its first token. -/
theorem headedBy_symbolOf (text : List Char) (hlaid : Token.Laid lo hi ts) (hs : s.rest <:+ ts)
    (hread : Header.ofUnit? s.rest = some h) {kind : Symbol.Kind} (stop : List Token)
    (hkind : s.scopes = [] → kind = h.kind) :
    (s.symbolOf text h.first kind h.name stop).HeadedBy ts h where
  read := Symbol.header?_eq hlaid hs hread rfl
  name := rfl
  kind := fun hlevel => hkind (List.eq_nil_of_length_eq_zero hlevel)

theorem record_headed (text : List Char) (hlaid : Token.Laid lo hi ts) (hs : s.rest <:+ ts)
    (hinv : Headed ts s.rest s.scopes s.symbols) (hread : Header.ofUnit? s.rest = some h)
    {kind : Symbol.Kind} (recording : Bool) (stop : List Token) (hus : us <:+ h.rest)
    (hkind : s.scopes = [] → kind = h.kind) (hbody : ¬ (kind.isBlock ∧ h.HasBody)) :
    Headed ts us s.scopes
      (s.record recording (s.symbolOf text h.first kind h.name stop)).symbols := by
  have hhead := headedBy_symbolOf text hlaid hs hread stop hkind
  obtain ⟨_, after, hrest, hlater⟩ := Header.ofUnit?_eq_some hread
  rw [hrest] at hinv
  cases recording with
  | false => exact hinv.mono ((hus.trans hlater).trans (List.suffix_cons h.first after))
  | true => exact hinv.push rfl rfl (hus.trans hlater) fun _ => ⟨h, hhead, hus, hbody⟩

theorem open_headed (text : List Char) (hlaid : Token.Laid lo hi ts) (hs : s.rest <:+ ts)
    (hinv : Headed ts s.rest s.scopes s.symbols) (hread : Header.ofUnit? s.rest = some h)
    (recording : Bool) (flavour : Flavour) {stop : List Token}
    (hend : Header.findEnd 0 false h.rest = .body stop) (hus : us <:+ stop) :
    Headed ts us (⟨flavour, if recording then some s.symbols.size else none⟩ :: s.scopes)
      (s.record recording (s.symbolOf text h.first h.kind h.name stop)).symbols := by
  have hhead := headedBy_symbolOf text hlaid hs hread stop fun _ => rfl
  have hstop : stop <:+ h.rest := Header.suffix_of_findEnd hend
  obtain ⟨hblock, after, hrest, hlater⟩ := Header.ofUnit?_eq_some hread
  rw [hrest] at hinv
  have hbehind := hus.trans hstop
  cases recording with
  | false =>
    exact (hinv.mono ((hbehind.trans hlater).trans (List.suffix_cons h.first after))).enterSilently flavour
  | true =>
    exact hinv.enter flavour rfl (hbehind.trans hlater) hhead hbehind ⟨hblock, stop, hend⟩

theorem Headed.move (hlaid : Token.Laid lo hi ts) (hs : s.rest <:+ ts)
    (h : Headed ts s.rest s.scopes s.symbols) (hmove : Move text s s') :
    Headed ts s'.rest s'.scopes s'.symbols := by
  have hnext := h.mono hmove.rest_suffix
  cases hmove with
  | pass | statement | unexpected => exact hnext
  | @declared scope outer t kind name after hscopes hnames hkind =>
    obtain ⟨rest, hrest, hafter⟩ := hnames.exists_cons
    rw [hrest] at h
    have hus := (tail_fromSemicolon_suffix after).trans hafter
    rw [goOn_rest, goOn_symbols, goOn_scopes, record_scopes]
    cases scope.symbol.isSome with
    | false => exact h.mono (hus.trans (List.suffix_cons t rest))
    | true =>
      refine h.push rfl rfl hus fun hheader => ?_
      rcases hheader with hlevel | hcounter
      · have hnil : s.scopes = [] := List.eq_nil_of_length_eq_zero hlevel
        rw [hscopes] at hnil
        contradiction
      · exact absurd hcounter hkind
  | @specified _ _ _ stop _ recording d hscopes hread hstops hus _ =>
    have hrecord := record_headed text hlaid hs h hread.ofUnit?_eq recording stop
      (hstops.suffix_of_left hus) (fun hnil => by rw [hscopes] at hnil; contradiction)
      fun hbody => hread.not_isBlock hbody.1
    rwa [← record_scopes s recording] at hrecord
  | @ended hd us hscopes hread hend =>
    have hus : us <:+ hd.rest := Header.suffix_of_findEnd hend
    refine record_headed text hlaid hs h hread true us ((List.tail_suffix us).trans hus)
      (fun _ => rfl) ?_
    rintro ⟨_, _, hbody⟩
    rw [hend] at hbody
    contradiction
  | @cut hd us d hscopes hread hend =>
    have hus : us <:+ hd.rest := Header.suffix_of_findEnd hend
    refine record_headed text hlaid hs h hread true us hus (fun _ => rfl) ?_
    rintro ⟨_, _, hbody⟩
    rw [hend] at hbody
    contradiction
  | @called hd us recording hread _ hend hcall =>
    -- A call specification opens and closes at once.
    have hopen := open_headed text hlaid hs h hread recording .body hend
      ((tail_fromSemicolon_suffix us.tail).trans (List.tail_suffix us))
    have hleave := hopen.leave (stopOf text (fromSemicolon us.tail))
    simpa [Scan.leave] using hleave
  | @opened hd us recording hread _ hend =>
    exact open_headed text hlaid hs h hread recording _ hend (List.tail_suffix us)
  | closed hscopes hus he =>
    rw [hscopes] at h
    exact (h.leave _).mono ((find_suffix he).trans hus)
  | @interrupted scope outer t _ hscopes _ _ =>
    rw [hscopes] at h
    have hleave := h.leave t.start
    rwa [← leave_rest s scope outer t.start] at hleave
  | unfinished d hscopes =>
    rw [hscopes] at h
    exact (h.leave _).mono List.nil_suffix

theorem run_headed (text : List Char) (hlaid : Token.Laid lo hi ts) (hs : s.rest <:+ ts)
    (h : Headed ts s.rest s.scopes s.symbols) :
    Headed ts (s.run text).rest (s.run text).scopes (s.run text).symbols :=
  run_keeps (P := fun s => Headed ts s.rest s.scopes s.symbols)
    (fun hs h hmove => h.move hlaid hs hmove) hs h

end Steps

end Scan

theorem Outline.ofText_headed (file text : String) :
    Scan.Headed (Token.ofText text) [] [] (Outline.ofText file text).symbols := by
  have hstart : Scan.Headed (Token.ofText text) (Token.ofText text) [] #[] := by
    refine ⟨fun i hi => ?_, fun i x hx => ?_⟩
    · obtain ⟨scope, hmem, _⟩ := hi
      contradiction
    · exact absurd (Array.mem_of_getElem? hx) (Array.not_mem_empty x)
  have hrun := Scan.run_headed text.toList (s := Scan.ofTokens (Token.ofText text))
    (Token.ofText_laid text) (List.suffix_refl _) hstart
  have hdone := Scan.run_isDone text.toList (Scan.ofTokens (Token.ofText text))
  rw [Scan.isDone, Bool.and_eq_true, List.isEmpty_iff, List.isEmpty_iff] at hdone
  rw [hdone.1, hdone.2] at hrun
  exact hrun

end PlsqlNav
