import PlsqlNav.Proofs.Scan.Readers
import PlsqlNav.Proofs.Token.Keyword

/-! What one step of a scan can do. Every property of a step is read off its moves. -/
namespace PlsqlNav

namespace Symbol

/-- `stop` is what is left of the tokens `after` a name where its definition ends. Packages and routines
have headers, except for the routines that a specification declares: they end with their statement, as
all other declarations do. -/
inductive Stops (kind : Kind) (after : List Token) : List Token → Prop where
  | header : kind.hasCounterpart → Stops kind after (Header.findEnd 0 false after).tokens
  | statement : ¬ kind.isBlock → Stops kind after (Scan.fromSemicolon after)

theorem Stops.suffix {kind : Kind} {after stop : List Token} (h : Stops kind after stop) :
    stop <:+ after := by
  cases h with
  | header => exact Header.findEnd_suffix 0 false after
  | statement => exact Scan.fromSemicolon_suffix after

/-- What is read next stands behind the declaration, or is where this breaks off. -/
theorem Stops.suffix_of_left {kind : Kind} {after stop us : List Token} {p : Prop}
    (h : Stops kind after stop) (hus : us = stop.tail ∨ us = stop ∧ p) : us <:+ after := by
  rcases hus with rfl | ⟨rfl, _⟩
  · exact (List.tail_suffix stop).trans h.suffix
  · exact h.suffix

theorem Stops.of_findEnd {kind : Kind} {after : List Token} {e : Header.End}
    (hkind : kind.hasCounterpart) (h : Header.findEnd 0 false after = e) : Stops kind after e.tokens :=
  h ▸ .header hkind

end Symbol

namespace Header

/-- The header of a routine that comes next and is introduced by its keyword. -/
def Introduced (h : Header) (ts : List Token) : Prop :=
  ∃ kind us, ts = h.first :: us ∧ Lead.of h.first = .routine kind ∧
    qualifiedName us = some (h.name, h.rest) ∧ h.kind = kind .body

variable {h : Header} {ts : List Token}

theorem Introduced.isRoutine (hh : h.Introduced ts) : h.kind.isRoutine := by
  obtain ⟨kind, _, _, hlead, _, hkind⟩ := hh
  rw [hkind]
  exact Lead.isRoutine_of_routine hlead .body

theorem Introduced.not_isBlock (hh : h.Introduced ts) : ¬ h.kind.counterpart.isBlock := by
  obtain ⟨kind, _, _, hlead, _, hkind⟩ := hh
  rw [hkind]
  obtain ⟨_, rfl⟩ | ⟨_, rfl⟩ := Lead.of_eq_routine hlead
  · exact Bool.false_ne_true
  · exact Bool.false_ne_true

/-- The header is read as that of a unit would be. -/
theorem Introduced.ofUnit?_eq (hh : h.Introduced ts) : ofUnit? ts = some h := by
  obtain ⟨kind, us, rfl, hlead, hname, hkind⟩ := hh
  have hwords : h.first.isWord "create" = false ∧
      unitKind (h.first :: us) = some (kind .body, us) := by
    obtain ⟨hword, rfl⟩ | ⟨hword, rfl⟩ := Lead.of_eq_routine hlead
    · exact ⟨Token.not_isWord_of_isWord hword (by decide), if_pos hword⟩
    · have hfunction : ¬ h.first.isWord "function" := by
        rw [Token.not_isWord_of_isWord hword (by decide)]
        exact Bool.false_ne_true
      exact ⟨Token.not_isWord_of_isWord hword (by decide), (if_neg hfunction).trans (if_pos hword)⟩
  rw [ofUnit?, skipCreate, if_neg (Bool.not_eq_true _ ▸ hwords.1)]
  simp only [hwords.2, List.head?_cons, Option.bind_eq_bind, Option.bind_some, hname, ← hkind]

theorem Introduced.named (hh : h.Introduced ts) : Token.Names ts h.first h.name h.rest :=
  (ofUnit?_named hh.ofUnit?_eq).2

end Header

namespace Scan

variable {text : List Char} {s : Scan}

/-- Whether a routine that comes next leaves a symbol: units do, and routines inside recorded scopes
down to the given depth, or at any depth without one. -/
def records (limit : Option Nat) (s : Scan) : Bool :=
  match s.scopes with
  | [] => true
  | scope :: outer => scope.symbol.isSome && limit.all (outer.length + 1 ≤ ·)

section Records
variable {limit : Option Nat} {scope : Scope} {outer : List Scope}

theorem records_outside (hs : s.scopes = []) : s.records limit = true := by
  rw [records, hs]

theorem records_inside (hs : s.scopes = scope :: outer) :
    s.records limit = (scope.symbol.isSome && limit.all (outer.length + 1 ≤ ·)) := by
  rw [records, hs]

theorem symbol_isSome_of_records (h : s.records limit) (hs : s.scopes = scope :: outer) :
    scope.symbol.isSome := by
  rw [records_inside hs, Bool.and_eq_true] at h
  exact h.1

theorem length_le_of_records {n : Nat} (h : s.records (some n)) : s.scopes.length ≤ n := by
  cases hs : s.scopes with
  | nil => exact Nat.zero_le n
  | cons scope outer =>
    rw [records_inside hs, Bool.and_eq_true] at h
    exact of_decide_eq_true h.2

end Records

inductive Move (text : List Char) (s : Scan) : Scan → Prop
  /-- Outside all units a token is passed over. -/
  | pass (d : Bool) : s.scopes = [] → Move text s (s.goOn s.rest.tail d)
  /-- A statement that declares nothing is passed over, if only its semicolon. -/
  | statement {ts : List Token} : ts <:+ s.rest → Move text s (s.goOn (fromSemicolon ts).tail false)
  | unexpected {t : Token} {ts : List Token} : s.rest = t :: ts → Move text s (s.stepOver t ts)
  /-- A declaration that is neither a package nor a routine. -/
  | declared {scope : Scope} {outer : List Scope} {t : Token} {kind : Symbol.Kind} {name : String}
      {after : List Token} : s.scopes = scope :: outer → Token.Names s.rest t name after →
      ¬ kind.hasCounterpart →
      Move text s ((s.record scope.symbol.isSome
        (s.symbolOf text t kind name (fromSemicolon after))).goOn (fromSemicolon after).tail false)
  /-- A nested routine without a body. In a specification it is a declaration as any other. -/
  | specified {scope : Scope} {outer : List Scope} {h : Header} {stop us : List Token}
      (recording d : Bool) : s.scopes = scope :: outer → h.Introduced s.rest →
      Symbol.Stops h.kind.counterpart h.rest stop →
      (us = stop.tail ∨ us = stop ∧ Header.findEnd 0 false h.rest = .cut stop d) →
      (recording → scope.symbol.isSome ∧ (scope.flavour = .spec ∨ s.scopes.length ≤ recordedDepth)) →
      Move text s ((s.record recording
        (s.symbolOf text h.first h.kind.counterpart h.name stop)).goOn us d)
  /-- A unit whose header ends with its semicolon. -/
  | ended {h : Header} {us : List Token} : s.scopes = [] → Header.ofUnit? s.rest = some h →
      Header.findEnd 0 false h.rest = .semicolon us →
      Move text s ((s.record true (s.symbolOf text h.first h.kind h.name us)).goOn us.tail false)
  /-- A unit whose header neither ends nor is followed by a body. -/
  | cut {h : Header} {us : List Token} {d : Bool} : s.scopes = [] → Header.ofUnit? s.rest = some h →
      Header.findEnd 0 false h.rest = .cut us d →
      Move text s (((s.record true (s.symbolOf text h.first h.kind h.name us)).goOn us d).report
        .missingBody h.first.start)
  /-- A unit or nested routine whose body is in another language. -/
  | called {h : Header} {us : List Token} {recording : Bool} : Header.ofUnit? s.rest = some h →
      (s.scopes = [] ∨ h.kind.isRoutine) → Header.findEnd 0 false h.rest = .body us →
      us.tail.head?.any (·.isOneOf ["language", "external"]) →
      s.records (some recordedDepth) = recording →
      Move text s (((s.record recording (s.symbolOf text h.first h.kind h.name us)).setStop
        (if recording then some s.symbols.size else none) (stopOf text (fromSemicolon us.tail))).goOn
          (fromSemicolon us.tail).tail false)
  | opened {h : Header} {us : List Token} {recording : Bool} : Header.ofUnit? s.rest = some h →
      (s.scopes = [] ∨ h.kind.isRoutine) → Header.findEnd 0 false h.rest = .body us →
      s.records (some recordedDepth) = recording →
      Move text s { s.record recording (s.symbolOf text h.first h.kind h.name us) with
        rest := us.tail
        afterDollar := false
        scopes := ⟨if h.kind = .package .spec then .spec else .body,
          if recording then some s.symbols.size else none⟩ :: s.scopes }
  /-- The innermost scope closes where its block ends. -/
  | closed {scope : Scope} {outer : List Scope} {us : List Token} {d : Bool} {e : Extent} :
      s.scopes = scope :: outer → us <:+ s.rest → Extent.find 0 d us = some e →
      Move text s ((s.leave scope outer e.stop).goOn e.rest false)
  /-- The innermost scope is left open by the next unit. -/
  | interrupted {scope : Scope} {outer : List Scope} {t : Token} {ts : List Token} :
      s.scopes = scope :: outer → s.rest = t :: ts → t.isWord "create" →
      Move text s ((s.leave scope outer t.start).report .unclosedBlock t.start)
  /-- The innermost scope is left open by the end of the text. -/
  | unfinished {scope : Scope} {outer : List Scope} (d : Bool) : s.scopes = scope :: outer →
      Move text s (((s.leave scope outer (Text.byteLength text)).goOn [] d).report .unclosedBlock
        (Text.byteLength text))

section Enter
variable {recording : Bool} {h : Header} {ts : List Token}

theorem enter_of_semicolon (he : Header.findEnd 0 false h.rest = .semicolon ts) :
    s.enter text recording h = (s.record recording (s.symbolOf text h.first
      (if !s.scopes.isEmpty then h.kind.counterpart else h.kind) h.name ts)).goOn ts.tail false := by
  rw [enter, he]

theorem enter_of_cut {a : Bool} (he : Header.findEnd 0 false h.rest = .cut ts a) :
    s.enter text recording h =
      if !s.scopes.isEmpty then
        (s.record recording (s.symbolOf text h.first h.kind.counterpart h.name ts)).goOn ts a
      else ((s.record recording (s.symbolOf text h.first h.kind h.name ts)).goOn ts a).report
        .missingBody h.first.start := by
  rw [enter, he]
  dsimp only
  split <;> rfl

/-- The body of a routine may be in another language, which goes to the next semicolon. -/
theorem enter_of_body (he : Header.findEnd 0 false h.rest = .body ts) :
    s.enter text recording h =
      if ts.tail.head?.any (·.isOneOf ["language", "external"]) then
        ((s.record recording (s.symbolOf text h.first h.kind h.name ts)).setStop
          (if recording then some s.symbols.size else none) (stopOf text (fromSemicolon ts.tail))).goOn
            (fromSemicolon ts.tail).tail false
      else
        { s.record recording (s.symbolOf text h.first h.kind h.name ts) with
          rest := ts.tail
          afterDollar := false
          scopes := ⟨if h.kind = .package .spec then .spec else .body,
            if recording then some s.symbols.size else none⟩ :: s.scopes } := by
  rw [enter, he]
  dsimp only
  rw [record_scopes]

end Enter

section Steps
variable {us : List Token} {scope : Scope} {outer : List Scope}

theorem eq_goOn_nil (hnil : s.rest = []) : s = s.goOn [] s.afterDollar := by
  cases s
  cases hnil
  rfl

theorem enter_move_nested (hs : s.scopes = scope :: outer) {h : Header} (hread : h.Introduced s.rest)
    {recording : Bool} (hrecording : s.records (some recordedDepth) = recording) :
    Move text s (s.enter text recording h) := by
  have hnested : (!s.scopes.isEmpty) = true := by rw [hs]; rfl
  have hunit := hread.ofUnit?_eq
  have hcounterpart : h.kind.counterpart.hasCounterpart :=
    Symbol.Kind.hasCounterpart_counterpart.trans
      (Symbol.Kind.hasCounterpart_of_isBlock (Header.ofUnit?_named hunit).1)
  have hinside (hrec : recording) : scope.symbol.isSome ∧
      (scope.flavour = .spec ∨ s.scopes.length ≤ recordedDepth) := by
    have hrecords := hrecording.trans hrec
    exact ⟨symbol_isSome_of_records hrecords hs, .inr (length_le_of_records hrecords)⟩
  cases he : Header.findEnd 0 false h.rest with
  | semicolon us =>
    rw [enter_of_semicolon he, if_pos hnested]
    exact .specified _ false hs hread (.of_findEnd hcounterpart he) (.inl rfl) hinside
  | cut us d =>
    rw [enter_of_cut he, if_pos hnested]
    exact .specified _ d hs hread (.of_findEnd hcounterpart he) (.inr ⟨rfl, he⟩) hinside
  | body us =>
    rw [enter_of_body he]
    split
    · next hcall => exact .called hunit (.inr hread.isRoutine) he hcall hrecording
    · exact .opened hunit (.inr hread.isRoutine) he hrecording

theorem enter_move_outside (hs : s.scopes = []) {h : Header}
    (hread : Header.ofUnit? s.rest = some h) : Move text s (s.enter text true h) := by
  have houtside : ¬ (!s.scopes.isEmpty) = true := by rw [hs]; exact Bool.false_ne_true
  cases he : Header.findEnd 0 false h.rest with
  | semicolon us =>
    rw [enter_of_semicolon he, if_neg houtside]
    exact .ended hs hread he
  | cut us d =>
    rw [enter_of_cut he, if_neg houtside]
    exact .cut hs hread he
  | body us =>
    rw [enter_of_body he]
    split
    · next hcall => exact .called hread (.inl hs) he hcall (records_outside hs)
    · exact .opened hread (.inl hs) he (records_outside hs)

theorem leaveAt_move (hs : s.scopes = scope :: outer) (hus : us <:+ s.rest) (d : Bool) :
    Move text s (s.leaveAt text scope outer (Extent.find 0 d us)) := by
  cases he : Extent.find 0 d us with
  | none => exact .unfinished false hs
  | some e => exact .closed hs hus he

theorem stepIn_move (hs : s.scopes = scope :: outer) : Move text s (s.stepIn text scope outer) := by
  rw [stepIn]
  split
  · next hnil =>
    dsimp only
    rw [eq_goOn_nil (s := s.leave scope outer _) (by rw [leave_rest, hnil])]
    exact .unfinished _ hs
  · next t rest hrest =>
    have hsuffix : rest <:+ s.rest := hrest ▸ List.suffix_cons t rest
    have hover : Move text s (s.stepOver t rest) := .unexpected hrest
    split
    · next hsemicolon =>
      have hmove : Move text s (s.goOn (fromSemicolon (t :: rest)).tail false) :=
        .statement (hrest ▸ List.suffix_refl s.rest)
      rwa [fromSemicolon_cons hsemicolon] at hmove
    split
    · exact hover
    split
    · exact leaveAt_move hs hsuffix false
    · exact leaveAt_move hs (hrest ▸ List.suffix_refl s.rest) s.afterDollar
    · next hlead => exact .interrupted hs hrest (Lead.of_eq_create hlead)
    · exact .statement hsuffix
    · next kind hlead =>
      split
      · exact hover
      · next name after hname =>
        have hread : (Header.mk t (kind .body) name after).Introduced s.rest :=
          ⟨kind, rest, hrest, hlead, hname, rfl⟩
        have hspec := Lead.spec_eq_counterpart hlead
        split
        · next hflavour =>
          rw [hspec]
          exact .specified _ false hs hread (.statement hread.not_isBlock) (.inl rfl)
            fun hsome => ⟨hsome, .inl hflavour⟩
        · exact enter_move_nested hs hread (records_inside hs)
    · next kind hlead =>
      split
      · exact hover
      · next u after =>
        split
        · exact .declared hs ⟨[t, u], hrest, rfl, u, rfl, rfl⟩
            (ne_true_of_eq_false (Lead.hasCounterpart_of_named hlead))
        · exact hover
    · refine .declared hs ⟨[t], hrest, rfl, t, rfl, rfl⟩ ?_
      split
      · exact Bool.false_ne_true
      split
      · exact Bool.false_ne_true
      · exact Bool.false_ne_true

theorem step_move (text : List Char) (s : Scan) : Move text s (s.step text) := by
  rw [step]
  split
  · next hs =>
    rw [stepOut]
    split
    · next h hread => exact enter_move_outside hs hread
    · exact .pass _ hs
  · next hs => exact stepIn_move hs

end Steps

end Scan

end PlsqlNav
