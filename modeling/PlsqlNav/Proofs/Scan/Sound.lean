import PlsqlNav.Proofs.Scan.Progress
import PlsqlNav.Proofs.Scan.Recorded

/-! A scan is sound when the tokens it has still to read come after all that it has recorded. Every move
keeps a scan sound, whatever the text. -/
namespace PlsqlNav.Scan

variable {text : List Char} {pos : Nat} {t : Token} {ts us : List Token} {s s' : Scan}

/-- The tokens lie in the text after `pos`. -/
structure Reading (text : List Char) (pos : Nat) (ts : List Token) : Prop where
  laid : Token.Laid pos (Text.byteLength text) ts
  boundary : ∀ t ∈ ts, Text.IsBoundary text t.start

def Sound (text : List Char) (s : Scan) : Prop :=
  ∃ pos, Reading text pos s.rest ∧ Recorded text pos s.scopes s.symbols

theorem Reading.suffix (h : Reading text pos ts) (hs : us <:+ ts) : Reading text pos us :=
  ⟨h.laid.suffix hs, fun t ht => h.boundary t (hs.subset ht)⟩

theorem Reading.tail (h : Reading text pos (t :: ts)) : Reading text t.stop ts :=
  ⟨h.laid.2.2, fun u hu => h.boundary u (List.mem_cons_of_mem t hu)⟩

theorem Reading.after {front : List Token} (h : Reading text pos (front ++ t :: ts)) :
    pos < t.stop ∧ Reading text t.stop ts :=
  ⟨h.laid.after.1, (h.suffix (List.suffix_append front (t :: ts))).tail⟩

theorem Reading.stopOf (h : Reading text pos ts) :
    pos ≤ stopOf text ts ∧ Reading text (stopOf text ts) ts.tail := by
  cases ts with
  | nil => exact ⟨h.laid, Nat.le_refl _, by simp⟩
  | cons t ts =>
    obtain ⟨hpos, hstop, _⟩ := h.laid
    exact ⟨Nat.le_trans hpos (Nat.le_of_lt hstop), h.tail⟩

/-- A declaration comes next, and the tokens behind its name are read from the end of its first one. -/
theorem Reading.named {name : String} {after : List Token} (h : Reading text pos ts)
    (hnames : Token.Names ts t name after) :
    ∃ vs, Reading text pos (t :: vs) ∧ ∀ us, us <:+ after → Reading text t.stop us := by
  obtain ⟨vs, rfl, hafter⟩ := hnames.exists_cons
  exact ⟨vs, h, fun us hus => h.tail.suffix (hus.trans hafter)⟩

@[simp] theorem goOn_symbols (s : Scan) (ts : List Token) (d : Bool) :
    (s.goOn ts d).symbols = s.symbols := rfl

@[simp] theorem report_symbols (s : Scan) (k : Issue.Kind) (n : Nat) :
    (s.report k n).symbols = s.symbols := rfl

theorem setStop_symbols (s : Scan) (p n : Nat) :
    (s.setStop (some p) n).symbols = stopped s.symbols p n := rfl

theorem record_recorded {recording : Bool} (h : Recorded text pos s.scopes s.symbols)
    (hall : recording = true → ∀ scope ∈ s.scopes, scope.symbol.isSome)
    (hr : Reading text pos (t :: ts)) (kind : Symbol.Kind) (name : String) (stop : List Token) :
    Recorded text t.stop s.scopes
      (s.record recording (s.symbolOf text t kind name stop)).symbols := by
  obtain ⟨hpos, hstop, _⟩ := hr.laid
  cases recording with
  | false => exact h.mono (Nat.le_trans hpos (Nat.le_of_lt hstop))
  | true => exact h.push (hall rfl) rfl rfl hpos (hr.boundary t List.mem_cons_self) hstop

theorem records_recorded (h : Recorded text pos s.scopes s.symbols) {limit : Option Nat}
    (hrecords : s.records limit) : ∀ scope ∈ s.scopes, scope.symbol.isSome := by
  cases hs : s.scopes with
  | nil => exact fun _ hscope => absurd hscope List.not_mem_nil
  | cons scope outer => exact (hs ▸ h.opened).recorded (symbol_isSome_of_records hrecords hs)

/-- The scope of the unit or routine that comes next has its symbol where one is recorded. -/
theorem open_recorded {hd : Header} (hr : Reading text pos (hd.first :: us)) (hblock : hd.kind.isBlock)
    (h : Recorded text pos s.scopes s.symbols) {recording : Bool}
    (hrecording : s.records (some recordedDepth) = recording) (flavour : Flavour) (stop : List Token) :
    Recorded text hd.first.stop (⟨flavour, if recording then some s.symbols.size else none⟩ :: s.scopes)
      (s.record recording (s.symbolOf text hd.first hd.kind hd.name stop)).symbols := by
  obtain ⟨hpos, hstop, _⟩ := hr.laid
  cases recording with
  | false => exact (h.mono (Nat.le_trans hpos (Nat.le_of_lt hstop))).enterSilently flavour
  | true =>
    exact h.enter flavour (records_recorded h hrecording) (length_le_of_records hrecording) rfl rfl
      hblock hpos (hr.boundary _ List.mem_cons_self) hstop

theorem leave_recorded {scope : Scope} {outer : List Scope} {e : Nat}
    (h : Recorded text pos (scope :: outer) s.symbols) (he : pos ≤ e) :
    Recorded text e outer (s.leave scope outer e).symbols := by
  cases hs : scope.symbol with
  | none =>
    rw [leave, hs]
    have hopen : IsOpen (scope :: outer) = IsOpen outer := by
      funext i
      rw [eq_iff_iff, isOpen_cons_iff, hs]
      simp
    exact { h.mono he with opened := h.opened.1, closed := hopen ▸ h.closed }
  | some p =>
    rw [leave, hs]
    exact h.close hs he

/-- What is recorded starts with the next token, and what is open stops behind it. -/
theorem Sound.move (h : Sound text s) (hmove : Move text s s') : Sound text s' := by
  obtain ⟨pos, hr, h⟩ := h
  have hnext : Reading text pos s'.rest := hr.suffix hmove.rest_suffix
  have hinside {scope : Scope} {outer : List Scope} (hs : s.scopes = scope :: outer)
      (hsome : scope.symbol.isSome) : ∀ sc ∈ s.scopes, sc.symbol.isSome := by
    rw [hs]
    exact (hs ▸ h.opened).recorded hsome
  have houtside (hs : s.scopes = []) : ∀ sc ∈ s.scopes, sc.symbol.isSome :=
    records_recorded h (records_outside hs : s.records none)
  cases hmove with
  | pass | statement | unexpected => exact ⟨pos, hnext, h⟩
  | @declared scope outer t kind name after hs hnames hkind =>
    obtain ⟨ts, hfirst, hlater⟩ := hr.named hnames
    refine ⟨t.stop, hlater _ (tail_fromSemicolon_suffix after), ?_⟩
    simpa using record_recorded h (hinside hs) hfirst kind name (fromSemicolon after)
  | @specified scope outer hd stop us recording d hs hread hstops hus hrecords =>
    obtain ⟨ts, hfirst, hlater⟩ := hr.named hread.named
    refine ⟨hd.first.stop, hlater us (hstops.suffix_of_left hus), ?_⟩
    simpa using record_recorded h (fun hrec => hinside hs (hrecords hrec).1) hfirst _ hd.name stop
  | @ended hd us hs hread hend =>
    obtain ⟨ts, hfirst, hlater⟩ := hr.named (Header.ofUnit?_named hread).2
    have hus : us <:+ hd.rest := Header.suffix_of_findEnd hend
    refine ⟨hd.first.stop, hlater _ ((List.tail_suffix us).trans hus), ?_⟩
    simpa using record_recorded h (fun _ => houtside hs) hfirst hd.kind hd.name us
  | @cut hd us d hs hread hend =>
    obtain ⟨ts, hfirst, hlater⟩ := hr.named (Header.ofUnit?_named hread).2
    refine ⟨hd.first.stop, hlater us (Header.suffix_of_findEnd hend), ?_⟩
    simpa using record_recorded h (fun _ => houtside hs) hfirst hd.kind hd.name us
  | @called hd us recording hread _ hend _ hrecording =>
    -- A call specification opens and closes at once.
    obtain ⟨hblock, hnames⟩ := Header.ofUnit?_named hread
    obtain ⟨ts, hfirst, hlater⟩ := hr.named hnames
    have hus : us <:+ hd.rest := Header.suffix_of_findEnd hend
    have hlast := ((fromSemicolon_suffix us.tail).trans (List.tail_suffix us)).trans hus
    obtain ⟨hstop, hafter⟩ := (hlater _ hlast).stopOf
    have hclose := leave_recorded (s := s.record recording
      (s.symbolOf text hd.first hd.kind hd.name us)) (open_recorded hfirst hblock h hrecording .body us)
      hstop
    exact ⟨_, hafter, by simpa [leave] using hclose⟩
  | @opened hd us recording hread _ hend hrecording =>
    obtain ⟨hblock, hnames⟩ := Header.ofUnit?_named hread
    obtain ⟨ts, hfirst, hlater⟩ := hr.named hnames
    have hus : us <:+ hd.rest := Header.suffix_of_findEnd hend
    exact ⟨hd.first.stop, hlater _ ((List.tail_suffix us).trans hus),
      open_recorded hfirst hblock h hrecording _ us⟩
  | @closed scope outer us d e hs hus he =>
    obtain ⟨front, last, rfl, hstop⟩ := Extent.find_eq_some he
    obtain ⟨hlt, hrest⟩ := (hr.suffix hus).after
    rw [← hstop] at hlt hrest
    rw [hs] at h
    exact ⟨e.stop, hrest, by simpa using leave_recorded h (Nat.le_of_lt hlt)⟩
  | @interrupted scope outer t ts hs hrest _ =>
    rw [hs] at h
    rw [hrest] at hr
    refine ⟨t.start, ?_, by simpa using leave_recorded h hr.laid.1⟩
    rw [report_rest, leave_rest, hrest]
    exact ⟨⟨Nat.le_refl _, hr.laid.2⟩, hr.boundary⟩
  | unfinished d hs =>
    rw [hs] at h
    refine ⟨Text.byteLength text, ⟨Nat.le_refl _, by simp⟩, ?_⟩
    simpa using leave_recorded h hr.laid.le

theorem Reaches.sound (h : Reaches text s s') (hs : Sound text s) : Sound text s' :=
  h.keeps (fun _ hs hmove => hs.move hmove) hs

theorem run_sound (h : Sound text s) : Sound text (s.run text) :=
  (reaches_run text s).sound h

/-- A run ends when nothing is left to read and no scope is open. -/
theorem run_isDone (text : List Char) (s : Scan) : (s.run text).isDone := by
  fun_induction run text s with
  | case1 s hdone => exact hdone
  | case2 s hdone hsize ih => exact ih

theorem ofText_sound (text : String) : Sound text.toList (ofTokens (Token.ofText text)) := by
  refine ⟨0, ⟨Token.ofText_laid text, Token.ofText_boundary text⟩, ?_⟩
  constructor
  · trivial
  all_goals simp [ofTokens]

end PlsqlNav.Scan
