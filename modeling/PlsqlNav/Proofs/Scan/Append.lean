import PlsqlNav.Proofs.Scan.Finished
import PlsqlNav.Proofs.Scan.Progress
import PlsqlNav.Proofs.Token.Placement

/-! A scan before more text. A scan that finds each of its units complete reads its tokens in the same
way where more tokens follow, and leaves these to read. -/
namespace PlsqlNav

namespace Text

theorem takeBytes_append_of_le {n : Nat} {cs : List Char} (h : n ≤ byteLength cs)
    (ds : List Char) : takeBytes n (cs ++ ds) = takeBytes n cs := by
  induction cs generalizing n with
  | nil =>
    have hn : n = 0 := Nat.le_zero.mp h
    cases ds with
    | nil => rfl
    | cons d ds =>
      have := d.utf8Size_pos
      rw [List.nil_append, takeBytes.eq_2, if_neg (by omega), takeBytes]
  | cons c cs ih =>
    rw [byteLength] at h
    rw [List.cons_append, takeBytes, takeBytes]
    split
    · rw [ih (by omega)]
    · rfl

/-- What stands in a text stands in the same place before more text. -/
theorem slice_before {cs : List Char} {start stop : Nat} (hstart : IsBoundary cs start)
    (hstop : stop ≤ byteLength cs) (ds : List Char) :
    slice start stop (cs ++ ds) = slice start stop cs := by
  obtain ⟨front, back, rfl, rfl⟩ := hstart
  rw [byteLength_append] at hstop
  rw [slice, slice, List.append_assoc, dropBytes_append, dropBytes_append,
    takeBytes_append_of_le (by omega)]

end Text

namespace Scan
variable {text : List Char} (text' : List Char) {s : Scan} {t : Token} {ts : List Token}
  {scope : Scope} {outer : List Scope} (more : List Token)

/-- Tokens that end with a semicolon and lie in the text. -/
structure Complete (text : List Char) (ts : List Token) : Prop where
  finished : Token.Finished ts
  boundary : ∀ t ∈ ts, Text.IsBoundary text t.start

theorem Complete.suffix {us : List Token} (h : Complete text ts) (hs : us <:+ ts) :
    Complete text us :=
  ⟨h.finished.suffix hs, fun t ht => h.boundary t (hs.subset ht)⟩

theorem Complete.tail (h : Complete text (t :: ts)) : Complete text ts :=
  h.suffix (List.suffix_cons t ts)

/-- The scan with more tokens after those it has to read. -/
def before (more : List Token) (s : Scan) : Scan := { s with rest := s.rest ++ more }

/-- A scan that has found something incomplete, or will, since nothing is left for its open scopes. -/
def Broken (s : Scan) : Prop :=
  (∃ i ∈ s.issues, i.kind ≠ .unexpectedToken) ∨ (s.rest = [] ∧ s.scopes ≠ [])

theorem broken_report {kind : Issue.Kind} (h : kind ≠ .unexpectedToken) (n : Nat) :
    (s.report kind n).Broken :=
  .inl ⟨⟨n, kind⟩, Array.mem_push_self, h⟩

section Before

@[simp] theorem before_rest : (s.before more).rest = s.rest ++ more := rfl

@[simp] theorem before_scopes : (s.before more).scopes = s.scopes := rfl

@[simp] theorem before_symbols : (s.before more).symbols = s.symbols := rfl

theorem before_record (recording : Bool) (x : Symbol) :
    (s.before more).record recording x = (s.record recording x).before more := by
  cases recording <;> rfl

theorem before_setStop (symbol : Option Nat) (n : Nat) :
    (s.before more).setStop symbol n = (s.setStop symbol n).before more := by
  cases symbol <;> rfl

theorem before_leave (n : Nat) :
    (s.before more).leave scope outer n = (s.leave scope outer n).before more := by
  rw [leave, leave, before_setStop]
  rfl

theorem before_symbolOf (hfirst : Text.IsBoundary text t.start) (kind : Symbol.Kind) (name : String)
    (hts : ∀ u ∈ ts, Text.IsBoundary text u.start) (hne : ts ≠ []) :
    (s.before more).symbolOf (text ++ text') t kind name (ts ++ more) =
      s.symbolOf text t kind name ts := by
  obtain ⟨u, us, rfl⟩ := List.exists_cons_of_ne_nil hne
  rw [symbolOf, symbolOf, definition, definition]
  have hslice := Text.slice_before hfirst (hts u List.mem_cons_self).le text'
  simp only [List.cons_append, startOf, hslice]
  rfl

theorem before_declare (ht : Text.IsBoundary text t.start) (kind : Symbol.Kind) (name : String)
    (h : Complete text ts) (hne : ts ≠ []) :
    (s.before more).declare (text ++ text') scope t kind name (ts ++ more) =
      (s.declare text scope t kind name ts).before more := by
  obtain ⟨hstop, hstopne⟩ := fromSemicolon_append more h.finished hne
  have hboundary := (h.suffix (fromSemicolon_suffix ts)).boundary
  rw [declare, declare, hstop, before_symbolOf text' more ht kind name hboundary hstopne,
    List.tail_append_of_ne_nil hstopne, before_record]
  rfl

/-- With a scope open, a statement that runs to the end of the tokens leaves the scope open. -/
theorem before_stepOver (h : Complete text (t :: ts)) (ht : t.isPunct ';' = false)
    (hs : s.scopes ≠ []) :
    (s.before more).stepOver t (ts ++ more) = (s.stepOver t ts).before more ∨
      (s.stepOver t ts).Broken := by
  rcases Unexpected.skip_append more h.finished ht with hskip | hskip
  · left
    rw [stepOver, hskip]
    rfl
  · exact .inr (.inr ⟨hskip, hs⟩)

theorem before_leaveAt {inner : Nat} {d : Bool} (h : Complete text ts) :
    (s.before more).leaveAt (text ++ text') scope outer (Extent.find inner d (ts ++ more)) =
        (s.leaveAt text scope outer (Extent.find inner d ts)).before more ∨
      (s.leaveAt text scope outer (Extent.find inner d ts)).Broken := by
  rcases Extent.find_append more inner d h.finished with hfind | hfind
  · cases he : Extent.find inner d ts with
    | none => exact .inr (broken_report (by decide) _)
    | some e =>
      left
      rw [hfind, he, Option.map_some, leaveAt, leaveAt, before_leave]
      rfl
  · rw [hfind]
    exact .inr (broken_report (by decide) _)

theorem before_enter (recording : Bool) (hd : Header)
    (hfirst : Text.IsBoundary text hd.first.start) (h : Complete text hd.rest) :
    (s.before more).enter (text ++ text') recording (hd.before more) =
        (s.enter text recording hd).before more ∨ (s.enter text recording hd).Broken := by
  have hsuffix := Header.findEnd_suffix 0 false hd.rest
  have hsymbol (kind : Symbol.Kind) {us : List Token} (hus : us <:+ hd.rest) (hne : us ≠ []) :=
    before_symbolOf (s := s) text' more hfirst kind hd.name (h.suffix hus).boundary hne
  rcases Header.findEnd_append more 0 false with ⟨hend, hne⟩ | ⟨d, hend⟩
  · rw [enter, enter]
    dsimp only [Header.before]
    rw [hend]
    cases he : Header.findEnd 0 false hd.rest with
    | semicolon us =>
      simp only [he, Header.End.tokens] at hsuffix hne
      left
      dsimp only [Header.End.before]
      rw [before_scopes, hsymbol _ hsuffix hne, List.tail_append_of_ne_nil hne, before_record]
      rfl
    | cut us d =>
      simp only [he, Header.End.tokens] at hsuffix hne
      left
      dsimp only [Header.End.before]
      rw [before_scopes, hsymbol _ hsuffix hne, before_record]
      split <;> rfl
    | body us =>
      simp only [he, Header.End.tokens] at hsuffix hne
      have hafter : Complete text us.tail := h.suffix ((List.tail_suffix us).trans hsuffix)
      dsimp only [Header.End.before]
      rw [hsymbol _ hsuffix hne, List.tail_append_of_ne_nil hne, before_record, before_symbols]
      generalize us.tail = after at hafter
      cases after with
      | nil =>
        -- The scope opens at the end of the tokens.
        exact .inr (.inr ⟨rfl, List.cons_ne_nil _ _⟩)
      | cons u after =>
        left
        obtain ⟨hlast, hlastne⟩ := fromSemicolon_append more hafter.finished (List.cons_ne_nil u after)
        obtain ⟨v, vs, hv⟩ := List.exists_cons_of_ne_nil hlastne
        rw [hlast, hv, List.cons_append, List.head?_cons, List.head?_cons, List.cons_append,
          List.tail_cons, List.tail_cons]
        split
        · rw [before_setStop]
          rfl
        · rfl
  · -- The header runs to the end of the tokens.
    right
    rw [enter, hend]
    dsimp only
    split
    · next hnested =>
      refine .inr ⟨rfl, ?_⟩
      rw [goOn_scopes, record_scopes]
      intro hnil
      rw [hnil] at hnested
      contradiction
    · exact broken_report (by decide) _

/-- One step in a scope: the same before more tokens, unless it shows that something is incomplete. -/
theorem before_stepIn (hs : s.scopes ≠ []) (h : Complete text s.rest) (hne : s.rest ≠ []) :
    (s.before more).stepIn (text ++ text') scope outer = (s.stepIn text scope outer).before more ∨
      (s.stepIn text scope outer).Broken := by
  obtain ⟨t, ts, hrest⟩ := List.exists_cons_of_ne_nil hne
  rw [hrest] at h
  have hmore : (s.before more).rest = t :: (ts ++ more) := by
    rw [before_rest, hrest, List.cons_append]
  have ht := h.boundary t List.mem_cons_self
  rw [stepIn, stepIn, hrest, hmore]
  dsimp only
  split
  · exact .inl rfl
  split
  · next hsemi _ => exact before_stepOver more h (Bool.not_eq_true _ ▸ hsemi) hs
  · next hsemi hname =>
    rw [Bool.not_eq_true, Bool.not_eq_false'] at hname
    have hover := before_stepOver more h (Bool.not_eq_true _ ▸ hsemi) hs
    have htsne : ts ≠ [] := h.finished.ne_nil_of_isName hname
    cases Lead.of t with
    | begin => exact before_leaveAt text' more h.tail
    | finish => exact before_leaveAt text' more h
    | create => exact .inr (broken_report (by decide) _)
    | pragma =>
      left
      obtain ⟨hstop, hstopne⟩ := fromSemicolon_append more h.tail.finished htsne
      dsimp only
      rw [hstop, List.tail_append_of_ne_nil hstopne]
      rfl
    | routine kind =>
      dsimp only
      rw [Header.qualifiedName_append more h.tail.finished htsne]
      cases hq : Header.qualifiedName ts with
      | none => exact hover
      | some p =>
        have hafter := h.tail.suffix (Header.qualifiedName_suffix hq)
        dsimp only [Option.map_some]
        cases scope.flavour with
        | spec =>
          left
          exact before_declare text' more ht _ p.1 hafter
            (Header.qualifiedName_ne_nil h.tail.finished hq)
        | body => exact before_enter text' more _ ⟨t, kind .body, p.1, p.2⟩ ht hafter
    | named kind =>
      obtain ⟨u, us, rfl⟩ := List.exists_cons_of_ne_nil htsne
      rw [List.cons_append] at hover ⊢
      dsimp only
      split
      · next hu =>
        left
        exact before_declare text' more ht kind u.name h.tail.tail
          (h.tail.finished.ne_nil_of_isName hu)
      · exact hover
    | other =>
      left
      obtain ⟨u, us, rfl⟩ := List.exists_cons_of_ne_nil htsne
      exact before_declare text' more ht _ t.name h.tail htsne

theorem before_stepOut (h : Complete text s.rest) (hne : s.rest ≠ []) :
    (s.before more).stepOut (text ++ text') = (s.stepOut text).before more ∨
      (s.stepOut text).Broken := by
  obtain ⟨t, ts, hrest⟩ := List.exists_cons_of_ne_nil hne
  rw [stepOut, stepOut]
  rw [before_rest, Header.ofUnit?_append more h.finished hne]
  cases hu : Header.ofUnit? s.rest with
  | none =>
    left
    rw [hrest]
    rfl
  | some hd =>
    obtain ⟨_, us, hus, hsuffix⟩ := Header.ofUnit?_eq_some hu
    rw [hus] at h
    exact before_enter text' more true hd (h.boundary hd.first List.mem_cons_self) (h.tail.suffix hsuffix)

theorem before_step (h : Complete text s.rest) (hne : s.rest ≠ []) :
    (s.before more).step (text ++ text') = (s.step text).before more ∨ (s.step text).Broken := by
  rw [step, step, before_scopes]
  cases hs : s.scopes with
  | nil => exact before_stepOut text' more h hne
  | cons scope outer => exact before_stepIn text' more (by rw [hs]; exact List.cons_ne_nil _ _) h hne

end Before

section Run

/-- Whatever is incomplete shows among the issues of the whole run. -/
theorem run_broken (text : List Char) (h : s.Broken) :
    ∃ i ∈ (s.run text).issues, i.kind ≠ .unexpectedToken := by
  fun_induction run text s with
  | case1 s hdone =>
    rw [isDone, Bool.and_eq_true, List.isEmpty_iff, List.isEmpty_iff] at hdone
    rcases h with h | ⟨_, hscopes⟩
    · exact h
    · exact absurd hdone.2 hscopes
  | case2 s hdone hsize ih =>
    apply ih
    rcases h with ⟨i, hi, hkind⟩ | ⟨hrest, hscopes⟩
    · exact .inl ⟨i, (step_move text s).keeps_issue hi, hkind⟩
    · obtain ⟨scope, outer, hs⟩ := List.exists_cons_of_ne_nil hscopes
      rw [step, hs]
      dsimp only
      rw [stepIn, hrest]
      exact broken_report (by decide) _

/-- A run that finds everything complete is the same before more tokens, and goes on with these. -/
theorem run_before (h : Complete text s.rest)
    (hok : ∀ i ∈ (s.run text).issues, i.kind = .unexpectedToken) :
    (s.before more).run (text ++ text') = ((s.run text).before more).run (text ++ text') := by
  have hwhole : ¬ s.Broken := by
    intro hb
    obtain ⟨i, hi, hkind⟩ := run_broken text hb
    exact hkind (hok i hi)
  fun_induction run text s with
  | case1 s hdone => rfl
  | case2 s hdone hsize ih =>
    have hne : s.rest ≠ [] := by
      intro hnil
      apply hwhole
      refine .inr ⟨hnil, fun hs => hdone ?_⟩
      rw [isDone, hnil, hs]
      rfl
    have hnext : ¬ (s.step text).Broken := by
      intro hb
      obtain ⟨i, hi, hkind⟩ := run_broken text hb
      exact hkind (hok i hi)
    have hstep := (before_step text' more h hne).resolve_right hnext
    have hmore : ¬ (s.before more).isDone := by
      simp [isDone, before, hne]
    rw [run_notDone hmore, hstep]
    exact ih (h.suffix (step_suffix text s)) hok hnext

end Run

end Scan

end PlsqlNav
