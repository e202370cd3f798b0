import PlsqlNav.Proofs.Outline.WellFormed

/-! Which kinds lie on which levels: packages outside all other declarations, and routines there or right
inside a unit. What lies deeper has no counterpart. -/
namespace PlsqlNav

namespace Symbol.Kind

variable {k : Kind} {level : Nat}

theorem isPackage_counterpart : k.counterpart.isPackage = k.isPackage := by
  cases k <;> rfl

theorem isRoutine_counterpart : k.counterpart.isRoutine = k.isRoutine := by
  cases k <;> rfl

theorem hasCounterpart_of_mismatches {wanted : Flavour} (h : k.mismatches wanted) :
    k.hasCounterpart := by
  cases k with
  | package f | function f | procedure f => rfl
  | var | constant | type | subtype | cursor | exception => contradiction

theorem hasCounterpart_of_declared (h : k.isRoutine ∨ k.isPackage) :
    k.hasCounterpart := by
  cases k with
  | package f | function f | procedure f => rfl
  | var | constant | type | subtype | cursor | exception => rcases h with h | h <;> contradiction

/-- Whether a symbol of this kind may lie on this level. -/
def Fits (k : Kind) (level : Nat) : Prop :=
  (k.isPackage → level = 0) ∧ (k.isRoutine → level ≤ Scan.recordedDepth)

theorem fits_outside : k.Fits 0 := ⟨fun _ => rfl, fun _ => Nat.zero_le _⟩

theorem fits_routine (h : k.isRoutine) (hlevel : level ≤ Scan.recordedDepth) : k.Fits level := by
  refine ⟨fun hpackage => ?_, fun _ => hlevel⟩
  cases k <;> contradiction

theorem fits_plain (h : ¬ k.hasCounterpart) : k.Fits level := by
  cases k with
  | package f | function f | procedure f => exact absurd rfl h
  | var | constant | type | subtype | cursor | exception =>
    exact ⟨fun hpackage => absurd hpackage Bool.false_ne_true,
      fun hroutine => absurd hroutine Bool.false_ne_true⟩

theorem Fits.hasCounterpart_eq_false (h : k.Fits level) (hlevel : Scan.recordedDepth < level) :
    k.hasCounterpart = false := by
  cases k with
  | package f => exact absurd (h.1 rfl) (Nat.ne_of_gt (Nat.zero_lt_of_lt hlevel))
  | function f | procedure f => exact absurd (h.2 rfl) (Nat.not_le_of_gt hlevel)
  | var | constant | type | subtype | cursor | exception => rfl

end Symbol.Kind

namespace Scan

variable {text : List Char} {s s' : Scan} {scope : Scope} {outer : List Scope}

/-- Only the outermost scope may be a specification. -/
def SpecOutside : List Scope → Prop
  | [] => True
  | scope :: outer => (scope.flavour = .spec → outer = []) ∧ SpecOutside outer

structure Layered (s : Scan) : Prop where
  symbols : ∀ (i : Nat) (x : Symbol), s.symbols[i]? = some x → x.kind.Fits x.level
  scopes : SpecOutside s.scopes

namespace Layered

theorem record (h : s.Layered) {recording : Bool} {x : Symbol}
    (hx : recording → x.kind.Fits x.level) : (s.record recording x).Layered := by
  cases recording with
  | false => exact h
  | true =>
    refine ⟨fun i y hy => ?_, h.scopes⟩
    rcases getElem?_push_cases hy with ⟨hy, _⟩ | ⟨_, rfl⟩
    · exact h.symbols i y hy
    · exact hx rfl

theorem setStop (h : s.Layered) (symbol : Option Nat) (n : Nat) : (s.setStop symbol n).Layered := by
  cases symbol with
  | none => exact h
  | some p =>
    refine ⟨fun i y hy => ?_, h.scopes⟩
    obtain ⟨x, hx, rfl⟩ := getElem?_stopped hy
    exact h.symbols i x hx

theorem leave (h : s.Layered) (hs : s.scopes = scope :: outer) (n : Nat) :
    (s.leave scope outer n).Layered := by
  have hscopes := h.scopes
  rw [hs] at hscopes
  exact ⟨(h.setStop scope.symbol n).symbols, hscopes.2⟩

theorem goOn (h : s.Layered) (ts : List Token) (d : Bool) : (s.goOn ts d).Layered :=
  ⟨h.symbols, h.scopes⟩

theorem report (h : s.Layered) (kind : Issue.Kind) (n : Nat) : (s.report kind n).Layered :=
  ⟨h.symbols, h.scopes⟩

/-- A package is recorded outside, and a routine where at most one scope is open. -/
theorem move (h : s.Layered) (hmove : Move text s s') : s'.Layered := by
  have hlevel {k : Symbol.Kind} (hs : s.scopes = []) : k.Fits s.scopes.length := by
    rw [hs]
    exact Symbol.Kind.fits_outside
  have hbody {hd : Header} (hnested : s.scopes = [] ∨ hd.kind.isRoutine) {recording : Bool}
      (hrecording : s.records (some recordedDepth) = recording) (hrec : recording) :
      hd.kind.Fits s.scopes.length := by
    rcases hnested with hs | hroutine
    · exact hlevel hs
    · exact Symbol.Kind.fits_routine hroutine (length_le_of_records (hrecording.trans hrec))
  cases hmove with
  | pass | statement => exact h.goOn _ _
  | unexpected => exact (h.report _ _).goOn _ false
  | declared _ _ hkind => exact (h.record fun _ => Symbol.Kind.fits_plain hkind).goOn _ false
  | @specified scope outer hd stop us recording d hs hread _ _ hrecords =>
    have hroutine : hd.kind.counterpart.isRoutine := Symbol.Kind.isRoutine_counterpart.trans hread.isRoutine
    refine (h.record fun hrecording => Symbol.Kind.fits_routine hroutine ?_).goOn _ d
    rcases (hrecords hrecording).2 with hspec | hdepth
    · -- The scope is a specification and so the only one.
      have hscopes := h.scopes
      rw [hs] at hscopes
      show s.scopes.length ≤ recordedDepth
      rw [hs, hscopes.1 hspec]
      exact Nat.le_refl 1
    · exact hdepth
  | ended hs => exact (h.record fun _ => hlevel hs).goOn _ false
  | cut hs => exact ((h.record fun _ => hlevel hs).goOn _ _).report _ _
  | called _ hnested _ _ hrecording =>
    exact ((h.record (hbody hnested hrecording)).setStop _ _).goOn _ false
  | @opened hd us recording hread hnested _ hrecording =>
    have hrecord := h.record (x := s.symbolOf text hd.first hd.kind hd.name us)
      (hbody hnested hrecording)
    refine ⟨hrecord.symbols, fun hflavour => ?_, h.scopes⟩
    rcases hnested with hs | hroutine
    · exact hs
    · split at hflavour
      · next hpackage =>
        rw [hpackage] at hroutine
        contradiction
      · contradiction
  | closed hs => exact (h.leave hs _).goOn _ false
  | interrupted hs => exact (h.leave hs _).report _ _
  | unfinished d hs => exact ((h.leave hs _).goOn _ d).report _ _

end Layered

theorem run_layered (text : List Char) (h : s.Layered) : (s.run text).Layered :=
  run_keeps (fun _ h hmove => h.move hmove) (List.suffix_refl _) h

end Scan

namespace Outline

theorem ofText_fits (file text : String) (i : (Outline.ofText file text).Id) :
    ((Outline.ofText file text).get i).kind.Fits ((Outline.ofText file text).get i).level := by
  have hstart : (Scan.ofTokens (Token.ofText text)).Layered := by
    refine ⟨fun i x hx => ?_, trivial⟩
    rw [Scan.ofTokens, Array.getElem?_empty] at hx
    contradiction
  exact (Scan.run_layered text.toList hstart).symbols i.val _ (getElem?_symbols i)

theorem ofText_package (file text : String) {i : (Outline.ofText file text).Id}
    (h : ((Outline.ofText file text).get i).kind.isPackage) :
    (Outline.ofText file text).parent? i = none := by
  rw [parent?_eq_none_iff (ofText_rising file text)]
  exact (ofText_fits file text i).1 h

end Outline

end PlsqlNav
