import PlsqlNav.Proofs.Scan.Move

/-! Scans go forward: a step leaves the end of what it was given to read, and takes no issue back. What
every move keeps, a run keeps. -/
namespace PlsqlNav.Scan

variable {text : List Char} {s s' : Scan} {ts : List Token}

@[simp] theorem goOn_issues (s : Scan) (ts : List Token) (d : Bool) :
    (s.goOn ts d).issues = s.issues := rfl

@[simp] theorem record_issues (s : Scan) (recording : Bool) (x : Symbol) :
    (s.record recording x).issues = s.issues := by cases recording <;> rfl

@[simp] theorem setStop_issues (s : Scan) (symbol : Option Nat) (n : Nat) :
    (s.setStop symbol n).issues = s.issues := by cases symbol <;> rfl

@[simp] theorem leave_issues (s : Scan) (scope : Scope) (outer : List Scope) (n : Nat) :
    (s.leave scope outer n).issues = s.issues := s.setStop_issues scope.symbol n

theorem find_suffix {inner : Nat} {d : Bool} {e : Extent} (h : Extent.find inner d ts = some e) :
    e.rest <:+ ts := by
  obtain ⟨front, last, hts, _⟩ := Extent.find_eq_some h
  rw [hts]
  exact (List.suffix_cons last e.rest).trans (List.suffix_append front _)

theorem Move.rest_suffix (h : Move text s s') : s'.rest <:+ s.rest := by
  have hbehind {hd : Header} {e : Header.End} (hread : Header.ofUnit? s.rest = some hd)
      (hend : Header.findEnd 0 false hd.rest = e) : e.tokens <:+ s.rest :=
    (Header.suffix_of_findEnd hend).trans (Header.ofUnit?_named hread).2.suffix
  cases h with
  | pass => exact List.tail_suffix s.rest
  | statement hts => exact (tail_fromSemicolon_suffix _).trans hts
  | @unexpected t ts hrest =>
    rw [hrest]
    exact (Unexpected.skip_suffix t ts).trans (List.suffix_cons t ts)
  | declared _ hnames _ => exact (tail_fromSemicolon_suffix _).trans hnames.suffix
  | specified _ d _ hread hstops hus =>
    exact (hstops.suffix_of_left hus).trans hread.named.suffix
  | ended _ hread hend => exact (List.tail_suffix _).trans (hbehind hread hend)
  | cut _ hread hend => exact hbehind hread hend
  | called hread _ hend _ =>
    exact (tail_fromSemicolon_suffix _).trans ((List.tail_suffix _).trans (hbehind hread hend))
  | opened hread _ hend => exact (List.tail_suffix _).trans (hbehind hread hend)
  | closed _ hus he => exact (find_suffix he).trans hus
  | interrupted => simp
  | unfinished => exact List.nil_suffix

theorem Move.keeps_issue (h : Move text s s') {i : Issue} (hi : i ∈ s.issues) : i ∈ s'.issues := by
  cases h with
  | pass | statement => exact hi
  | declared | specified | ended | called | opened | closed => simpa using hi
  | unexpected | cut | interrupted | unfinished =>
    exact Array.mem_push_of_mem _ (by simpa using hi)

theorem step_suffix (text : List Char) (s : Scan) : (s.step text).rest <:+ s.rest :=
  (step_move text s).rest_suffix

/-- The scans that a run of `s` goes through. -/
inductive Reaches (text : List Char) (s : Scan) : Scan → Prop
  | refl : Reaches text s s
  | step {s₁ : Scan} : Reaches text s s₁ → Reaches text s (s₁.step text)

theorem Reaches.rest_suffix (h : Reaches text s s') : s'.rest <:+ s.rest := by
  induction h with
  | refl => exact List.suffix_refl _
  | step _ ih => exact (step_suffix text _).trans ih

/-- What all moves keep, all scans of a run have. -/
theorem Reaches.keeps {P : Scan → Prop}
    (hmove : ∀ {s₁ s₂ : Scan}, s₁.rest <:+ s.rest → P s₁ → Move text s₁ s₂ → P s₂)
    (h : Reaches text s s') (hstart : P s) : P s' := by
  induction h with
  | refl => exact hstart
  | step hreach ih => exact hmove hreach.rest_suffix ih (step_move text _)

theorem Reaches.trans {s'' : Scan} (h : Reaches text s s') (h' : Reaches text s' s'') :
    Reaches text s s'' := by
  induction h' with
  | refl => exact h
  | step _ ih => exact ih.step

theorem reaches_run (text : List Char) (s : Scan) : Reaches text s (s.run text) := by
  fun_induction run text s with
  | case1 => exact .refl
  | case2 s hdone hsize ih => exact Reaches.refl.step.trans ih

/-- The run may be that of a scan which has come some way through the tokens `ts`. -/
theorem run_keeps {P : Scan → Prop}
    (hmove : ∀ {s₁ s₂ : Scan}, s₁.rest <:+ ts → P s₁ → Move text s₁ s₂ → P s₂)
    (hs : s.rest <:+ ts) (h : P s) : P (s.run text) :=
  (reaches_run text s).keeps (fun hrest => hmove (hrest.trans hs)) h

theorem run_done (h : s.isDone) : s.run text = s := by
  rw [run, dif_pos h]

theorem run_notDone (h : ¬ s.isDone) : s.run text = (s.step text).run text := by
  rw [run, dif_neg h]

theorem not_isDone (hrest : s.rest ≠ []) : ¬ s.isDone := by
  rw [isDone, List.isEmpty_eq_false_iff.mpr hrest, Bool.false_and]
  exact Bool.false_ne_true

/-- A run goes on from each scan that it comes to with tokens left. -/
theorem Reaches.run_eq (h : Reaches text s s') (hrest : s'.rest ≠ []) : s.run text = s'.run text := by
  induction h with
  | refl => rfl
  | @step s₁ _ ih =>
    have hbefore : s₁.rest ≠ [] := by
      intro hnil
      have hsuffix := step_suffix text s₁
      rw [hnil, List.suffix_nil] at hsuffix
      exact hrest hsuffix
    rw [ih hbefore, run_notDone (not_isDone hbefore)]

end PlsqlNav.Scan
