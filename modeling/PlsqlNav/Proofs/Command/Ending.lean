import PlsqlNav.Command.Run
import PlsqlNav.Proofs.Outline.WellFormed
import PlsqlNav.Proofs.Text.Position

/-! How a command ends. All that may fail is done before anything is printed, so a failure leaves the
console as it was, and a query without a result leaves the output empty. -/
namespace PlsqlNav

theorem Failure.exitCode_eq (f : Failure) : f.exitCode = 1 ∨ f.exitCode = 2 := by
  cases f <;> simp [exitCode]

namespace Session

variable {α β : Type} {a : α} {b : β} {x : Session α}

theorem runOn_bind (x : Session α) (k : α → Session β) (c : Console) :
    (x >>= k).runOn c = match x.runOn c with
      | (.ok a, c') => (k a).runOn c'
      | (.error f, c') => (.error f, c') := by
  change (match x.runOn c with | (r, c') => (ExceptT.bindCont k r).run c') = _
  obtain ⟨result, c'⟩ := x.runOn c
  cases result <;> rfl

section Gives

/-- The session gives `a` and does not fail, whatever it prints. -/
def Gives (x : Session α) (a : α) : Prop := ∀ c, ∃ c', x.runOn c = (.ok a, c')

theorem gives_pure (a : α) : Gives (pure a) a := fun c => ⟨c, rfl⟩

theorem gives_print (text : String) : (print text).Gives () := fun _ => ⟨_, rfl⟩

theorem gives_warn (text : String) : (warn text).Gives () := fun _ => ⟨_, rfl⟩

theorem Gives.bind {k : α → Session β} (h : x.Gives a) (hk : (k a).Gives b) : (x >>= k).Gives b := by
  intro c
  obtain ⟨c₁, hx⟩ := h c
  obtain ⟨c₂, hnext⟩ := hk c₁
  refine ⟨c₂, ?_⟩
  rw [runOn_bind, hx]
  exact hnext

theorem gives_forM {k : α → Session PUnit} (hk : ∀ a, (k a).Gives ()) (as : List α) :
    (as.forM k).Gives () := by
  induction as with
  | nil => exact gives_pure ()
  | cons a as ih => exact (hk a).bind ih

theorem gives_forM_option {k : α → Session PUnit} (hk : ∀ a, (k a).Gives ()) (found : Option α) :
    (found.forM k).Gives () := by
  cases found with
  | none => exact gives_pure ()
  | some a => exact hk a

end Gives

section Ends

/-- How a session ends that looks for something. If that fails, nothing is printed. If nothing is
found, the exit code is 1 and there are only warnings. -/
def Ends (x : Session Nat) : Except Failure Bool → Prop
  | .error f => ∀ c, x.runOn c = (.error f, c)
  | .ok false => ∀ c, ∃ err, x.runOn c = (.ok 1, { c with err })
  | .ok true => x.Gives 0

/-- What may fail without printing anything comes first. -/
theorem Ends.after {e : Except Failure α} {k : α → Session Nat} {found : α → Except Failure Bool}
    (h : ∀ a, (k a).Ends (found a)) : ((liftM e : Session α) >>= k).Ends (e >>= found) := by
  cases e with
  | error f => exact fun _ => rfl
  | ok a => exact h a

variable {x : Session Nat} {found : Except Failure Bool}

theorem Ends.result_eq (h : x.Ends found) (c : Console) :
    (x.runOn c).1 = found.map fun isFound => if isFound then 0 else 1 := by
  match found, h with
  | .error f, h =>
    rw [h c]
    rfl
  | .ok false, h =>
    obtain ⟨err, hx⟩ := h c
    rw [hx]
    rfl
  | .ok true, h =>
    obtain ⟨c', hx⟩ := h c
    rw [hx]
    rfl

theorem Ends.out_eq (h : x.Ends found) (hfound : found ≠ .ok true) (c : Console) :
    (x.runOn c).2.out = c.out := by
  match found, h with
  | .error f, h => rw [h c]
  | .ok false, h =>
    obtain ⟨err, hx⟩ := h c
    rw [hx]
  | .ok true, _ => exact absurd rfl hfound

end Ends

end Session

/-- A location is misused if lines and columns do not count from one, or if a file that can be read
has fewer lines. It has one more than it has newlines. -/
def Location.IsMisused (disk : Disk) (l : Location) : Prop :=
  l.line = 0 ∨ l.column = 0 ∨
    ∃ text, disk.read l.file = .ok text ∧ text.toList.count '\n' + 1 < l.line

def Command.location? : Command → Option Location
  | symbols _ | params _ _ => none
  | goto l _ _ | switch l | complete l => some l

namespace Command.Context

open Session

variable {α β : Type} {γ : Spot → Type} {c : Context} {cmd : Command} {l : Location}

section Ends

/-- Looks for something from a location, and tells whether it is there. -/
def findsFrom (c : Context) (l : Location) (search : ∀ spot, Except Failure (Option (γ spot))) :
    Except Failure Bool :=
  (c.spotAt l).bind fun spot => (search spot).bind fun found => .ok found.isSome

/-- Looks for what a command is about, and tells whether it is there. -/
def finds (c : Context) : Command → Except Failure Bool
  | .symbols file => (c.outlineOf file).bind fun _ => .ok true
  | .goto l wanted _ => c.findsFrom l fun spot => answerOf (c.navigator.goto spot wanted)
  | .switch l => c.findsFrom l fun spot => answerOf (c.navigator.switch spot)
  | .complete l => c.findsFrom l fun spot => answerOf (c.navigator.complete spot.cursor)
  | .params file name =>
    (c.outlineOf file).bind fun o =>
      .ok (o.everySymbol.any fun i => (o.get i).kind.isRoutine && (o.get i).isNamed name)

theorem outline_ends (o : Outline) : (c.outline o).Ends (.ok true) :=
  (gives_forM (fun _ => gives_print _) _).bind
    ((gives_forM (fun _ => gives_warn _) _).bind (gives_pure 0))

theorem result_ends (doc : Bool) (found : Option Hit) :
    (c.result doc found).Ends (.ok found.isSome) := by
  cases found with
  | none => exact fun c => ⟨c.err, rfl⟩
  | some h =>
    exact (gives_print _).bind ((gives_forM_option (fun _ => gives_print _) _).bind (gives_pure 0))

theorem members_ends (found : Option (List Hit)) :
    (c.members found).Ends (.ok found.isSome) := by
  cases found with
  | none => exact fun c => ⟨c.err, rfl⟩
  | some hits => exact (gives_forM (fun _ => gives_print _) hits).bind (gives_pure 0)

theorem parameters_ends (o : Outline) (name : String) : (c.parameters o name).Ends
    (.ok (o.everySymbol.any fun i => (o.get i).kind.isRoutine && (o.get i).isNamed name)) := by
  rw [parameters, ← List.isSome_find?]
  cases o.everySymbol.find? _ with
  | none => exact fun _ => ⟨_, rfl⟩
  | some i => exact (gives_forM (fun _ => gives_print _) _).bind (gives_pure 0)

/-- A query first finds its spot, then what it looks for, and then tells that. -/
theorem query_ends {tell : ∀ spot, Option (γ spot) → Session Nat}
    (htell : ∀ spot found, (tell spot found).Ends (.ok found.isSome))
    (search : ∀ spot, Except Failure (Option (γ spot))) :
    Session.Ends (do
      let spot ← c.spotAt l
      let found ← search spot
      tell spot found) (c.findsFrom l search) :=
  .after fun spot => .after (htell spot)

theorem found_ends (doc : Bool) {o : Outline} (found : Option (Found o)) :
    (c.result doc (found.map Found.hit)).Ends (.ok found.isSome) := by
  have h := c.result_ends doc (found.map Found.hit)
  rwa [Option.isSome_map] at h

theorem run_ends (c : Context) (cmd : Command) : (c.run cmd).Ends (c.finds cmd) := by
  cases cmd with
  | symbols file => exact .after outline_ends
  | goto l wanted doc => exact query_ends (fun _ => found_ends doc) _
  | switch l => exact query_ends (fun _ => found_ends false) _
  | complete l => exact query_ends (fun _ => members_ends) _
  | params file name => exact .after fun o => parameters_ends o name

end Ends

section Finds

/-- What there has to be for the exit code 0: for a query the result of the search, also if that is
an empty list, and otherwise the file, with a routine of the name that is asked for. -/
def Finds (c : Context) : Command → Prop
  | .symbols file => ∃ text, c.disk.read file = .ok text
  | .goto l wanted _ => ∃ spot found, c.spotAt l = .ok spot ∧
    answerOf (c.navigator.goto spot wanted) = .ok (some found)
  | .switch l => ∃ spot found, c.spotAt l = .ok spot ∧
    answerOf (c.navigator.switch spot) = .ok (some found)
  | .complete l => ∃ spot hits, c.spotAt l = .ok spot ∧
    answerOf (c.navigator.complete spot.cursor) = .ok (some hits)
  | .params file name => ∃ text, c.disk.read file = .ok text ∧
    ∃ x ∈ (Outline.ofText file.text text).symbols, x.kind.isRoutine ∧ x.isNamed name

theorem outlineOf_eq_ok {file : Path} {o : Outline} : c.outlineOf file = .ok o ↔
    ∃ text, c.disk.read file = .ok text ∧ Outline.ofText file.text text = o := by
  rw [outlineOf, textOf]
  cases c.disk.read file <;> simp [Except.map]

/-- The symbols of a text are those that its outline goes through. -/
theorem any_everySymbol (file text : String) (p : Symbol → Bool) :
    let o := Outline.ofText file text
    (o.everySymbol.any fun i => p (o.get i)) ↔ ∃ x ∈ o.symbols, p x := by
  intro o
  rw [Outline.everySymbol_eq_ids (Outline.ofText_rising file text), List.any_eq_true]
  constructor
  · rintro ⟨i, _, hi⟩
    exact ⟨o.get i, Array.getElem_mem i.isLt, hi⟩
  · rintro ⟨x, hx, hp⟩
    obtain ⟨i, hi, rfl⟩ := Array.mem_iff_getElem.mp hx
    exact ⟨⟨i, hi⟩, List.mem_finRange _, hp⟩

theorem bind_eq_ok {e : Except Failure α} {k : α → Except Failure β} {b : β} :
    e.bind k = .ok b ↔ ∃ a, e = .ok a ∧ k a = .ok b := by
  cases e <;> simp [Except.bind]

theorem findsFrom_eq_true {search : ∀ spot, Except Failure (Option (γ spot))} :
    c.findsFrom l search = .ok true ↔
      ∃ spot found, c.spotAt l = .ok spot ∧ search spot = .ok (some found) := by
  simp only [findsFrom, bind_eq_ok]
  constructor
  · rintro ⟨spot, hspot, found, hfound, hsome⟩
    obtain ⟨a, rfl⟩ := Option.isSome_iff_exists.mp (Except.ok.inj hsome)
    exact ⟨spot, a, hspot, hfound⟩
  · rintro ⟨spot, a, hspot, hfound⟩
    exact ⟨spot, hspot, some a, hfound, rfl⟩

theorem finds_eq_true : c.finds cmd = .ok true ↔ c.Finds cmd := by
  cases cmd with
  | symbols file =>
    simp only [finds, Finds, bind_eq_ok, outlineOf_eq_ok]
    grind
  | goto | switch | complete => exact findsFrom_eq_true
  | params file name =>
    have hany (text : String) := any_everySymbol file.text text fun x =>
      x.kind.isRoutine && x.isNamed name
    simp only [Bool.and_eq_true] at hany
    simp only [finds, Finds, bind_eq_ok, outlineOf_eq_ok, Except.ok.injEq]
    constructor
    · rintro ⟨_, ⟨text, hread, rfl⟩, hfound⟩
      exact ⟨text, hread, (hany text).mp hfound⟩
    · rintro ⟨text, hread, hfound⟩
      exact ⟨_, ⟨text, hread, rfl⟩, (hany text).mpr hfound⟩

end Finds

section Usage

theorem spotAt_of_zero (h : l.line = 0 ∨ l.column = 0) :
    c.spotAt l = .error (.usage "--line and --col are 1-based") := by
  rw [spotAt, if_pos h]
  rfl

theorem spotAt_of_unread (h : ¬ (l.line = 0 ∨ l.column = 0)) {e : IoError}
    (hread : c.disk.read l.file = .error e) :
    c.spotAt l = .error (.io ⟨e.cause, l.file.text ++ ": " ++ e.text⟩) := by
  rw [spotAt, if_neg h, textOf, hread]
  rfl

theorem spotAt_of_past {text : String} (h : ¬ (l.line = 0 ∨ l.column = 0))
    (hread : c.disk.read l.file = .ok text) (hpast : text.toList.count '\n' + 1 < l.line) :
    c.spotAt l =
      .error (.usage ("--line " ++ toString l.line ++ " is past the end of " ++ l.file.text)) := by
  have hline : Text.lineAt text l.line = none := by
    rw [← Option.not_isSome_iff_eq_none, Text.lineAt_isSome_iff]
    omega
  rw [spotAt, if_neg h, textOf, hread]
  dsimp only [bind, Except.bind]
  rw [hline]
  rfl

theorem spotAt_of_placed {text : String} (h : ¬ (l.line = 0 ∨ l.column = 0))
    (hread : c.disk.read l.file = .ok text) (hplaced : l.line ≤ text.toList.count '\n' + 1) :
    ∃ spot, c.spotAt l = .ok spot := by
  have hin : 1 ≤ l.line ∧ l.line ≤ text.toList.count '\n' + 1 := ⟨by omega, hplaced⟩
  obtain ⟨line, hline⟩ := Option.isSome_iff_exists.mp ((Text.lineAt_isSome_iff text _).mpr hin)
  obtain ⟨offset, hoffset⟩ :=
    Option.isSome_iff_exists.mp ((Text.offsetOf_isSome_iff text _ l.column).mpr hin)
  refine ⟨⟨Outline.ofText l.file.text text, offset, Cursor.ofLine line (l.column - 1)⟩, ?_⟩
  rw [spotAt, if_neg h, textOf, hread]
  dsimp only [bind, Except.bind]
  rw [hline, hoffset]
  rfl

theorem spotAt_misused : (∃ f, c.spotAt l = .error f ∧ f.exitCode = 2) ↔ l.IsMisused c.disk := by
  rw [Location.IsMisused, ← or_assoc]
  by_cases h : l.line = 0 ∨ l.column = 0
  · exact iff_of_true ⟨_, spotAt_of_zero h, rfl⟩ (.inl h)
  rw [or_iff_right h]
  cases hread : c.disk.read l.file with
  | error e =>
    have hunread := spotAt_of_unread h hread
    refine iff_of_false ?_ ?_
    · rintro ⟨f, hf, hcode⟩
      cases hf.symm.trans hunread
      cases hcode
    · rintro ⟨text, htext, _⟩
      contradiction
  | ok text =>
    obtain hpast | hplaced := Nat.lt_or_ge (text.toList.count '\n' + 1) l.line
    · exact iff_of_true ⟨_, spotAt_of_past h hread hpast, rfl⟩ ⟨text, rfl, hpast⟩
    · obtain ⟨spot, hspot⟩ := spotAt_of_placed h hread hplaced
      refine iff_of_false ?_ ?_
      · rintro ⟨f, hf, _⟩
        cases hf.symm.trans hspot
      · rintro ⟨_, ⟨⟩, hpast⟩
        exact Nat.not_lt.mpr hplaced hpast

theorem answerOf_exitCode {search : Search Cache α} {f : Failure} (h : answerOf search = .error f) :
    f.exitCode = 1 := by
  rw [answerOf] at h
  split at h
  · contradiction
  · cases h
    rfl

theorem outlineOf_exitCode {file : Path} {f : Failure} (h : c.outlineOf file = .error f) :
    f.exitCode = 1 := by
  rw [outlineOf, textOf] at h
  split at h
  · contradiction
  · cases h
    rfl

theorem bind_eq_error {e : Except Failure α} {k : α → Except Failure β} {f : Failure} :
    e.bind k = .error f ↔ e = .error f ∨ ∃ a, e = .ok a ∧ k a = .error f := by
  cases e <;> simp [Except.bind]

/-- Only the location of a query can be misused. -/
theorem findsFrom_misused {search : ∀ spot, Search Cache (Option (γ spot))} :
    (∃ f, c.findsFrom l (fun spot => answerOf (search spot)) = .error f ∧ f.exitCode = 2) ↔
      l.IsMisused c.disk := by
  rw [← spotAt_misused]
  refine exists_congr fun f => and_congr_left fun hcode => ?_
  rw [findsFrom, bind_eq_error, or_iff_left]
  rintro ⟨spot, _, hsearch⟩
  obtain hanswer | ⟨_, _, hfound⟩ := bind_eq_error.mp hsearch
  · rw [answerOf_exitCode hanswer] at hcode
    contradiction
  · contradiction

theorem finds_misused : (∃ f, c.finds cmd = .error f ∧ f.exitCode = 2) ↔
    ∃ l, cmd.location? = some l ∧ l.IsMisused c.disk := by
  have houtline {file : Path} {k : Outline → Bool} :
      ¬ ∃ f, ((c.outlineOf file).bind fun o => .ok (k o)) = .error f ∧ f.exitCode = 2 := by
    rintro ⟨f, hf, hcode⟩
    obtain hfile | ⟨_, _, htold⟩ := bind_eq_error.mp hf
    · rw [outlineOf_exitCode hfile] at hcode
      contradiction
    · contradiction
  cases cmd with
  | goto l | switch l | complete l =>
    rw [finds, findsFrom_misused]
    simp [location?]
  | symbols | params => exact iff_of_false houtline (by simp [location?])

end Usage

end Command.Context

namespace Invocation

variable {i : Invocation} {disk : Disk} {home : Option Path}

/-- How a command ends, whatever is on the disk and in the settings. -/
structure EndsInOrder (i : Invocation) (disk : Disk) (home : Option Path) : Prop where
  /-- A failure comes before anything is printed, and no output goes with the exit code 1. -/
  silent : (i.outcome disk home).1 ≠ .ok 0 → (i.outcome disk home).2.out = ""
  code : ∀ n, (i.outcome disk home).1 = .ok n → n = 0 ∨ n = 1
  found : (i.outcome disk home).1 = .ok 0 ↔
    ∃ s, Settings.load disk home (some i.root) = .ok s ∧ (i.context disk s).Finds i.command
  /-- Settings that cannot be loaded are told before a location is looked at. -/
  misused : (∃ f, (i.outcome disk home).1 = .error f ∧ f.exitCode = 2) ↔
    (∃ s, Settings.load disk home (some i.root) = .ok s) ∧
      ∃ l, i.command.location? = some l ∧ l.IsMisused disk
  failure : ∀ f, (i.outcome disk home).1 = .error f → f.exitCode = 1 ∨ f.exitCode = 2
  /-- What is told about a failure is all that there is on the console. -/
  answer : i.answer disk home =
    match i.run disk home with
    | .ok output => output
    | .error f => i.failed f

/-- Loads the settings, and looks for what the command is about. -/
def finds (i : Invocation) (disk : Disk) (home : Option Path) : Except Failure Bool :=
  ((Settings.load disk home (some i.root)).mapError fun e => Failure.settings e.message).bind
    fun s => (i.context disk s).finds i.command

theorem session_ends (i : Invocation) (disk : Disk) (home : Option Path) :
    (i.session disk home).Ends (i.finds disk home) :=
  .after fun s => (i.context disk s).run_ends i.command

theorem finds_eq_true : i.finds disk home = .ok true ↔
    ∃ s, Settings.load disk home (some i.root) = .ok s ∧ (i.context disk s).Finds i.command := by
  rw [finds]
  cases Settings.load disk home (some i.root) with
  | error e => simp [Except.mapError, Except.bind]
  | ok s => simp [Except.mapError, Except.bind, Command.Context.finds_eq_true]

theorem finds_misused : (∃ f, i.finds disk home = .error f ∧ f.exitCode = 2) ↔
    (∃ s, Settings.load disk home (some i.root) = .ok s) ∧
      ∃ l, i.command.location? = some l ∧ l.IsMisused disk := by
  rw [finds]
  cases Settings.load disk home (some i.root) with
  | error e => simp [Except.mapError, Except.bind, Failure.exitCode]
  | ok s =>
    have h : (i.context disk s).disk = disk := rfl
    simp [Except.mapError, Except.bind, Command.Context.finds_misused, h]

theorem outcome_eq_zero : (i.outcome disk home).1 = .ok 0 ↔ i.finds disk home = .ok true := by
  rw [outcome, (i.session_ends disk home).result_eq]
  rcases i.finds disk home with f | _ | _ <;> simp [Except.map]

theorem outcome_eq_error {f : Failure} :
    (i.outcome disk home).1 = .error f ↔ i.finds disk home = .error f := by
  rw [outcome, (i.session_ends disk home).result_eq]
  rcases i.finds disk home with f | _ | _ <;> simp [Except.map]

theorem code_of_outcome {n : Nat} (h : (i.outcome disk home).1 = .ok n) : n = 0 ∨ n = 1 := by
  rw [outcome, (i.session_ends disk home).result_eq] at h
  generalize i.finds disk home = found at h
  match found, h with
  | .ok false, rfl => exact .inr rfl
  | .ok true, rfl => exact .inl rfl

/-- A failure is told on a console where nothing has been printed. -/
theorem answer_eq (i : Invocation) (disk : Disk) (home : Option Path) : i.answer disk home =
    match i.run disk home with
    | .ok output => output
    | .error f => i.failed f := by
  have hends := i.session_ends disk home
  rw [answer, run]
  match houtcome : i.outcome disk home with
  | (.ok code, console) => rfl
  | (.error f, console) =>
    have hfails : i.finds disk home = .error f := outcome_eq_error.mp (congrArg Prod.fst houtcome)
    rw [hfails] at hends
    cases houtcome.symm.trans (hends .empty)
    simp [failed, Console.empty, Except.map]

theorem ends_inOrder (i : Invocation) (disk : Disk) (home : Option Path) : i.EndsInOrder disk home where
  silent h := (i.session_ends disk home).out_eq (fun hfound => h (outcome_eq_zero.mpr hfound)) .empty
  code _ := code_of_outcome
  found := outcome_eq_zero.trans finds_eq_true
  misused := by simpa only [outcome_eq_error] using finds_misused
  failure f _ := f.exitCode_eq
  answer := i.answer_eq disk home

end Invocation

end PlsqlNav
