import PlsqlNav.Proofs.Scan.Progress

/-! What a scan does next follows from the tokens and from the flavours of the scopes that are open. What
it has recorded, and whether it records, has no say in it. -/
namespace PlsqlNav.Scan

inductive Action where
  | pass (rest : List Token) (afterDollar : Bool)
  | stepOver (first : Token) (rest : List Token)
  | declare (first : Token) (kind : Symbol.Kind) (name : String) (rest : List Token)
  | enter (header : Header)
  | close (extent : Option Extent)
  /-- The innermost scope is left open by what comes next. -/
  | breakOff

/-- What is done in a scope of the given flavour. -/
def Action.inside (flavour : Flavour) (afterDollar : Bool) : List Token → Action
  | [] => .breakOff
  | t :: rest =>
    if t.isPunct ';' then .pass rest false
    else if !t.isName then .stepOver t rest
    else
      match Lead.of t with
      | .begin => .close (Extent.find 0 false rest)
      | .finish => .close (Extent.find 0 afterDollar (t :: rest))
      | .create => .breakOff
      | .pragma => .pass (fromSemicolon rest).tail false
      | .routine kind =>
        match Header.qualifiedName rest with
        | none => .stepOver t rest
        | some (name, after) =>
          match flavour with
          | .spec => .declare t (kind .spec) name after
          | .body => .enter ⟨t, kind .body, name, after⟩
      | .named kind =>
        match rest with
        | [] => .stepOver t rest
        | u :: after => if u.isName then .declare t kind u.name after else .stepOver t rest
      | .other =>
        let kind : Symbol.Kind :=
          if rest.head?.any (·.isWord "constant") then .constant
          else if rest.head?.any (·.isWord "exception") then .exception
          else .var
        .declare t kind t.name rest

def Action.outside (ts : List Token) : Action :=
  match Header.ofUnit? ts with
  | some h => .enter h
  | none => .pass ts.tail (ts.head?.any (·.isPunct '$'))

def Action.of (flavours : List Flavour) (afterDollar : Bool) (ts : List Token) : Action :=
  match flavours with
  | [] => .outside ts
  | flavour :: _ => .inside flavour afterDollar ts

def action (s : Scan) : Action := .of (s.scopes.map Scope.flavour) s.afterDollar s.rest

/-- Does what is to be done, where a routine that is entered leaves a symbol only when `recording`. -/
def perform (text : List Char) (recording : Bool) (s : Scan) : Action → Scan
  | .pass rest afterDollar => s.goOn rest afterDollar
  | .stepOver first rest => s.stepOver first rest
  | .declare first kind name rest =>
    match s.scopes with
    | [] => s
    | scope :: _ => s.declare text scope first kind name rest
  | .enter header => s.enter text recording header
  | .close extent =>
    match s.scopes with
    | [] => s
    | scope :: outer => s.leaveAt text scope outer extent
  | .breakOff =>
    match s.scopes with
    | [] => s
    | scope :: outer =>
      (s.leave scope outer (startOf text s.rest)).report .unclosedBlock (startOf text s.rest)

variable {text : List Char} {s : Scan}

theorem stepIn_eq_perform {scope : Scope} {outer : List Scope} (hs : s.scopes = scope :: outer) :
    s.stepIn text scope outer = s.perform text (s.records (some recordedDepth))
      (.inside scope.flavour s.afterDollar s.rest) := by
  rw [stepIn, Action.inside.eq_def]
  cases hrest : s.rest with
  | nil => simp only [perform, hs, hrest, startOf]
  | cons t rest =>
    dsimp only
    split
    · rfl
    split
    · rfl
    cases Lead.of t with
    | begin => simp only [perform, hs]
    | finish => simp only [perform, hs]
    | create => simp only [perform, hs, hrest, startOf]
    | pragma => rfl
    | routine kind =>
      dsimp only
      cases Header.qualifiedName rest with
      | none => rfl
      | some found =>
        cases hflavour : scope.flavour with
        | spec => simp only [perform, hs]
        | body => simp only [perform, records_inside hs, Option.all_some]
    | named kind =>
      cases rest with
      | nil => rfl
      | cons u after =>
        dsimp only
        split
        · simp only [perform, hs]
        · rfl
    | other => simp only [perform, hs]

/-- A step does what is to be done, and records routines down to its depth. -/
theorem step_eq_perform (text : List Char) (s : Scan) :
    s.step text = s.perform text (s.records (some recordedDepth)) s.action := by
  rw [step, action, Action.of.eq_def]
  cases hs : s.scopes with
  | nil =>
    rw [List.map_nil, stepOut, Action.outside]
    dsimp only
    cases Header.ofUnit? s.rest with
    | none => rfl
    | some h => rw [perform, records_outside hs]
  | cons scope outer => exact stepIn_eq_perform hs

end PlsqlNav.Scan
