import PlsqlNav.Command
import PlsqlNav.Report
import PlsqlNav.Search.Workspace

/-! Running commands on the files of a disk. A command prints one line after another, and what is
printed stays on the console whatever comes after it. -/
namespace PlsqlNav

/-- What a program has printed. -/
structure Console where
  out : String
  err : String
  deriving DecidableEq, Repr

def Console.empty : Console := ⟨"", ""⟩

/-- What a program has printed when it ends, and its exit code. -/
structure Output extends Console where
  code : Nat
  deriving DecidableEq, Repr

/-- What is done at a console, up to its end or to a failure. -/
abbrev Session := ExceptT Failure (StateM Console)

namespace Session

def print (text : String) : Session Unit := modify fun c => { c with out := c.out ++ text }

def warn (text : String) : Session Unit := modify fun c => { c with err := c.err ++ text }

def runOn {α : Type} (x : Session α) (c : Console) : Except Failure α × Console := x.run.run c

end Session

namespace Command

/-- The answer of a search that starts without any outline kept. -/
def answerOf {α : Type} (search : Search Cache α) : Except Failure α :=
  match (search.run.run .empty).1 with
  | .ok a => .ok a
  | .error e => .error (.search e)

/-- The files, the navigator of the workspace, and how results are written. -/
structure Context where
  disk : Disk
  navigator : Navigator Cache
  format : Format

namespace Context

variable (c : Context)

def textOf (file : Path) : Except Failure String :=
  match c.disk.read file with
  | .ok text => .ok text
  | .error e => .error (.io ⟨e.cause, file.text ++ ": " ++ e.text⟩)

def outlineOf (file : Path) : Except Failure Outline :=
  (c.textOf file).map (Outline.ofText file.text)

/-- The spot at a location. A column past the end of its line stands for that end, but the line has
to be there. -/
def spotAt (l : Location) : Except Failure Spot := do
  if l.line = 0 ∨ l.column = 0 then throw (.usage "--line and --col are 1-based")
  let text ← c.textOf l.file
  match Text.lineAt text l.line, Text.offsetOf text l.line l.column with
  | some line, some offset =>
    return ⟨Outline.ofText l.file.text text, offset, Cursor.ofLine line (l.column - 1)⟩
  | _, _ =>
    throw (.usage ("--line " ++ toString l.line ++ " is past the end of " ++ l.file.text))

/-- Tells an outline. Like all that tell something, it gives the exit code: 0, or 1 if there is nothing
to tell. -/
def outline (o : Outline) : Session Nat := do
  o.everySymbol.forM fun i => Session.print (Report.outlineEntry c.format ⟨o, i⟩)
  o.issues.forM fun i => Session.warn (Report.hint c.format (Report.issue o i))
  return 0

/-- The symbol that was found, and its documentation where that is asked for. -/
def result (doc : Bool) : Option Hit → Session Nat
  | none => return 1
  | some h => do
    Session.print (Report.symbol c.format h)
    (if doc then Report.documentation? h else none).forM fun text =>
      Session.print (Report.documentation c.format text)
    return 0

def members : Option (List Hit) → Session Nat
  | none => return 1
  | some hits => do
    hits.forM fun h => Session.print (Report.symbol c.format h)
    return 0

def parameters (o : Outline) (name : String) : Session Nat :=
  match o.everySymbol.find? fun i => (o.get i).kind.isRoutine && (o.get i).isNamed name with
  | some i => do
    let s := o.get i
    s.parameters.forM fun p => Session.print (Report.parameter c.format s.name p)
    return 0
  | none => do
    let told := "no function or procedure named " ++ "`" ++ name ++ "` in " ++ o.file
    Session.warn (Report.hint c.format told)
    return 1

def run : Command → Session Nat
  | .symbols file => do c.outline (← c.outlineOf file)
  | .goto location wanted doc => do
    let spot ← c.spotAt location
    let found ← answerOf (c.navigator.goto spot wanted)
    c.result doc (found.map Found.hit)
  | .switch location => do
    let spot ← c.spotAt location
    let found ← answerOf (c.navigator.switch spot)
    c.result false (found.map Found.hit)
  | .complete location => do
    let spot ← c.spotAt location
    c.members (← answerOf (c.navigator.complete spot.cursor))
  | .params file name => do c.parameters (← c.outlineOf file) name

end Context

end Command

namespace Invocation

def context (i : Invocation) (disk : Disk) (s : Settings) : Command.Context where
  disk := disk
  navigator := ⟨(Workspace.ofSettings i.root s).source disk, s.synonyms.translate⟩
  format := if i.json then .json else s.format

/-- Runs a command for a user whose home is `home`. -/
def session (i : Invocation) (disk : Disk) (home : Option Path) : Session Nat := do
  let s ← (Settings.load disk home (some i.root)).mapError fun e => Failure.settings e.message
  (i.context disk s).run i.command

/-- The exit code or the failure that a command ends with, and what it has printed by then. -/
def outcome (i : Invocation) (disk : Disk) (home : Option Path) : Except Failure Nat × Console :=
  (i.session disk home).runOn .empty

def run (i : Invocation) (disk : Disk) (home : Option Path) : Except Failure Output :=
  let (result, console) := i.outcome disk home
  result.map fun code => { console with code }

/-- What is told about a failure. Settings have no say in it: they may be what failed. -/
def failed (i : Invocation) (f : Failure) : Output where
  out := ""
  err := Report.failure (if i.json then .json else .grep) f
  code := f.exitCode

/-- All that is on the console in the end. A failure is told behind what is printed already. -/
def answer (i : Invocation) (disk : Disk) (home : Option Path) : Output :=
  match i.outcome disk home with
  | (.ok code, console) => { console with code }
  | (.error f, console) =>
    { i.failed f with
      out := console.out ++ (i.failed f).out
      err := console.err ++ (i.failed f).err }

end Invocation

end PlsqlNav
