import PlsqlNav.Command

/-! Reading the arguments of a command line. Options may stand on either side of a file name, and
those for all commands also before the command. An option may be given once before the command and
once after it; the later one counts. -/
namespace PlsqlNav.Arguments

inductive Refusal where
  | help
  | version
  /-- There are no arguments. -/
  | nothing
  | noCommand
  | unknownCommand (name : String)
  | unknownArgument (text : String)
  | missingArgument (name : String)
  | missingValue (name : String)
  | badNumber (name text : String)
  | repeated (name : String)
  | needlessValue (name : String)
  deriving DecidableEq, Repr

namespace Refusal

/-- Asking for help or the version is no misuse. -/
def exitCode : Refusal → Nat
  | help | version => 0
  | _ => 2

def message : Refusal → String
  | help => "commands: symbols, goto, switch, complete, params"
  | version => "plnav 0.4.0"
  | nothing => "a command is needed: symbols, goto, switch, complete or params"
  | noCommand => "a command is needed: symbols, goto, switch, complete or params"
  | unknownCommand name => "unknown command '" ++ name ++ "'"
  | unknownArgument text => "unexpected argument '" ++ text ++ "'"
  | missingArgument name => "missing argument '" ++ name ++ "'"
  | missingValue name => "a value is needed for '" ++ name ++ "'"
  | badNumber name text => "invalid value '" ++ text ++ "' for '" ++ name ++ "'"
  | repeated name => "'" ++ name ++ "' is given more than once"
  | needlessValue name => "'" ++ name ++ "' takes no value"

end Refusal

inductive Kind where
  | path
  /-- A number of 64 bits. -/
  | number
  | text
  deriving DecidableEq, Repr

inductive Value where
  | flag
  | path (p : Path)
  | number (n : Nat)
  | text (s : String)
  deriving DecidableEq, Repr

def decimal (digits : List Char) : Nat := digits.foldl (fun n c => 10 * n + (c.toNat - 48)) 0

def number? (text : String) : Option Nat :=
  let digits := match text.toList with
    | '+' :: cs => cs
    | cs => cs
  let n := decimal digits
  if !digits.isEmpty ∧ digits.all Char.isDigit ∧ n ≤ 18446744073709551615 then some n else none

def Kind.read (name word : String) : Kind → Except Refusal Value
  | path => if word = "" then .error (.missingValue name) else .ok (.path ⟨word⟩)
  | number =>
    match number? word with
    | some n => .ok (.number n)
    | none => .error (.badNumber name word)
  | text => .ok (.text word)

/-- What may stand before the command, or after one. -/
structure Part where
  flags : List String
  options : List (String × Kind)
  takesFile : Bool
  /-- The commands, of which one ends the part. -/
  commands : List String

namespace Part

def commandNames : List String := ["symbols", "goto", "switch", "complete", "params", "help"]

def front : Part := ⟨["json"], [("root", .path)], false, commandNames⟩

def ofCommand (name : String) : Part :=
  let position : List (String × Kind) := [("line", .number), ("col", .number)]
  let flags := if name = "goto" then ["spec", "doc"] else []
  let options :=
    if name = "symbols" then [] else if name = "params" then [("name", .text)] else position
  ⟨front.flags ++ flags, front.options ++ options, true, []⟩

/-- The version is told before a command only. -/
def tellsVersion (p : Part) : Bool := !p.commands.isEmpty

end Part

structure Given where
  values : List (String × Value)
  /-- The latest option or file. Its value may be still to come, and is checked when the next one is
  read. -/
  latest : Option (String × Kind × Option String)
  hasFile : Bool

namespace Given

def empty : Given := ⟨[], none, false⟩

def has (g : Given) (name : String) : Bool := (g.values.lookup name).isSome

def add (g : Given) (name : String) (v : Value) : Except Refusal Given :=
  if g.has name then .error (.repeated name)
  else .ok { g with values := (name, v) :: g.values, latest := none }

def settle (g : Given) : Except Refusal Given :=
  match g.latest with
  | none => .ok g
  | some (name, _, none) => .error (.missingValue name)
  | some (name, kind, some text) =>
    if g.has name then .error (.repeated name) else (kind.read name text).bind (g.add name)

/-- Whether the next argument is the value of an option. -/
def awaitsValue (g : Given) : Bool := g.latest.any fun l => l.2.2.isNone

def expect (g : Given) (name : String) (kind : Kind) (text : Option String) : Given :=
  { g with latest := some (name, kind, text) }

/-- An option by its name, perhaps with a value after an equals sign. -/
def readOption (g : Given) (p : Part) (name : String) (attached : Option String) :
    Except Refusal Given :=
  if name = "help" ∨ (name = "version" ∧ p.tellsVersion) then
    match attached with
    | some _ => .error (.needlessValue name)
    | none => g.settle.bind fun _ => .error (if name = "help" then .help else .version)
  else if p.flags.contains name then
    match attached with
    | some _ => .error (.needlessValue name)
    | none => g.settle.bind fun g => g.add name .flag
  else
    match p.options.lookup name with
    | none => .error (.unknownArgument ("--" ++ name))
    | some kind =>
      g.settle.bind fun g =>
        match attached with
        | none => .ok (g.expect name kind none)
        | some text => (g.expect name kind (some text)).settle

/-- An argument that stands for itself: the file of a command. -/
def readPlain (g : Given) (p : Part) (arg : String) : Except Refusal Given :=
  if !p.takesFile then .error (.unknownCommand arg)
  else if g.hasFile then .error (.unknownArgument arg)
  else g.settle.map fun g => { g.expect "file" .path (some arg) with hasFile := true }

/-- One argument. The letters `h` and `V` after a single hyphen stand for help and version. -/
def readOne (g : Given) (p : Part) (arg : String) : Except Refusal Given :=
  match arg.toList with
  | '-' :: '-' :: text =>
    let name := String.ofList (text.takeWhile (· != '='))
    match text.dropWhile (· != '=') with
    | [] => g.readOption p name none
    | _ :: attached => g.readOption p name (some (String.ofList attached))
  | '-' :: c :: _ =>
    if c = 'h' then g.readOption p "help" none
    else if c = 'V' ∧ p.tellsVersion then g.readOption p "version" none
    else .error (.unknownArgument arg)
  | _ =>
    match g.latest with
    | some (name, kind, none) => .ok (g.expect name kind (some arg))
    | _ => g.readPlain p arg

/-- The arguments after two hyphens, which all stand for themselves. -/
def readPlains (p : Part) : Given → List String → Except Refusal Given
  | g, [] => .ok g
  | g, arg :: rest =>
    if p.commands.contains arg then .error (.unknownArgument arg)
    else (g.readPlain p arg).bind fun g => readPlains p g rest

/-- Reads a part. What is left begins with the command that ends it. -/
def readPart (p : Part) : Given → List String → Except Refusal (Given × List String)
  | g, [] => .ok (g, [])
  | g, arg :: rest =>
    if !g.awaitsValue && p.commands.contains arg then .ok (g, arg :: rest)
    else if arg = "--" then (readPlains p g rest).map (·, [])
    else (g.readOne p arg).bind fun g => readPart p g rest

def path? (g : Given) (name : String) : Option Path :=
  match g.values.lookup name with
  | some (.path p) => some p
  | _ => none

def path (g : Given) (name : String) : Except Refusal Path :=
  match g.path? name with
  | some p => .ok p
  | none => .error (.missingArgument name)

def number (g : Given) (name : String) : Except Refusal Nat :=
  match g.values.lookup name with
  | some (.number n) => .ok n
  | _ => .error (.missingArgument name)

def text (g : Given) (name : String) : Except Refusal String :=
  match g.values.lookup name with
  | some (.text s) => .ok s
  | _ => .error (.missingArgument name)

def location (g : Given) : Except Refusal Location := do
  return ⟨← g.path "file", ← g.number "line", ← g.number "col"⟩

/-- The command of a name, when all that it needs is given. -/
def command (g : Given) (name : String) : Except Refusal Command := do
  if name = "symbols" then return .symbols (← g.path "file")
  else if name = "goto" then
    return .goto (← g.location) (if g.has "spec" then .spec else .body) (g.has "doc")
  else if name = "switch" then return .switch (← g.location)
  else if name = "complete" then return .complete (← g.location)
  else return .params (← g.path "file") (← g.text "name")

end Given

/-- What asking for help on some names leads to. -/
def helpOn : List String → Refusal
  | [] => .help
  | name :: rest =>
    if Part.commandNames.contains name then
      match rest with
      | [] => .help
      | other :: _ => .unknownCommand other
    else .unknownCommand name

/-- What the arguments ask for. Faults after the command are found before those in front of it. -/
def read (args : List String) : Except Refusal Invocation := do
  let (front, rest) ← Given.readPart .front .empty args
  match rest with
  | [] =>
    let front ← front.settle
    throw (if front.values.isEmpty then .nothing else .noCommand)
  | name :: rest =>
    if name = "help" then throw (helpOn rest)
    let (inner, _) ← Given.readPart (.ofCommand name) .empty rest
    let inner ← inner.settle
    let command ← inner.command name
    let front ← front.settle
    return {
      json := inner.has "json" || front.has "json"
      root := (inner.path? "root" <|> front.path? "root").getD ⟨"."⟩
      command }

end PlsqlNav.Arguments
