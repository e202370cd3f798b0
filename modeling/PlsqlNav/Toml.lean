/-! The values of TOML documents, and how a document puts them into tables. -/
namespace PlsqlNav.Toml

/-- How a table came to be, which says what may still be added to it. -/
inductive Origin where
  /-- Written out as a value, and complete. -/
  | inline
  /-- Opened by a header of its own. -/
  | header
  /-- Passed on the way to the table of a header. -/
  | passed
  /-- Made by a dotted key. -/
  | dotted
  deriving DecidableEq, Repr

inductive Value where
  | string (text : String)
  | integer (n : Int)
  | float (text : String)
  | boolean (b : Bool)
  | time (text : String)
  | array (items : List Value)
  /-- The tables of a repeated header. -/
  | tables (items : List Value)
  | table (origin : Origin) (entries : List (String × Value))

inductive Error where
  | expected (what : String)
  | unclosedString
  | badEscape
  | badValue
  | tooDeep
  | repeated (key : String)
  | noTable (key : String)
  /-- A value of a kind that is not asked for. -/
  | wrongKind
  deriving DecidableEq, Repr

def Error.message : Error → String
  | expected what => "expected " ++ what
  | unclosedString => "a string is not closed"
  | badEscape => "invalid escape in a string"
  | badValue => "invalid value"
  | tooDeep => "nested too deeply"
  | repeated key => "duplicate key " ++ key
  | noTable key => key ++ " is not a table that can be extended"
  | wrongKind => "a setting has a value of the wrong kind"

/-- How deep values may nest, and how many parts a key may have. -/
def limit : Nat := 79

namespace Value

/-- Whether tables of an origin can be entered on the way to a new one of another origin. A dotted
key does not enter a table that has a header. -/
def enterable (made old : Origin) : Bool :=
  match old with
  | .inline => false
  | .header => made != .dotted
  | .passed => true
  | .dotted => true

def set (key : String) (v : Value) : List (String × Value) → List (String × Value)
  | [] => [(key, v)]
  | (k, w) :: rest => if k = key then (k, v) :: rest else (k, w) :: set key v rest

/-- Changes the table that keys lead to. Those missing on the way are made, and where tables share a
header the keys lead through the last one. -/
def changeAt (made : Origin) (change : Value → Except Error Value) :
    List String → Value → Except Error Value
  | [], t => change t
  | key :: keys, table origin entries =>
    let put (v : Value) : Value := table origin (set key v entries)
    match entries.lookup key with
    | none => (changeAt made change keys (table made [])).map put
    | some (tables items) =>
      match items.getLast? with
      | some last =>
        (changeAt made change keys last).map fun v => put (tables (items.dropLast ++ [v]))
      | none => .error (.noTable key)
    | some (table old es) =>
      if enterable made old then (changeAt made change keys (table old es)).map put
      else .error (.noTable key)
    | some _ => .error (.noTable key)
  | key :: _, _ => .error (.noTable key)

/-- Sets a key that is not there yet. Under a dotted key the table itself has to be made by one. -/
def assign (keys : List String) (v : Value) (t : Value) : Except Error Value :=
  let key := keys.getLastD ""
  let inner := keys.dropLast
  changeAt .dotted (fun
    | table origin entries =>
      if (origin == .dotted) == inner.isEmpty then .error (.repeated key)
      else if (entries.lookup key).isSome then .error (.repeated key)
      else .ok (table origin (set key v entries))
    | _ => .error (.noTable key)) inner t

/-- Opens the table of a header. It may have been passed before, but not opened. -/
def openTable (keys : List String) (t : Value) : Except Error Value :=
  let key := keys.getLastD ""
  changeAt .passed (fun
    | table origin entries =>
      match entries.lookup key with
      | none => .ok (table origin (set key (table .header []) entries))
      | some (table .passed es) => .ok (table origin (set key (table .header es) entries))
      | some _ => .error (.repeated key)
    | _ => .error (.noTable key)) keys.dropLast t

def addTable (keys : List String) (t : Value) : Except Error Value :=
  let key := keys.getLastD ""
  changeAt .passed (fun
    | table origin entries =>
      match entries.lookup key with
      | none => .ok (table origin (set key (tables [table .header []]) entries))
      | some (tables items) =>
        .ok (table origin (set key (tables (items ++ [table .header []])) entries))
      | some _ => .error (.repeated key)
    | _ => .error (.noTable key)) keys.dropLast t

/-- The table that a list of assignments in braces writes. -/
def ofAssignments (assignments : List (List String × Value)) : Except Error Value := do
  match ← assignments.foldlM (fun t (keys, v) => assign keys v t) (table .header []) with
  | table _ entries => return table .inline entries
  | v => return v

/-- The entries of what can be read as a table. A point in time has a single one. -/
def entries? : Value → Option (List (String × Value))
  | table _ entries => some entries
  | time text => some [("$__toml_private_datetime", string text)]
  | _ => none

def items? : Value → Option (List Value)
  | array items => some items
  | tables items => some items
  | _ => none

def text? : Value → Option String
  | string text => some text
  | _ => none

end Value

end PlsqlNav.Toml
