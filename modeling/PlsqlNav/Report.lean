import PlsqlNav.Documentation
import PlsqlNav.Format
import PlsqlNav.Parameter
import PlsqlNav.Report.Json
import PlsqlNav.Search.Navigator

/-! What is told about symbols: lines that begin with file, line and column, or JSON records, one a
line. -/
namespace PlsqlNav

namespace Report

def line (text : String) : String := text ++ "\n"

/-- `file:line:col:` before what stands there. -/
def located (file : String) (position : Nat × Nat) (text : String) : String :=
  file ++ ":" ++ toString position.1 ++ ":" ++ toString position.2 ++ ":" ++ text

def position (h : Hit) : Nat × Nat := h.outline.position h.symbol.start

def endLine? (h : Hit) : Option Nat := h.symbol.stop.map fun stop => (h.outline.position stop).1

def documentation? (h : Hit) : Option String := h.symbol.doc.map Documentation.render

def place (h : Hit) : List (String × Json.Value) :=
  [("name", .text h.symbol.name), ("kind", .text h.symbol.kind.label),
    ("file", .text h.outline.file), ("line", .number (position h).1),
    ("col", .number (position h).2)]

def symbol (format : Format) (h : Hit) : String :=
  match format with
  | .grep => line (located h.outline.file (position h) (" " ++ h.symbol.kind.label ++ " " ++ h.symbol.name))
  | .json =>
    let ends := (endLine? h).toList.map fun n => ("end_line", Json.Value.number n)
    let docs := (documentation? h).toList.map fun d => ("documentation", Json.Value.text d)
    line (Json.object
      (place h ++ ends ++ [("definition", .text h.symbol.definition)] ++ docs))

/-- A line of an outline, indented by nesting level. -/
def outlineEntry (format : Format) (h : Hit) : String :=
  match format with
  | .grep =>
    let indent := String.ofList (List.replicate (2 * (h.symbol.level + 1)) ' ')
    line (located h.outline.file (position h) (indent ++ h.symbol.kind.label ++ " " ++ h.symbol.name))
  | .json => line (Json.object (place h ++ [("depth", .number h.symbol.level)]))

def parameter (format : Format) (routine : String) (p : Parameter) : String :=
  match format with
  | .grep =>
    match p.mode with
    | .result => line ("return " ++ p.typeText)
    | .untyped => line p.name
    | mode => line (p.name ++ " " ++ mode.label ++ " " ++ p.typeText)
  | .json =>
    line (Json.object
      [("routine", .text routine), ("name", .text p.name), ("type", .text p.typeText),
        ("kind", .text p.mode.label), ("text", .text p.text)])

/-- Documentation below a symbol, indented. In JSON it is a field of the symbol instead. -/
def documentation (format : Format) (text : String) : String :=
  match format with
  | .json => ""
  | .grep =>
    if text = "" then ""
    else String.join ((Text.splitLines text.toList).map fun l =>
      line ("    " ++ String.ofList (Text.dropReturn l)))

def issue (o : Outline) (i : Issue) : String :=
  located o.file (o.position i.offset) (" " ++ i.kind.message)

/-- Hints are for people, and are left out beside JSON. -/
def hint (format : Format) (text : String) : String :=
  match format with
  | .grep => line ("hint: " ++ text)
  | .json => ""

def failure (format : Format) (f : Failure) : String :=
  line ("error: " ++ f.message) ++ (f.hint?.map (hint format)).getD ""

end Report

end PlsqlNav
