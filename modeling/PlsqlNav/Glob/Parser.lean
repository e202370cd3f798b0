import PlsqlNav.Glob

/-! Reading patterns. -/
namespace PlsqlNav.Glob

inductive Error where
  | unclosedClass
  | descendingRange
  | unopenedAlternatives
  | unclosedAlternatives
  | danglingEscape
  deriving DecidableEq, Repr

def Error.message : Error → String
  | unclosedClass => "unclosed character class; missing ']'"
  | descendingRange => "invalid range; its end comes before its start"
  | unopenedAlternatives => "unopened alternate group; missing '\x7b'"
  | unclosedAlternatives => "unclosed alternate group; missing '\x7d'"
  | danglingEscape => "dangling '\\'"

/-- Extends the last range to `c`. -/
def extendRange (c : Char) : List (Char × Char) → Except Error (List (Char × Char))
  | [] => .ok [(c, c)]
  | (a, _) :: ranges => if c < a then .error .descendingRange else .ok ((a, c) :: ranges)

/-- The ranges of a class up to its closing bracket, last first, and the text after it. A bracket or
hyphen in front and a hyphen at the end stand for themselves. -/
def classRanges (first inRange : Bool) (ranges : List (Char × Char)) :
    List Char → Except Error (List (Char × Char) × List Char)
  | [] => .error .unclosedClass
  | c :: cs =>
    if c = ']' ∧ !first then .ok (if inRange then ('-', '-') :: ranges else ranges, cs)
    else if inRange then
      match extendRange c ranges with
      | .error e => .error e
      | .ok ranges => classRanges false false ranges cs
    else if c = '-' ∧ !first then classRanges false true ranges cs
    else classRanges false false ((c, c) :: ranges) cs

def readClass (cs : List Char) : Except Error (Part × List Char) :=
  let negated := cs.head? = some '!' ∨ cs.head? = some '^'
  match classRanges true false [] (if negated then cs.drop 1 else cs) with
  | .error e => .error e
  | .ok (ranges, rest) => .ok (.oneOf negated ranges.reverse, rest)

/-- A pattern that is partly read. Lists are kept last first. -/
structure Draft where
  /-- The parts of the current branch. -/
  parts : List Part
  /-- The groups of alternatives that are open: what comes before each, and its finished branches. -/
  groups : List (List Part × List (List Part))
  /-- Whether brackets open classes. -/
  classes : Bool

namespace Draft

def push (d : Draft) (p : Part) : Draft := { d with parts := p :: d.parts }

def openGroup (d : Draft) : Draft := { d with parts := [], groups := (d.parts, []) :: d.groups }

def nextBranch (d : Draft) : Draft :=
  match d.groups with
  | [] => d.push (.literal ',')
  | (before, branches) :: outer =>
    { d with parts := [], groups := (before, d.parts.reverse :: branches) :: outer }

def closeGroup (d : Draft) : Except Error Draft :=
  match d.groups with
  | [] => .error .unopenedAlternatives
  | (before, branches) :: outer =>
    let group := Part.alternatives (d.parts.reverse :: branches).reverse
    .ok { d with parts := group :: before, groups := outer }

/-- Two stars that stand for names within one. -/
def pushStars (d : Draft) : Draft := (d.push .star).push .star

/-- Two stars that take the place of the separator before them. -/
def crossDirectories (d : Draft) (atEnd : Bool) : Draft :=
  match d.parts with
  | .front :: _ => d
  | .inside :: _ => d
  | _ :: before => { d with parts := (if atEnd then .inside else .between) :: before }
  | [] => d

end Draft

/-- Whether two stars after the character `before` may cross directories. -/
def mayCross (before : Option Char) (d : Draft) : Bool :=
  before == some '/' || (!d.groups.isEmpty && (before == some ',' || before == some '\x7b'))

theorem classRanges_length {first inRange : Bool} {ranges found : List (Char × Char)}
    {cs rest : List Char} (h : classRanges first inRange ranges cs = .ok (found, rest)) :
    rest.length < cs.length := by
  induction cs generalizing first inRange ranges with
  | nil => simp [classRanges] at h
  | cons c cs ih =>
    unfold classRanges at h
    grind

theorem readClass_length {cs rest : List Char} {p : Part} (h : readClass cs = .ok (p, rest)) :
    rest.length ≤ cs.length := by
  unfold readClass at h
  dsimp only at h
  split at h
  · contradiction
  · next hc =>
    have := classRanges_length hc
    have hd : (if cs.head? = some '!' ∨ cs.head? = some '^' then cs.drop 1 else cs).length
        ≤ cs.length := by split <;> simp
    cases h
    omega

/-- Reads a pattern after the character `before`. With `lenient`, a bracket that no class closes
stands for itself, and so do those after it. -/
def readParts (lenient : Bool) (before : Option Char) (d : Draft) :
    List Char → Except Error Draft
  | [] => .ok d
  | c :: cs =>
    if c = '?' then readParts lenient c (d.push .any) cs
    else if c = '*' then
      match cs with
      | '*' :: rest =>
        if d.parts.isEmpty then
          match rest with
          | [] => .ok (d.push .front)
          | s :: after =>
            if s = '/' then readParts lenient s (d.push .front) after
            else readParts lenient c d.pushStars (s :: after)
        else if mayCross before d then
          match rest with
          | [] => .ok (d.crossDirectories true)
          | s :: after =>
            if s = '/' then readParts lenient s (d.crossDirectories false) after
            else if !d.groups.isEmpty ∧ (s = ',' ∨ s = '\x7d') then
              readParts lenient c (d.crossDirectories true) (s :: after)
            else readParts lenient c d.pushStars (s :: after)
        else readParts lenient c d.pushStars rest
      | rest => readParts lenient c (d.push .star) rest
    else if c = '[' ∧ d.classes then
      match h : readClass cs with
      | .ok (p, rest) =>
        have := readClass_length h
        readParts lenient ']' (d.push p) rest
      | .error .unclosedClass =>
        if lenient then readParts lenient c { d.push (.literal c) with classes := false } cs
        else .error .unclosedClass
      | .error e => .error e
    else if c = '\x7b' then readParts lenient c d.openGroup cs
    else if c = '\x7d' then
      match d.closeGroup with
      | .ok d => readParts lenient c d cs
      | .error e => .error e
    else if c = ',' then readParts lenient c d.nextBranch cs
    else if c = '\\' then
      match cs with
      | [] => .error .danglingEscape
      | e :: rest => readParts lenient e (d.push (.literal e)) rest
    else readParts lenient c (d.push (.literal c)) cs
termination_by cs => cs.length

def ofText (lenient anyCase : Bool) (text : List Char) : Except Error Glob :=
  match readParts lenient none ⟨[], [], true⟩ text with
  | .error e => .error e
  | .ok d => if d.groups.isEmpty then .ok ⟨d.parts.reverse, anyCase⟩ else .error .unclosedAlternatives

end PlsqlNav.Glob
