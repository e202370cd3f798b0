/-! Patterns for file names. Text is matched as UTF-8 bytes, a slash only where a pattern asks for
one or crosses directories, and letter case, where it is ignored, is that of ASCII letters. -/
namespace PlsqlNav

namespace Glob

abbrev Bytes : Type := List UInt8

def slash : UInt8 := 47

def utf8 (s : String) : Bytes := s.toList.flatMap String.utf8EncodeChar

inductive Part where
  | literal (c : Char)
  /-- One byte. -/
  | any
  /-- Any bytes within a name. -/
  | star
  /-- Any directories in front. -/
  | front
  /-- All that is inside. -/
  | inside
  /-- A slash, or directories between slashes. -/
  | between
  /-- One byte in the ranges, or outside them when `negated`. -/
  | oneOf (negated : Bool) (ranges : List (Char × Char))
  | alternatives (branches : List (List Part))

end Glob

structure Glob where
  parts : List Glob.Part
  /-- Whether letter case is ignored. -/
  anyCase : Bool

namespace Glob

def lowerByte (b : UInt8) : UInt8 := if 65 ≤ b ∧ b ≤ 90 then b + 32 else b

def upperByte (b : UInt8) : UInt8 := if 97 ≤ b ∧ b ≤ 122 then b - 32 else b

def sameByte (anyCase : Bool) (a b : UInt8) : Bool :=
  if anyCase then lowerByte a == lowerByte b else a == b

/-- The text after `front`, where it starts with that. -/
def afterBytes? (anyCase : Bool) : Bytes → Bytes → Option Bytes
  | [], text => some text
  | _ :: _, [] => none
  | a :: front, b :: text => if sameByte anyCase a b then afterBytes? anyCase front text else none

/-- A range of characters as ranges of bytes: it runs from the last byte of its first character to
the first byte of its last one, and their other bytes stand for themselves. -/
def byteRanges (range : Char × Char) : List (UInt8 × UInt8) :=
  let first := String.utf8EncodeChar range.1
  let last := String.utf8EncodeChar range.2
  if range.1 = range.2 then first.map fun b => (b, b)
  else
    (first.dropLast ++ last.drop 1).map (fun b => (b, b)) ++
      [(first.getLastD 0, last.headD 0)]

def inRanges (anyCase : Bool) (ranges : List (Char × Char)) (b : UInt8) : Bool :=
  let among (b : UInt8) : Bool := (ranges.flatMap byteRanges).any fun r => r.1 ≤ b && b ≤ r.2
  among b || (anyCase && (among (lowerByte b) || among (upperByte b)))

/-- What may be left of a text after some of its bytes, up to the first slash. -/
def restsWithin : Bytes → List Bytes
  | [] => [[]]
  | b :: text => (b :: text) :: if b = slash then [] else restsWithin text

/-- What may be left after a slash of a text. -/
def restsAfterSlash : Bytes → List Bytes
  | [] => []
  | b :: text => if b = slash then text :: restsAfterSlash text else restsAfterSlash text

def tails : Bytes → List Bytes
  | [] => [[]]
  | b :: text => (b :: text) :: tails text

mutual

/-- Whether a part stands for nothing at all. -/
def Part.isVoid : Part → Bool
  | .alternatives branches => areVoid branches
  | _ => false

def isVoid : List Part → Bool
  | [] => true
  | p :: ps => p.isVoid && isVoid ps

def areVoid : List (List Part) → Bool
  | [] => true
  | ps :: rest => isVoid ps && areVoid rest

end

mutual

/-- What may be left of a text after one part. An empty alternative is not one. -/
def Part.rests (anyCase : Bool) : Part → Bytes → List Bytes
  | .literal c, text => (afterBytes? anyCase (String.utf8EncodeChar c) text).toList
  | .any, text =>
    match text with
    | [] => []
    | b :: rest => if b = slash then [] else [rest]
  | .star, text => restsWithin text
  | .front, text => text :: restsAfterSlash text
  | .inside, text =>
    match text with
    | [] => []
    | b :: rest => if b = slash then tails rest else []
  | .between, text =>
    match text with
    | [] => []
    | b :: rest => if b = slash then rest :: restsAfterSlash rest else []
  | .oneOf negated ranges, text =>
    match text with
    | [] => []
    | b :: rest => if inRanges anyCase ranges b != negated then [rest] else []
  | .alternatives branches, text =>
    if areVoid branches then [text] else branchRests anyCase branches text

/-- What may be left of one of several texts after all parts. -/
def rests (anyCase : Bool) : List Part → List Bytes → List Bytes
  | [], texts => texts
  | p :: ps, texts => rests anyCase ps (texts.flatMap (p.rests anyCase)).eraseDups

def branchRests (anyCase : Bool) : List (List Part) → Bytes → List Bytes
  | [], _ => []
  | ps :: branches, text =>
    (if isVoid ps then [] else rests anyCase ps [text]) ++ branchRests anyCase branches text

end

/-- Whether a whole text matches. A pattern that is nothing but directories in front matches
everything. -/
def accepts (g : Glob) (text : String) : Bool :=
  match g.parts with
  | [.front] => true
  | parts => (rests g.anyCase parts [utf8 text]).contains []

end Glob

end PlsqlNav
