import PlsqlNav.Toml

/-! Values that are written as one word: truth values, numbers, and points in time. -/
namespace PlsqlNav.Toml

namespace Scalar

/-- Digits without the underscores that may stand between two of them. -/
def digits? (isDigit : Char → Bool) : List Char → Option (List Char)
  | [] => none
  | [c] => if isDigit c then some [c] else none
  | c :: '_' :: cs => if isDigit c then (digits? isDigit cs).map (c :: ·) else none
  | c :: cs => if isDigit c then (digits? isDigit cs).map (c :: ·) else none

def digitValue (c : Char) : Nat :=
  if c.isDigit then c.toNat - 48 else c.toLower.toNat - 87

def number (base : Nat) (digits : List Char) : Nat :=
  digits.foldl (fun n c => base * n + digitValue c) 0

def isDigitOf (base : Nat) (c : Char) : Bool :=
  (c.isDigit || ('a' ≤ c && c ≤ 'f') || ('A' ≤ c && c ≤ 'F')) && digitValue c < base

/-- Decimal digits without a needless zero in front. -/
def decimal? (cs : List Char) : Option (List Char) :=
  if cs.head? = some '0' ∧ cs.length > 1 then none else digits? Char.isDigit cs

/-- Whether a number begins with a minus, and the text after its sign. -/
def sign : List Char → Bool × List Char
  | '-' :: cs => (true, cs)
  | '+' :: cs => (false, cs)
  | cs => (false, cs)

/-- An integer of 64 bits. Other bases than ten have no sign. -/
def integer? (word : List Char) : Option Int := do
  let n ← match word with
    | '0' :: 'x' :: cs => (digits? (isDigitOf 16) cs).map fun ds => (number 16 ds : Int)
    | '0' :: 'o' :: cs => (digits? (isDigitOf 8) cs).map fun ds => (number 8 ds : Int)
    | '0' :: 'b' :: cs => (digits? (isDigitOf 2) cs).map fun ds => (number 2 ds : Int)
    | word =>
      let (negative, cs) := sign word
      (decimal? cs).map fun ds => if negative then -(number 10 ds : Int) else number 10 ds
  guard (-9223372036854775808 ≤ n ∧ n ≤ 9223372036854775807)
  return n

/-- Whether digits times a power of ten round to no finite number of 64 bits. -/
def overflows (digits : List Char) (exponent : Int) : Bool :=
  let significant := digits.dropWhile (· == '0')
  let magnitude := (significant.length : Int) + exponent
  let bound := Nat.pow 2 1024 - Nat.pow 2 970
  if significant.isEmpty || magnitude < 309 then false
  else if magnitude > 309 then true
  else if exponent < 0 then bound * Nat.pow 10 exponent.natAbs ≤ number 10 significant
  else bound ≤ number 10 significant * Nat.pow 10 exponent.natAbs

/-- The digits after the point, none without a point. -/
def fraction? : List Char → Option (List Char)
  | [] => some []
  | '.' :: cs => digits? Char.isDigit cs
  | _ => none

/-- The power of ten after an `e`, zero without one. -/
def exponent? : List Char → Option Int
  | [] => some 0
  | _ :: cs =>
    let (negative, cs) := sign cs
    (digits? Char.isDigit cs).map fun ds => if negative then -(number 10 ds : Int) else number 10 ds

/-- Whether a word is a number with a fraction or an exponent, or one of the special ones. A number
that is too large is none; one that is too small counts as infinite. -/
def isFloat (word : List Char) : Bool :=
  let (negative, cs) := sign word
  let isExponent (c : Char) : Bool := c == 'e' || c == 'E'
  let front := cs.takeWhile (!isExponent ·)
  let power := cs.dropWhile (!isExponent ·)
  let whole := front.takeWhile (· != '.')
  let part := front.dropWhile (· != '.')
  if cs = "inf".toList ∨ cs = "nan".toList then true
  else if part.isEmpty && power.isEmpty then false
  else
    match decimal? whole, fraction? part, exponent? power with
    | some ds, some fs, some e => negative || !overflows (ds ++ fs) (e - fs.length)
    | _, _, _ => false

/-- A number of exactly `n` digits between two bounds, and the text after it. -/
def fixed (n low high : Nat) (cs : List Char) : Option (Nat × List Char) :=
  let front := cs.take n
  let value := number 10 front
  if front.length = n ∧ front.all Char.isDigit ∧ low ≤ value ∧ value ≤ high then
    some (value, cs.drop n)
  else none

def mark (c : Char) : List Char → Option (List Char)
  | [] => none
  | d :: cs => if c = d then some cs else none

def daysIn (year month : Nat) : Nat :=
  if month = 2 then if year % 4 = 0 ∧ (year % 100 ≠ 0 ∨ year % 400 = 0) then 29 else 28
  else if month ∈ [4, 6, 9, 11] then 30
  else 31

def afterDate? (cs : List Char) : Option (List Char) := do
  let (year, cs) ← fixed 4 0 9999 cs
  let cs ← mark '-' cs
  let (month, cs) ← fixed 2 1 12 cs
  let cs ← mark '-' cs
  let (_, cs) ← fixed 2 1 (daysIn year month) cs
  return cs

/-- The text after a time of day without fraction. A minute may have a leap second. -/
def afterTime? (cs : List Char) : Option (List Char) := do
  let (_, cs) ← fixed 2 0 23 cs
  let cs ← mark ':' cs
  let (_, cs) ← fixed 2 0 59 cs
  let cs ← mark ':' cs
  let (_, cs) ← fixed 2 0 60 cs
  return cs

/-- The fraction of a second in front of a text, to nine digits and without zeros at the end, and the
text after it. -/
def seconds? : List Char → Option (List Char × List Char)
  | '.' :: cs =>
    let digits := cs.takeWhile Char.isDigit
    let kept := ((digits.take 9).reverse.dropWhile (· == '0')).reverse
    if digits.isEmpty then none
    else some (if kept.isEmpty then [] else '.' :: kept, cs.dropWhile Char.isDigit)
  | cs => some ([], cs)

/-- The distance from universal time that a text is. -/
def zone? : List Char → Option (List Char)
  | [] => some []
  | ['z'] => some ['Z']
  | ['Z'] => some ['Z']
  | s :: cs => do
    guard (s == '+' || s == '-')
    let (hours, rest) ← fixed 2 0 23 cs
    let rest ← mark ':' rest
    let (minutes, rest) ← fixed 2 0 59 rest
    guard rest.isEmpty
    return (if hours = 0 ∧ minutes = 0 then '+' else s) :: cs

/-- A time of day with its fraction, and the text after it. -/
def clock? (cs : List Char) : Option (List Char × List Char) := do
  let rest ← afterTime? cs
  let (fraction, rest) ← seconds? rest
  return (cs.take 8 ++ fraction, rest)

/-- A time of day, a date, or both, as it is written in full. -/
def time? (word : List Char) : Option String := do
  match afterDate? word with
  | none =>
    let (clock, rest) ← clock? word
    guard rest.isEmpty
    return String.ofList clock
  | some [] => return String.ofList word
  | some (c :: rest) =>
    guard (c == 'T' || c == 't' || c == ' ')
    let (clock, rest) ← clock? rest
    let zone ← zone? rest
    return String.ofList (word.take 10 ++ 'T' :: (clock ++ zone))

/-- Whether a word is a date, which a time of day may follow after a blank. -/
def isDate (word : List Char) : Bool := afterDate? word == some []

end Scalar

def scalar (word : List Char) : Except Error Value :=
  if word = "true".toList then .ok (.boolean true)
  else if word = "false".toList then .ok (.boolean false)
  else if Scalar.isFloat word then .ok (.float (String.ofList word))
  else
    match Scalar.integer? word, Scalar.time? word with
    | some n, _ => .ok (.integer n)
    | none, some text => .ok (.time text)
    | none, none => .error .badValue

end PlsqlNav.Toml
