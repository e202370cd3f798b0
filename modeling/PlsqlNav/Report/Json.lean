import PlsqlNav.Text.Case

/-! JSON text of flat records, one line each. -/
namespace PlsqlNav.Json

inductive Value where
  | text (s : String)
  | number (n : Nat)
  deriving DecidableEq, Repr

def hexDigit (n : Nat) : Char := if n < 10 then Char.ofNat (48 + n) else Char.ofNat (87 + n)

/-- Quotes, backslashes and control characters are escaped, by a letter where they have one. -/
def escape (c : Char) : List Char :=
  if c = '"' ∨ c = '\\' then ['\\', c]
  else if c = '\n' then ['\\', 'n']
  else if c = '\r' then ['\\', 'r']
  else if c = '\t' then ['\\', 't']
  else if c = '\x08' then ['\\', 'b']
  else if c = '\x0c' then ['\\', 'f']
  else if c.toNat < 32 then ['\\', 'u', '0', '0', hexDigit (c.toNat / 16), hexDigit (c.toNat % 16)]
  else [c]

def quote (s : String) : List Char := '"' :: (s.toList.flatMap escape ++ ['"'])

def Value.render : Value → List Char
  | text s => quote s
  | number n => (toString n).toList

def object (fields : List (String × Value)) : String :=
  let inner := fields.map fun f => quote f.1 ++ ':' :: f.2.render
  String.ofList ('\x7b' :: (List.intercalate [','] inner ++ ['\x7d']))

end PlsqlNav.Json
