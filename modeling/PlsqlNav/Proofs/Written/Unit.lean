import PlsqlNav.Outline.Scan
import PlsqlNav.Proofs.Outline.WellNested

/-! Units as they are written: which tokens make one up, and what outline these tokens stand for. -/
namespace PlsqlNav.Written

structure Word (keywords : List String) where
  token : Token
  isWord : token.isOneOf keywords

structure Mark (c : Char) where
  token : Token
  isMark : token.isPunct c

structure Ident where
  token : Token
  isName : token.isName

/-- Words that cannot be used as names, by the place where they would stand. -/
structure Reserved where
  /-- As the name that a declaration starts with. -/
  leading : List String
  /-- The same, right after the `is` or `as` of a unit or routine. -/
  first : List String
  /-- As the label of an inner block. -/
  label : List String

/-- The words that would make another `end` of the one before them. -/
def Reserved.afterEnd : Reserved := ⟨[], [], ["if", "loop", "case"]⟩

/-- All words that the scan takes for something else in one of these places. -/
def Reserved.keywords : Reserved where
  leading := ["begin", "end", "create", "pragma", "function", "procedure", "type", "subtype", "cursor"]
  first := ["language", "external"]
  label := Extent.labelWords

/-- A name that starts a declaration, and is the first after an `is` or `as` where `opening`. -/
structure Free (r : Reserved) (opening : Bool) where
  token : Token
  isName : token.isName
  leads : token.isOneOf r.leading = false
  opens : opening → token.isOneOf r.first = false

structure Run where
  tokens : List Token
  noSemicolon : ∀ t ∈ tokens, t.isPunct ';' = false

/-- Any tokens with balanced parentheses. -/
inductive Balanced : List Token → Prop
  | nil : Balanced []
  | token {t ts} : t.isPunct '(' = false → t.isPunct ')' = false → Balanced ts → Balanced (t :: ts)
  | group {l r inner ts} : l.isPunct '(' → Balanced inner → r.isPunct ')' → Balanced ts →
      Balanced (l :: inner ++ r :: ts)

/-- What may stand in a header after its name: outside parentheses no token that ends a header. -/
inductive HeaderRun : List Token → Prop
  | nil : HeaderRun []
  | token {t ts} : t.isPunct '(' = false → t.isPunct ')' = false → t.isPunct ';' = false →
      t.isOneOf ["is", "as"] = false → t.isOneOf Header.stopWords = false →
      HeaderRun ts → HeaderRun (t :: ts)
  | group {l r inner ts} : l.isPunct '(' → Balanced inner → r.isPunct ')' → HeaderRun ts →
      HeaderRun (l :: inner ++ r :: ts)

inductive Name where
  | plain (name : Ident)
  | qualified (schema : Ident) (point : Mark '.') (name : Ident)

namespace Name

def tokens : Name → List Token
  | plain name => [name.token]
  | qualified schema point name => [schema.token, point.token, name.token]

def first : Name → Token
  | plain name => name.token
  | qualified schema _ _ => schema.token

def last : Name → Token
  | plain name => name.token
  | qualified _ _ name => name.token

end Name

/-- A name and what follows it. A point right after the name would make a schema of it. -/
structure Titled (IsRun : List Token → Prop) where
  name : Name
  run : List Token
  isRun : IsRun run
  noPoint : ∀ t ∈ run.head?, t.isPunct '.' = false

def Titled.tokens {IsRun : List Token → Prop} (title : Titled IsRun) : List Token :=
  title.name.tokens ++ title.run

abbrev Heading : Type := Titled HeaderRun

abbrev Signature : Type := Titled fun ts => ∀ t ∈ ts, t.isPunct ';' = false

inductive Routine where
  | function
  | procedure

def Routine.keyword : Routine → String
  | function => "function"
  | procedure => "procedure"

def Routine.kind : Routine → Flavour → Symbol.Kind
  | function => .function
  | procedure => .procedure

/-- The declarations that a keyword introduces. -/
inductive Introduced where
  | type
  | subtype
  | cursor

def Introduced.keyword : Introduced → String
  | type => "type"
  | subtype => "subtype"
  | cursor => "cursor"

def Introduced.kind : Introduced → Symbol.Kind
  | type => .type
  | subtype => .subtype
  | cursor => .cursor

/-- The name that a unit or routine repeats at its end. -/
structure Label where
  token : Token
  isName : token.isName
  isLabel : token.isOneOf ["if", "loop", "case"] = false

structure Closing where
  finish : Word ["end"]
  label : Option Label
  semicolon : Mark ';'

def Closing.tokens (c : Closing) : List Token :=
  match c.label with
  | none => [c.finish.token, c.semicolon.token]
  | some label => [c.finish.token, label.token, c.semicolon.token]

structure Execution (r : Reserved) where
  begin : Word ["begin"]
  statements : List Token
  wellNested : WellNested r.label statements

def Execution.tokens {r : Reserved} (e : Execution r) : List Token := e.begin.token :: e.statements

/-- A token that starts no declaration and no directive. -/
structure Stray where
  token : Token
  noName : token.isName = false
  noSemicolon : token.isPunct ';' = false
  noDollar : token.isPunct '$' = false

/-- A declaration without scope, or a token that starts none, up to its semicolon. -/
inductive Item (r : Reserved) (opening : Bool) where
  | pragma (word : Word ["pragma"]) (run : Run)
  | introduced (kind : Introduced) (word : Word [kind.keyword]) (name : Ident) (run : Run)
  | constant (name : Free r opening) (word : Word ["constant"]) (run : Run)
  | exception (name : Free r opening) (word : Word ["exception"])
  | var (name : Free r opening) (run : Run)
      (plain : ∀ t ∈ run.tokens.head?, t.isOneOf ["constant", "exception"] = false)
  | unexpected (first : Stray) (run : Run)
      (plain : ∀ t ∈ run.tokens, t.isOneOf ["begin", "end", "create"] = false)

/-- What is declared in a unit or routine. -/
inductive Items (r : Reserved) : Flavour → Bool → Type
  | nil {flavour opening} : Items r flavour opening
  | item {flavour opening} (item : Item r opening) (semicolon : Mark ';')
      (more : Items r flavour false) : Items r flavour opening
  | specification {opening} (kind : Routine) (word : Word [kind.keyword]) (signature : Signature)
      (semicolon : Mark ';') (more : Items r .spec false) : Items r .spec opening
  | forward {opening} (kind : Routine) (word : Word [kind.keyword]) (heading : Heading)
      (semicolon : Mark ';') (more : Items r .body false) : Items r .body opening
  | routine {opening} (kind : Routine) (word : Word [kind.keyword]) (heading : Heading)
      (opener : Word ["is", "as"]) (inner : Items r .body true) (execution : Execution r)
      (closing : Closing) (more : Items r .body false) : Items r .body opening

/-- What a unit may start with before its keyword. -/
structure Creation where
  create : Word ["create"]
  replace : Option (Word ["or"] × Word ["replace"])
  edition : Option (Word ["editionable", "noneditionable"])

inductive Keyword where
  | package (word : Word ["package"])
  | packageBody (word : Word ["package"]) (body : Word ["body"])
  | routine (kind : Routine) (word : Word [kind.keyword])

def Keyword.kind : Keyword → Symbol.Kind
  | package _ => .package .spec
  | packageBody _ _ => .package .body
  | routine kind _ => kind.kind .body

/-- Only the declarations of a package specification have no bodies. -/
def Keyword.flavour : Keyword → Flavour
  | package _ => .spec
  | packageBody _ _ | routine _ _ => .body

/-- A specification has nothing to execute, a package body may have, and a routine has. -/
def Keyword.Executes : Keyword → Bool → Prop
  | package _, executes => executes = false
  | packageBody _ _, _ => True
  | routine _ _, executes => executes = true

/-- A package specification, a package body or a routine of its own. -/
structure LibraryUnit (r : Reserved) where
  creation : Option Creation
  keyword : Keyword
  heading : Heading
  /-- A first name `body` would announce a package body. -/
  notBody : keyword.flavour = .spec → heading.name.first.isWord "body" = false
  opener : Word ["is", "as"]
  items : Items r keyword.flavour true
  execution : Option (Execution r)
  executes : keyword.Executes execution.isSome
  closing : Closing

section Tokens
variable {r : Reserved}

def Item.tokens {opening : Bool} : Item r opening → List Token
  | pragma word run => word.token :: run.tokens
  | introduced _ word name run => word.token :: name.token :: run.tokens
  | constant name word run => name.token :: word.token :: run.tokens
  | exception name word => [name.token, word.token]
  | var name run _ => name.token :: run.tokens
  | unexpected first run _ => first.token :: run.tokens

def Items.tokens {flavour : Flavour} {opening : Bool} : Items r flavour opening → List Token
  | nil => []
  | item i semicolon more => i.tokens ++ semicolon.token :: more.tokens
  | specification _ word signature semicolon more =>
    word.token :: (signature.tokens ++ semicolon.token :: more.tokens)
  | forward _ word heading semicolon more =>
    word.token :: (heading.tokens ++ semicolon.token :: more.tokens)
  | routine _ word heading opener inner execution closing more =>
    word.token :: (heading.tokens ++ opener.token ::
      (inner.tokens ++ (execution.tokens ++ (closing.tokens ++ more.tokens))))

def Creation.tokens (c : Creation) : List Token :=
  let replace := match c.replace with
    | some (orWord, replaceWord) => [orWord.token, replaceWord.token]
    | none => []
  c.create.token :: (replace ++ (c.edition.map Word.token).toList)

def Keyword.first : Keyword → Token
  | package word => word.token
  | packageBody word _ => word.token
  | routine _ word => word.token

def Keyword.tokens : Keyword → List Token
  | package word => [word.token]
  | packageBody word body => [word.token, body.token]
  | routine _ word => [word.token]

namespace LibraryUnit

def first (u : LibraryUnit r) : Token :=
  match u.creation with
  | some c => c.create.token
  | none => u.keyword.first

/-- The tokens up to the `is` or `as`, which is not among them. -/
def headTokens (u : LibraryUnit r) : List Token :=
  (u.creation.map Creation.tokens).getD [] ++ (u.keyword.tokens ++ u.heading.tokens)

def tokens (u : LibraryUnit r) : List Token :=
  u.headTokens ++ u.opener.token ::
    (u.items.tokens ++ ((u.execution.map Execution.tokens).getD [] ++ u.closing.tokens))

end LibraryUnit

end Tokens

section Meaning
variable {r : Reserved} (text : List Char)

/-- The symbol of a declaration from the token `first` up to the token `upTo`. -/
def symbol (level : Nat) (first : Token) (kind : Symbol.Kind) (name : Token) (upTo : Token)
    (stop : Option Nat) : Symbol where
  name := name.name
  kind := kind
  level := level
  start := first.start
  stop := stop
  definition := Scan.definition text first.start upTo.start
  doc := first.doc.map Comment.text

/-- What an item before the semicolon `upTo` declares. -/
def Item.symbols {opening : Bool} (level : Nat) (upTo : Token) : Item r opening → List Symbol
  | pragma _ _ | unexpected _ _ _ => []
  | introduced kind word name _ => [symbol text level word.token kind.kind name.token upTo none]
  | constant name _ _ => [symbol text level name.token .constant name.token upTo none]
  | exception name _ => [symbol text level name.token .exception name.token upTo none]
  | var name _ _ => [symbol text level name.token .var name.token upTo none]

def Item.issues {opening : Bool} : Item r opening → List Issue
  | unexpected first _ _ => [⟨first.token.start, .unexpectedToken⟩]
  | _ => []

/-- What items at a level declare. Routines of too deep a level are left out, with all that is inside
them. -/
def Items.symbols (level : Nat) {flavour : Flavour} {opening : Bool} :
    Items r flavour opening → List Symbol
  | nil => []
  | item i semicolon more => i.symbols text level semicolon.token ++ more.symbols level
  | specification kind word signature semicolon more =>
    symbol text level word.token (kind.kind .spec) signature.name.last semicolon.token none ::
      more.symbols level
  | forward kind word heading semicolon more =>
    (if level ≤ Scan.recordedDepth then
      [symbol text level word.token (kind.kind .spec) heading.name.last semicolon.token none]
    else []) ++ more.symbols level
  | routine kind word heading opener inner _ closing more =>
    (if level ≤ Scan.recordedDepth then
      symbol text level word.token (kind.kind .body) heading.name.last opener.token
        (some closing.semicolon.token.stop) :: inner.symbols (level + 1)
    else []) ++ more.symbols level

/-- The tokens that start no declaration, wherever they stand. -/
def Items.issues {flavour : Flavour} {opening : Bool} : Items r flavour opening → List Issue
  | nil => []
  | item i _ more => i.issues ++ more.issues
  | specification _ _ _ _ more => more.issues
  | forward _ _ _ _ more => more.issues
  | routine _ _ _ _ inner _ _ more => inner.issues ++ more.issues

/-- The symbols of a unit in text order: itself, then what it declares. -/
def LibraryUnit.symbols (u : LibraryUnit r) : List Symbol :=
  symbol text 0 u.first u.keyword.kind u.heading.name.last u.opener.token
    (some u.closing.semicolon.token.stop) :: u.items.symbols text 1

end Meaning

def wordAt (start : Nat) (text : String) : Token := ⟨.word, start, text, none⟩

def markAt (start : Nat) (mark : Char) : Token := ⟨.punct mark, start, mark.toString, none⟩

end PlsqlNav.Written
