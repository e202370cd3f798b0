import PlsqlNav.Outline
import PlsqlNav.Outline.Extent
import PlsqlNav.Outline.Header
import PlsqlNav.Outline.Unexpected
import PlsqlNav.Token.Lexer

/-! Scanning tokens for declarations. A scan holds the tokens still to read and the scopes that are
open, innermost first; each step reads one declaration or opens or closes one scope. -/
namespace PlsqlNav

/-- An open package or routine. The declarations of a specification have no bodies. -/
structure Scope where
  flavour : Flavour
  /-- Its place among the recorded symbols; none when it is only scanned for its extent. -/
  symbol : Option Nat
  deriving DecidableEq, Repr

structure Scan where
  rest : List Token
  /-- Whether a dollar sign comes right before `rest`. -/
  afterDollar : Bool
  scopes : List Scope
  symbols : Array Symbol
  issues : Array Issue

/-- How a token stands in a declaration section. -/
inductive Lead where
  | begin
  | finish
  | create
  | pragma
  | routine (kind : Flavour → Symbol.Kind)
  | named (kind : Symbol.Kind)
  | other

/-- A quoted identifier is never a keyword, and leads a declaration of its own. -/
def Lead.of (t : Token) : Lead :=
  if t.isWord "begin" then .begin
  else if t.isWord "end" then .finish
  else if t.isWord "create" then .create
  else if t.isWord "pragma" then .pragma
  else if t.isWord "function" then .routine .function
  else if t.isWord "procedure" then .routine .procedure
  else if t.isWord "type" then .named .type
  else if t.isWord "subtype" then .named .subtype
  else if t.isWord "cursor" then .named .cursor
  else .other

namespace Scan

/-- Routines nested deeper than this are scanned for their extent only. -/
def recordedDepth : Nat := 1

def ofTokens (ts : List Token) : Scan := ⟨ts, false, [], #[], #[]⟩

/-- The tokens from the next semicolon on. -/
def fromSemicolon (ts : List Token) : List Token := ts.dropWhile fun t => !t.isPunct ';'

/-- The position where the tokens go on, or the end of the text. -/
def startOf (text : List Char) : List Token → Nat
  | [] => Text.byteLength text
  | t :: _ => t.start

/-- The position just past the first token, or the end of the text. -/
def stopOf (text : List Char) : List Token → Nat
  | [] => Text.byteLength text
  | t :: _ => t.stop

/-- The text from `start` to `stop` without white space at its end. -/
def definition (text : List Char) (start stop : Nat) : String :=
  String.ofList (Text.trimEnd (Text.slice start stop text))

def goOn (s : Scan) (rest : List Token) (afterDollar : Bool) : Scan :=
  { s with rest, afterDollar }

def report (s : Scan) (kind : Issue.Kind) (offset : Nat) : Scan :=
  { s with issues := s.issues.push ⟨offset, kind⟩ }

/-- The symbol of a declaration that runs from `first` to the tokens `stop`. -/
def symbolOf (text : List Char) (s : Scan) (first : Token) (kind : Symbol.Kind) (name : String)
    (stop : List Token) : Symbol where
  name := name
  kind := kind
  level := s.scopes.length
  start := first.start
  stop := none
  definition := definition text first.start (startOf text stop)
  doc := first.doc.map Comment.text

def record (recording : Bool) (s : Scan) (symbol : Symbol) : Scan :=
  if recording then { s with symbols := s.symbols.push symbol } else s

def setStop (s : Scan) (symbol : Option Nat) (stop : Nat) : Scan :=
  match symbol with
  | some i => { s with symbols := s.symbols.modify i fun x => { x with stop := some stop } }
  | none => s

/-- Reads the unit or nested routine behind a header, up to where its scope opens. Without
`recording` it is walked all the same, but leaves no symbol. -/
def enter (text : List Char) (recording : Bool) (h : Header) (s : Scan) : Scan :=
  let nested := !s.scopes.isEmpty
  let bodiless := if nested then h.kind.counterpart else h.kind
  match Header.findEnd 0 false h.rest with
  | .semicolon ts =>
    (s.record recording (s.symbolOf text h.first bodiless h.name ts)).goOn ts.tail false
  | .cut ts afterDollar =>
    let s := (s.record recording (s.symbolOf text h.first bodiless h.name ts)).goOn ts afterDollar
    if nested then s else s.report .missingBody h.first.start
  | .body ts =>
    let symbol := if recording then some s.symbols.size else none
    let after := ts.tail
    let s := s.record recording (s.symbolOf text h.first h.kind h.name ts)
    if after.head?.any (·.isOneOf ["language", "external"]) then
      let last := fromSemicolon after
      (s.setStop symbol (stopOf text last)).goOn last.tail false
    else
      { s with
        rest := after
        afterDollar := false
        scopes := ⟨if h.kind = .package .spec then .spec else .body, symbol⟩ :: s.scopes }

def leave (s : Scan) (scope : Scope) (outer : List Scope) (stop : Nat) : Scan :=
  { s.setStop scope.symbol stop with scopes := outer }

/-- Closes the innermost scope where its block ends, or with the text. -/
def leaveAt (text : List Char) (s : Scan) (scope : Scope) (outer : List Scope) :
    Option Extent → Scan
  | some e => (s.leave scope outer e.stop).goOn e.rest false
  | none =>
    let stop := Text.byteLength text
    ((s.leave scope outer stop).goOn [] false).report .unclosedBlock stop

/-- A declaration that runs to the next semicolon. -/
def declare (text : List Char) (s : Scan) (scope : Scope) (first : Token) (kind : Symbol.Kind)
    (name : String) (rest : List Token) : Scan :=
  let stop := fromSemicolon rest
  (s.record scope.symbol.isSome (s.symbolOf text first kind name stop)).goOn stop.tail false

def stepOver (s : Scan) (t : Token) (rest : List Token) : Scan :=
  (s.report .unexpectedToken t.start).goOn (Unexpected.skip t rest) false

/-- One declaration of the scope `scope`, or its end. -/
def stepIn (text : List Char) (s : Scan) (scope : Scope) (outer : List Scope) : Scan :=
  match s.rest with
  | [] =>
    let stop := Text.byteLength text
    (s.leave scope outer stop).report .unclosedBlock stop
  | t :: rest =>
    if t.isPunct ';' then s.goOn rest false
    else if !t.isName then s.stepOver t rest
    else
      match Lead.of t with
      | .begin => s.leaveAt text scope outer (Extent.find 0 false rest)
      | .finish => s.leaveAt text scope outer (Extent.find 0 s.afterDollar (t :: rest))
      | .create => (s.leave scope outer t.start).report .unclosedBlock t.start
      | .pragma => s.goOn (fromSemicolon rest).tail false
      | .routine kind =>
        match Header.qualifiedName rest with
        | none => s.stepOver t rest
        | some (name, after) =>
          match scope.flavour with
          | .spec => s.declare text scope t (kind .spec) name after
          | .body =>
            let recording := scope.symbol.isSome && outer.length + 1 ≤ recordedDepth
            s.enter text recording ⟨t, kind .body, name, after⟩
      | .named kind =>
        match rest with
        | [] => s.stepOver t rest
        | u :: after => if u.isName then s.declare text scope t kind u.name after else s.stepOver t rest
      | .other =>
        let kind : Symbol.Kind :=
          if rest.head?.any (·.isWord "constant") then .constant
          else if rest.head?.any (·.isWord "exception") then .exception
          else .var
        s.declare text scope t kind t.name rest

/-- Outside all scopes, one unit or one token that starts none. -/
def stepOut (text : List Char) (s : Scan) : Scan :=
  match Header.ofUnit? s.rest with
  | some h => s.enter text true h
  | none => s.goOn s.rest.tail (s.rest.head?.any (·.isPunct '$'))

def step (text : List Char) (s : Scan) : Scan :=
  match s.scopes with
  | [] => s.stepOut text
  | scope :: outer => s.stepIn text scope outer

def isDone (s : Scan) : Bool := s.rest.isEmpty && s.scopes.isEmpty

/-- Every step reads tokens or closes a scope, and opens at most one scope for what it reads. -/
def size (s : Scan) : Nat := 2 * s.rest.length + s.scopes.length

section Simp
variable (s : Scan)

@[simp] theorem goOn_rest (ts : List Token) (d : Bool) : (s.goOn ts d).rest = ts := rfl

@[simp] theorem goOn_scopes (ts : List Token) (d : Bool) : (s.goOn ts d).scopes = s.scopes := rfl

@[simp] theorem report_rest (k : Issue.Kind) (n : Nat) : (s.report k n).rest = s.rest := rfl

@[simp] theorem report_scopes (k : Issue.Kind) (n : Nat) : (s.report k n).scopes = s.scopes := rfl

@[simp] theorem record_rest (r : Bool) (x : Symbol) : (s.record r x).rest = s.rest := by
  cases r <;> rfl

@[simp] theorem record_scopes (r : Bool) (x : Symbol) : (s.record r x).scopes = s.scopes := by
  cases r <;> rfl

@[simp] theorem setStop_rest (i : Option Nat) (n : Nat) : (s.setStop i n).rest = s.rest := by
  cases i <;> rfl

@[simp] theorem setStop_scopes (i : Option Nat) (n : Nat) : (s.setStop i n).scopes = s.scopes := by
  cases i <;> rfl

@[simp] theorem leave_rest (scope : Scope) (outer : List Scope) (n : Nat) :
    (s.leave scope outer n).rest = s.rest := by simp [leave]

@[simp] theorem leave_scopes (scope : Scope) (outer : List Scope) (n : Nat) :
    (s.leave scope outer n).scopes = outer := rfl

end Simp

theorem tail_fromSemicolon_length (ts : List Token) :
    (fromSemicolon ts).tail.length ≤ ts.length := by
  have := (List.dropWhile_sublist (fun t : Token => !t.isPunct ';') (l := ts)).length_le
  simp only [fromSemicolon, List.length_tail]
  omega

theorem enter_size (text : List Char) (recording : Bool) (h : Header) (s : Scan) :
    (s.enter text recording h).size ≤ 2 * h.rest.length + s.scopes.length + 1 := by
  have hf := Header.findEnd_length 0 false h.rest
  have hs := tail_fromSemicolon_length
  unfold enter
  generalize Header.findEnd 0 false h.rest = e at hf
  cases e with
  | semicolon ts =>
    simp only [Header.End.tokens, size, goOn_rest, goOn_scopes, record_scopes,
      List.length_tail] at hf ⊢
    omega
  | cut ts d =>
    simp only [Header.End.tokens] at hf
    dsimp only
    split <;> simp only [size, goOn_rest, goOn_scopes, report_rest, report_scopes,
      record_scopes] <;> omega
  | body ts =>
    have := hs ts.tail
    have : ts.tail.length ≤ ts.length := by simp
    simp only [Header.End.tokens] at hf
    dsimp only
    split
    · simp only [size, goOn_rest, goOn_scopes, setStop_scopes, record_scopes]
      omega
    · simp only [size, List.length_cons, record_scopes]
      omega

theorem declare_size (text : List Char) (s : Scan) (scope : Scope) (t : Token) (k : Symbol.Kind)
    (n : String) (rest : List Token) :
    (s.declare text scope t k n rest).size ≤ 2 * rest.length + s.scopes.length := by
  have := tail_fromSemicolon_length rest
  simp only [declare, size, goOn_rest, goOn_scopes, record_scopes]
  omega

theorem stepOver_size (s : Scan) (t : Token) (rest : List Token) :
    (s.stepOver t rest).size ≤ 2 * rest.length + s.scopes.length := by
  have := Unexpected.skip_length t rest
  simp only [stepOver, size, goOn_rest, goOn_scopes, report_scopes]
  omega

theorem leaveAt_size (text : List Char) (s : Scan) (scope : Scope) (outer : List Scope)
    {e : Option Extent} {n : Nat} (h : ∀ x ∈ e, x.rest.length ≤ n) :
    (s.leaveAt text scope outer e).size ≤ 2 * n + outer.length := by
  cases e with
  | none => simp only [leaveAt, size, report_rest, report_scopes, goOn_rest, goOn_scopes,
      leave_scopes, List.length_nil]; omega
  | some x =>
    have := h x rfl
    simp only [leaveAt, size, goOn_rest, goOn_scopes, leave_scopes]
    omega

theorem stepIn_size {text : List Char} {s : Scan} {scope : Scope} {outer : List Scope}
    (hs : s.scopes = scope :: outer) : (s.stepIn text scope outer).size < s.size := by
  have hl : s.scopes.length = outer.length + 1 := by rw [hs]; rfl
  unfold stepIn
  split
  · next h => simp only [size, report_rest, report_scopes, leave_rest, leave_scopes, h, hl]; omega
  · next t rest h =>
    have hn : s.rest.length = rest.length + 1 := by rw [h]; rfl
    have hsize : s.size = 2 * rest.length + 2 + (outer.length + 1) := by rw [size, hn, hl]; omega
    have hover := s.stepOver_size t rest
    have hdeclare (k : Symbol.Kind) (n : String) {ts : List Token} (hts : ts.length ≤ rest.length) :
        (s.declare text scope t k n ts).size < s.size := by
      have := declare_size text s scope t k n ts
      omega
    split
    · simp only [size, goOn_rest, goOn_scopes]; omega
    split
    · omega
    split
    · have hx : ∀ x ∈ Extent.find 0 false rest, x.rest.length ≤ rest.length :=
        fun x hx => Nat.le_of_lt (Extent.find_length hx)
      have := leaveAt_size text s scope outer hx
      omega
    · have hx : ∀ x ∈ Extent.find 0 s.afterDollar (t :: rest), x.rest.length ≤ rest.length :=
        fun x hx => Nat.le_of_lt_succ (Extent.find_length hx)
      have := leaveAt_size text s scope outer hx
      omega
    · simp only [size, report_rest, report_scopes, leave_rest, leave_scopes]; omega
    · have := tail_fromSemicolon_length rest
      simp only [size, goOn_rest, goOn_scopes]; omega
    · next kind _ =>
      split
      · omega
      · next name after hq =>
        have := Header.qualifiedName_length hq
        split
        · exact hdeclare _ _ (by omega)
        · have := enter_size text (scope.symbol.isSome && outer.length + 1 ≤ recordedDepth)
            ⟨t, kind .body, name, after⟩ s
          simp only at *
          omega
    · split
      · omega
      · split
        · exact hdeclare _ _ (by simp)
        · omega
    · exact hdeclare _ _ (Nat.le_refl _)

theorem step_size {text : List Char} {s : Scan} (h : ¬ s.isDone) : (s.step text).size < s.size := by
  unfold step
  split
  · next hs =>
    have hr : s.rest ≠ [] := fun hr => h (by simp [isDone, hs, hr])
    obtain ⟨t, rest, hr⟩ := List.exists_cons_of_ne_nil hr
    unfold stepOut
    split
    · next hd hu =>
      have := Header.ofUnit?_length hu
      have := enter_size text true hd s
      simp only [size] at *
      omega
    · simp only [size, goOn_rest, goOn_scopes, hr, List.tail_cons, List.length_cons]; omega
  · next hs => exact stepIn_size hs

/-- Steps until nothing is left to read and every scope is closed. -/
def run (text : List Char) (s : Scan) : Scan :=
  if h : s.isDone then s
  else
    have : (s.step text).size < s.size := step_size h
    run text (s.step text)
termination_by s.size

end Scan

/-- The outline of a file. Every text has one; where it departs from the language, the outline says
so in its issues. -/
def Outline.ofText (file text : String) : Outline :=
  let chars := text.toList
  let s := (Scan.ofTokens (Token.ofText text)).run chars
  { file, symbols := s.symbols, issues := s.issues.toList, lineStarts := Text.lineStarts chars }

end PlsqlNav
