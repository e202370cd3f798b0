import PlsqlNav.Proofs.Scan.Progress
import PlsqlNav.Proofs.Scan.Sound

/-! What a scan records it has read: the tokens of each recorded symbol stand one after another, from
its first token through its name to the token that stops its definition. -/
namespace PlsqlNav

namespace Symbol

/-- The symbol stands for a declaration that has the tokens `lead`, up to its name, and then `body`,
where it is stopped by the tokens `stop`. -/
structure DeclaredBy (text : List Char) (x : Symbol) (lead body stop : List Token) : Prop where
  first : ∃ t ∈ lead.head?, x.start = t.start ∧ x.doc = t.doc.map Comment.text
  named : ∃ t ∈ lead.getLast?, x.name = t.name
  stops : Stops x.kind (body ++ stop) stop
  definition : x.definition = Scan.definition text x.start (Scan.startOf text stop)

def DeclaredIn (text : List Char) (ts : List Token) (x : Symbol) : Prop :=
  ∃ lead body stop, lead ++ (body ++ stop) <:+ ts ∧ x.DeclaredBy text lead body stop

end Symbol

namespace Scan

variable {text : List Char} {ts : List Token} {s s' : Scan} {x : Symbol}

/-- Every recorded symbol is declared in the tokens `ts`. -/
def Declares (text : List Char) (ts : List Token) (s : Scan) : Prop :=
  ∀ x ∈ s.symbols, x.DeclaredIn text ts

namespace Declares

theorem record (h : Declares text ts s) (hx : x.DeclaredIn text ts) (recording : Bool) :
    Declares text ts (s.record recording x) := by
  cases recording with
  | false => exact h
  | true =>
    intro y hy
    rcases Array.mem_push.mp hy with hy | rfl
    · exact h y hy
    · exact hx

/-- Where a symbol's scope ends has no part in its declaration. -/
theorem setStop (h : Declares text ts s) (symbol : Option Nat) (n : Nat) :
    Declares text ts (s.setStop symbol n) := by
  cases symbol with
  | none => exact h
  | some p =>
    intro y hy
    rw [setStop_symbols] at hy
    obtain ⟨i, hi⟩ := Array.mem_iff_getElem?.mp hy
    obtain ⟨x, hx, rfl⟩ := getElem?_stopped hi
    obtain ⟨lead, body, stop, hts, hby⟩ := h x (Array.mem_of_getElem? hx)
    exact ⟨lead, body, stop, hts, { hby with }⟩

theorem leave (h : Declares text ts s) (scope : Scope) (outer : List Scope) (n : Nat) :
    Declares text ts (s.leave scope outer n) := h.setStop scope.symbol n

end Declares

/-- What comes next is declared in the tokens: they are not read again. -/
theorem symbolOf_declaredIn (hs : s.rest <:+ ts) {first : Token} {name : String} {after stop : List Token}
    {kind : Symbol.Kind} (hnames : Token.Names s.rest first name after)
    (hstops : Symbol.Stops kind after stop) :
    (s.symbolOf text first kind name stop).DeclaredIn text ts := by
  obtain ⟨lead, hrest, hfirst, hname⟩ := hnames
  obtain ⟨body, rfl⟩ := hstops.suffix
  rw [hrest] at hs
  exact ⟨lead, body, stop, hs, ⟨first, hfirst, rfl, rfl⟩, hname, hstops, rfl⟩

theorem Declares.move (hs : s.rest <:+ ts) (h : Declares text ts s) (hmove : Move text s s') :
    Declares text ts s' := by
  have hheaded {hd : Header} {e : Header.End} (hread : Header.ofUnit? s.rest = some hd)
      (hend : Header.findEnd 0 false hd.rest = e) :
      (s.symbolOf text hd.first hd.kind hd.name e.tokens).DeclaredIn text ts := by
    obtain ⟨hblock, hnames⟩ := Header.ofUnit?_named hread
    exact symbolOf_declaredIn hs hnames
      (.of_findEnd (Symbol.Kind.hasCounterpart_of_isBlock hblock) hend)
  cases hmove with
  | pass | statement | unexpected => exact h
  | declared _ hnames hkind =>
    have hplain := fun hblock => hkind (Symbol.Kind.hasCounterpart_of_isBlock hblock)
    exact h.record (symbolOf_declaredIn hs hnames (.statement hplain)) _
  | specified recording _ _ hread hstops =>
    exact h.record (symbolOf_declaredIn hs hread.named hstops) recording
  | ended _ hread hend | cut _ hread hend => exact h.record (hheaded hread hend) true
  | called hread _ hend => exact (h.record (hheaded hread hend) _).setStop _ _
  | opened hread _ hend => exact h.record (hheaded hread hend) _
  | @closed scope outer | @interrupted scope outer | @unfinished scope outer =>
    exact h.leave scope outer _

theorem Reaches.declares (h : Reaches text (ofTokens ts) s) : Declares text ts s :=
  h.keeps (fun hs h hmove => Declares.move hs h hmove)
    fun x hx => absurd hx (Array.not_mem_empty x)

end Scan

end PlsqlNav
