import PlsqlNav.Proofs.Token.Coverage

/-! Where a block comment ends, wherever a text has one: behind the first `*/` after its opening, and
reading goes on there. Only an empty comment with another `*/` somewhere behind it goes on to that. -/
namespace PlsqlNav.Token

/-- A reading of a text that has come to `rest`, at `pos`, with `doc` waiting for a token. -/
structure Reader where
  tokens : List Token
  pos : Nat
  doc : Option Comment
  rest : List Char
  deriving DecidableEq, Repr

namespace Reader

def start (text : List Char) : Reader := ⟨[], 0, none, text⟩

/-- Reads on over one blank, one comment or one token. -/
def next (r : Reader) : Option Reader :=
  match r.rest with
  | [] => none
  | c :: cs =>
    if Text.isBlank c then some { r with pos := r.pos + c.utf8Size, rest := cs }
    else
      let (kind, n) := Lexeme.read c cs
      let lexeme := c :: cs.take n
      let pos := r.pos + Text.byteLength lexeme
      match kind with
      | .documentation => some ⟨r.tokens, pos, some ⟨r.pos, String.ofList lexeme⟩, cs.drop n⟩
      | .comment => some ⟨r.tokens, pos, none, cs.drop n⟩
      | .token kind =>
        some ⟨r.tokens ++ [⟨kind, r.pos, String.ofList lexeme, r.doc⟩], pos, none, cs.drop n⟩

/-- The tokens that were read, and those that will be. -/
def all (r : Reader) : List Token := r.tokens ++ scan r.pos r.doc r.rest

inductive Reaches (text : List Char) : Reader → Prop
  | start : Reaches text (start text)
  | next {r r' : Reader} : Reaches text r → r.next = some r' → Reaches text r'

variable {text : List Char} {r r' : Reader}

/-- What one step reads, and what that adds to the tokens. -/
theorem next_eq_some (h : r.next = some r') : ∃ lexeme, r.rest = lexeme ++ r'.rest ∧
    r'.pos = r.pos + Text.byteLength lexeme ∧ r'.all = r.all := by
  rw [next] at h
  split at h
  · contradiction
  · next c cs hrest =>
    split at h
    · next hblank =>
      cases h
      refine ⟨[c], hrest, rfl, ?_⟩
      rw [all, all, hrest, scan_blank hblank]
    · next hblank =>
      have htext (n : Nat) : r.rest = (c :: cs.take n) ++ cs.drop n := by
        rw [hrest, List.cons_append, List.take_append_drop]
      generalize hread : Lexeme.read c cs = lexeme at h
      obtain ⟨kind, n⟩ := lexeme
      dsimp only at h
      split at h
      · cases h
        refine ⟨_, htext n, rfl, ?_⟩
        rw [all, all, hrest, scan_documentation hblank hread]
      · cases h
        refine ⟨_, htext n, rfl, ?_⟩
        rw [all, all, hrest, scan_comment hblank hread]
      · cases h
        refine ⟨_, htext n, rfl, ?_⟩
        rw [all, all, hrest, scan_token hblank hread, List.append_assoc]
        rfl

/-- A reader stands at a position of the text, and reads all its tokens. -/
theorem Reaches.stands (h : Reaches text r) :
    (∃ front, text = front ++ r.rest ∧ r.pos = Text.byteLength front) ∧ r.all = scan 0 none text := by
  induction h with
  | start => exact ⟨⟨[], rfl, rfl⟩, rfl⟩
  | next _ hnext ih =>
    obtain ⟨⟨front, htext, hpos⟩, hall⟩ := ih
    obtain ⟨lexeme, hrest, hpos', hall'⟩ := next_eq_some hnext
    refine ⟨⟨front ++ lexeme, ?_, ?_⟩, hall'.trans hall⟩
    · rw [List.append_assoc, ← hrest, htext]
    · rw [hpos', hpos, Text.byteLength_append]

/-- The reader behind a comment, which waits for a token where it is documentation. -/
def behind (r : Reader) (comment rest : List Char) : Reader :=
  ⟨r.tokens, r.pos + Text.byteLength comment,
    if Lexeme.isDocumentation comment then some ⟨r.pos, String.ofList comment⟩ else none, rest⟩

theorem next_comment {comment rest : List Char} (h : Lexeme.ReadComment rest comment)
    (hrest : r.rest = comment ++ rest) : r.next = some (r.behind comment rest) := by
  obtain ⟨c, cs, rfl, _⟩ := h.exists_cons
  have hblank := not_isBlank_of_readComment h rfl
  rw [next, hrest, List.cons_append]
  dsimp only
  rw [if_neg hblank, h.read, List.take_left, List.drop_left, behind]
  by_cases hdoc : Lexeme.isDocumentation (c :: cs)
  · rw [if_pos hdoc, if_pos hdoc]
  · rw [if_neg hdoc, if_neg hdoc]

section Block
open Lexeme
variable {body rest : List Char}

/-- A text from `/*` through the first `*/` behind it. -/
abbrev blockOf (body : List Char) : List Char := '/' :: '*' :: (body ++ close)

/-- At the opening of a block comment, the reader passes over the comment to its first end, and over
nothing else. An empty comment goes on to the next `*/`, where there is one. -/
theorem next_blockComment (text : String) {r : Reader} (hr : Reaches text.toList r)
    (hrest : r.rest = blockOf body ++ rest) (hfirst : ¬ close <:+: body ++ ['*']) :
    ((∃ front, text.toList = front ++ r.rest ∧ r.pos = Text.byteLength front) ∧
      r.all = ofText text) ∧
    (¬ (body = [] ∧ close <:+: rest) → r.next = some (r.behind (blockOf body) rest)) ∧
    ∀ inner rest', body = [] → rest = inner ++ close ++ rest' → ¬ close <:+: inner ++ ['*'] →
      r.next = some (r.behind (blockOf [] ++ (inner ++ close)) rest') := by
  refine ⟨hr.stands, fun hplain => next_comment (.block hfirst hplain) hrest, ?_⟩
  rintro inner rest' rfl rfl hinner
  refine next_comment (.runOn hinner) ?_
  rw [hrest, List.append_assoc, List.append_assoc, List.append_assoc]

/-- An empty comment with no other comment behind it ends where it should. -/
theorem next_blockComment_empty :
    let r : Reader := ⟨[⟨.word, 0, "x", none⟩], 1, none, "/**/y".toList⟩
    Reaches "x/**/y".toList r ∧ r.rest = blockOf [] ++ "y".toList ∧
      ¬ close <:+: ([] : List Char) ++ ['*'] ∧
        r.next = some ⟨[⟨.word, 0, "x", none⟩], 5, none, "y".toList⟩ := by
  intro r
  have hr : Reaches "x/**/y".toList r := .next .start (by decide +kernel)
  have hrest : r.rest = blockOf [] ++ "y".toList := by decide +kernel
  have hfirst : ¬ close <:+: ([] : List Char) ++ ['*'] := by decide
  have hplain : ¬ (([] : List Char) = [] ∧ close <:+: "y".toList) := by decide
  refine ⟨hr, hrest, hfirst, ((next_blockComment _ hr hrest hfirst).2.1 hplain).trans ?_⟩
  decide +kernel

/-- With a comment behind it, an empty comment goes on past its end. -/
theorem not_forall_next_behind_blockComment : ¬ ∀ (text : String) (r : Reader),
    Reaches text.toList r → ∀ body rest, r.rest = blockOf body ++ rest →
      ¬ close <:+: body ++ ['*'] → r.next = some (r.behind (blockOf body) rest) := by
  intro hends
  have hnext := hends "/**/x;/* y */z" _ .start [] "x;/* y */z".toList (by decide +kernel) (by decide)
  have hposition := congrArg (Option.map Reader.pos) hnext
  exact absurd hposition (by decide +kernel)

end Block

end Reader

end PlsqlNav.Token
