import Mathlib.Data.List.TakeWhile
import Mathlib.Data.Option.Basic
import PlsqlNav.Proofs.Token.Recogniser
import PlsqlNav.Text.Bytes

/-! The comments that are read, and which of them are documentation. A comment ends at the first `*/`
behind its opening, but an empty one is read on where it can be. -/
namespace PlsqlNav.Lexeme

/-- The text `*/`. -/
abbrev close : List Char := ['*', '/']

/-- A comment that is complete where it stands, before `rest`: two hyphens and all that follows on their
line, or the text from `/*` through the first `*/` behind it. -/
inductive CompleteComment (rest : List Char) : List Char → Prop where
  | line {body : List Char} : '\n' ∉ body → (∀ d ∈ rest.head?, d = '\n') →
      CompleteComment rest ('-' :: '-' :: body)
  | block {body : List Char} : ¬ close <:+: body ++ ['*'] →
      CompleteComment rest ('/' :: '*' :: (body ++ close))

def emptyComment : List Char := ['/', '*', '*', '/']

/-- A comment as it is read. An empty one is taken for the opening of documentation, and goes on to the
next `*/` where there is one. -/
inductive ReadComment (rest : List Char) : List Char → Prop where
  | complete {comment : List Char} : CompleteComment rest comment →
      ¬ (comment = emptyComment ∧ close <:+: rest) → ReadComment rest comment
  | runOn {body : List Char} : ¬ close <:+: body ++ ['*'] →
      ReadComment rest (emptyComment ++ (body ++ close))

def isDocumentation (comment : List Char) : Bool :=
  ['/', '*', '*'].isPrefixOf comment && decide (5 ≤ Text.byteLength comment)

section Through
variable {a b c : Char} {cs body : List Char} {n : Nat}

theorem pair_infix_cons : [a, b] <:+: c :: cs ↔ (c = a ∧ cs.head? = some b) ∨ [a, b] <:+: cs := by
  rw [List.infix_cons_iff, List.cons_prefix_cons, eq_comm (a := a)]
  cases cs with
  | nil => simp
  | cons d cs => simp [List.cons_prefix_cons, eq_comm]

theorem through_eq_none : through a b cs = none ↔ ¬ [a, b] <:+: cs := by
  induction cs with
  | nil => simp [through]
  | cons c cs ih =>
    rw [pair_infix_cons, through]
    split
    · next h => simp [h]
    · next h => simp [h, ih]

/-- The text through the first place where `b` follows `a`. -/
theorem through_append (h : ¬ [a, b] <:+: body ++ [a]) (back : List Char) :
    through a b (body ++ [a, b] ++ back) = some (body ++ [a, b]).length := by
  induction body with
  | nil => exact if_pos ⟨rfl, rfl⟩
  | cons d body ih =>
    rw [List.cons_append, pair_infix_cons, not_or] at h
    have hhead : (body ++ [a, b] ++ back).head? = (body ++ [a]).head? := by cases body <;> rfl
    rw [List.cons_append, List.cons_append, through, hhead, if_neg h.1, ih h.2]
    rfl

theorem exists_of_through (h : through a b cs = some n) :
    ∃ body back, cs = body ++ [a, b] ++ back ∧ n = (body ++ [a, b]).length ∧
      ¬ [a, b] <:+: body ++ [a] := by
  induction cs generalizing n with
  | nil => contradiction
  | cons c cs ih =>
    rw [through] at h
    split at h
    · next hclose =>
      cases h
      obtain ⟨rfl, hb⟩ := hclose
      obtain ⟨back, rfl⟩ := List.head?_eq_some_iff.mp hb
      refine ⟨[], back, rfl, rfl, ?_⟩
      intro hinfix
      exact absurd hinfix.length_le (Nat.not_succ_le_self 1)
    · next hopen =>
      obtain ⟨m, hm, rfl⟩ := Option.map_eq_some_iff.mp h
      obtain ⟨body, back, rfl, rfl, hbody⟩ := ih hm
      refine ⟨c :: body, back, rfl, rfl, ?_⟩
      have hhead : (body ++ [a, b] ++ back).head? = (body ++ [a]).head? := by cases body <;> rfl
      rw [List.cons_append, pair_infix_cons, not_or, ← hhead]
      exact ⟨hopen, hbody⟩

end Through

section Read
variable {c : Char} {cs rest body : List Char} {n : Nat}

/-- The first recogniser that accepts decides. -/
theorem read_documentation (h : documentation c cs = some n) : read c cs = (.documentation, n) := by
  rw [read_eq, recognise, h]
  rfl

theorem read_blockComment (hdoc : documentation c cs = none) (h : blockComment c cs = some n) :
    read c cs = (.comment, n) := by
  rw [read_eq, recognise, hdoc, h]
  rfl

theorem recognise_of_read {kind : Class} (h : read c cs = (kind, n)) (hkind : ∀ k, kind ≠ .token k) :
    recognise c cs = some (kind, n) := by
  rw [read_eq] at h
  cases hfound : recognise c cs with
  | none =>
    rw [hfound] at h
    cases h
    exact absurd rfl (hkind _)
  | some found =>
    rw [hfound] at h
    exact congrArg some h

theorem documentation_of_read (h : read c cs = (.documentation, n)) : documentation c cs = some n := by
  have hfound := recognise_of_read h nofun
  simpa [recognise] using hfound

theorem comment_of_read (h : read c cs = (.comment, n)) : documentation c cs = none ∧
    (blockComment c cs = some n ∨ lineComment c cs = some n) := by
  have hfound := recognise_of_read h nofun
  have hfound : documentation c cs = none ∧
      (blockComment c cs = some n ∨ blockComment c cs = none ∧ lineComment c cs = some n) := by
    simpa [recognise] using hfound
  exact ⟨hfound.1, hfound.2.imp_right And.right⟩

theorem isDocumentation_opened (body : List Char) :
    isDocumentation ('/' :: '*' :: '*' :: body) = decide (2 ≤ Text.byteLength body) := by
  have hlen : Text.byteLength ('/' :: '*' :: '*' :: body) = 1 + (1 + (1 + Text.byteLength body)) := rfl
  have hopened : ['/', '*', '*'].isPrefixOf ('/' :: '*' :: '*' :: body) := by simp
  rw [isDocumentation, hopened, Bool.true_and, hlen]
  apply decide_eq_decide.mpr
  omega

theorem isDocumentation_closed (body : List Char) :
    isDocumentation ('/' :: '*' :: '*' :: (body ++ close)) := by
  have hclose : Text.byteLength close = 2 := by decide
  rw [isDocumentation_opened, decide_eq_true_eq, Text.byteLength_append, hclose]
  exact Nat.le_add_left _ _

theorem isDocumentation_other {d : Char} (hd : d ≠ '*') (cs : List Char) :
    isDocumentation ('/' :: '*' :: d :: cs) = false := by
  simp [isDocumentation, Ne.symm hd]

theorem infix_close_slash {cs : List Char} : close <:+: '/' :: cs ↔ close <:+: cs := by
  rw [pair_infix_cons]
  exact or_iff_right fun h => absurd h.1 (by decide)

/-- Documentation as it is read. -/
theorem read_opened (h : ¬ close <:+: body ++ ['*']) (rest : List Char) :
    read '/' ('*' :: '*' :: (body ++ close ++ rest)) =
      (.documentation, ('*' :: '*' :: (body ++ close)).length) := by
  apply read_documentation
  rw [documentation, through_append h]
  rfl

theorem read_closed {d : Char} (hd : d ≠ '*') (h : ¬ close <:+: d :: body ++ ['*']) (rest : List Char) :
    read '/' ('*' :: (d :: body ++ close ++ rest)) =
      (.comment, ('*' :: (d :: body ++ close)).length) := by
  apply read_blockComment
  · rw [documentation_eq, if_pos rfl]
    simp [after, hd]
  · rw [blockComment, through_append h]
    rfl

theorem read_emptyComment (h : ¬ close <:+: rest) :
    read '/' ('*' :: '*' :: '/' :: rest) = (.comment, 3) := by
  apply read_blockComment
  · rw [documentation, through_eq_none.mpr (infix_close_slash.not.mpr h)]
    rfl
  · have hclose : ¬ close <:+: [] ++ ['*'] := by decide
    rw [blockComment, ← List.nil_append ('*' :: '/' :: rest)]
    exact congrArg (Option.map _) (through_append hclose rest)

theorem read_line (hbody : '\n' ∉ body) (hrest : ∀ d ∈ rest.head?, d = '\n') :
    read '-' ('-' :: (body ++ rest)) = (.comment, body.length + 1) := by
  have hline : ∀ d ∈ body, decide (d ≠ '\n') := fun d hd =>
    decide_eq_true fun h => hbody (h ▸ hd)
  have hend : rest.takeWhile (fun d => decide (d ≠ '\n')) = [] := by
    cases rest with
    | nil => rfl
    | cons d rest =>
      rw [hrest d rfl]
      rfl
  rw [read_lineComment, List.takeWhile_append_of_pos hline, hend, List.append_nil]

/-- The comments as they are read are the lexemes that are no tokens. -/
theorem ReadComment.read (h : ReadComment rest (c :: cs)) : Lexeme.read c (cs ++ rest) =
    (if isDocumentation (c :: cs) then .documentation else .comment, cs.length) := by
  generalize hcomment : c :: cs = comment at h
  cases h with
  | @runOn body hbody =>
    cases hcomment
    have hslash : ¬ close <:+: '/' :: body ++ ['*'] := infix_close_slash.not.mpr hbody
    have hdoc : isDocumentation (emptyComment ++ (body ++ close)) := isDocumentation_closed ('/' :: body)
    rw [if_pos hdoc]
    exact read_opened hslash rest
  | complete hcomplete hempty =>
    cases hcomplete with
    | @line body hbody hrest =>
      cases hcomment
      exact read_line hbody hrest
    | @block body hbody =>
      cases hcomment
      cases body with
      | nil =>
        refine read_emptyComment fun hrest => hempty ⟨rfl, hrest⟩
      | cons d body =>
        by_cases hd : d = '*'
        · subst hd
          rw [List.cons_append, pair_infix_cons, not_or] at hbody
          have hdoc : isDocumentation ('/' :: '*' :: ('*' :: body ++ close)) :=
            isDocumentation_closed body
          rw [if_pos hdoc]
          exact read_opened hbody.2 rest
        · have hplain : isDocumentation ('/' :: '*' :: (d :: body ++ close)) = false :=
            isDocumentation_other hd _
          rw [hplain]
          exact read_closed hd hbody rest

/-- Only an empty comment may be read past its first end. -/
theorem ReadComment.block (h : ¬ close <:+: body ++ ['*']) (hempty : ¬ (body = [] ∧ close <:+: rest)) :
    ReadComment rest ('/' :: '*' :: (body ++ close)) := by
  refine .complete (.block h) ?_
  rintro ⟨heq, hrest⟩
  have hbody : body ++ close = close := List.tail_eq_of_cons_eq (List.tail_eq_of_cons_eq heq)
  rw [List.append_left_eq_self] at hbody
  exact hempty ⟨hbody, hrest⟩

theorem readComment_of_documentation (h : documentation c cs = some n) :
    n ≤ cs.length ∧ ReadComment (cs.drop n) (c :: cs.take n) := by
  obtain ⟨text, m, rfl, rfl, hthrough, rfl⟩ := documentation_eq_some h
  obtain ⟨body, back, rfl, rfl, hbody⟩ := exists_of_through hthrough
  refine ⟨?_, ?_⟩
  · exact Nat.add_le_add_right (List.prefix_append _ back).length_le 2
  rw [List.take_succ_cons, List.take_succ_cons, List.drop_succ_cons, List.drop_succ_cons,
    List.take_left, List.drop_left]
  -- With a stroke right behind its opening this is an empty comment that runs on.
  by_cases hslash : ∃ inner, body = '/' :: inner
  · obtain ⟨inner, rfl⟩ := hslash
    exact .runOn (infix_close_slash.not.mp hbody)
  · have hinner : ¬ close <:+: '*' :: body ++ ['*'] := by
      rw [List.cons_append, pair_infix_cons, not_or]
      refine ⟨?_, hbody⟩
      rintro ⟨-, hhead⟩
      cases body with
      | nil => contradiction
      | cons d body =>
        cases hhead
        exact hslash ⟨body, rfl⟩
    refine .complete (.block hinner) ?_
    rintro ⟨hempty, -⟩
    have hlen := congrArg List.length hempty
    simp [emptyComment] at hlen

theorem readComment_of_blockComment (hdoc : documentation c cs = none) (h : blockComment c cs = some n) :
    n ≤ cs.length ∧ ReadComment (cs.drop n) (c :: cs.take n) := by
  obtain ⟨text, m, rfl, rfl, hthrough, rfl⟩ := blockComment_eq_some h
  obtain ⟨body, back, rfl, rfl, hbody⟩ := exists_of_through hthrough
  refine ⟨?_, ?_⟩
  · exact Nat.add_le_add_right (List.prefix_append _ back).length_le 1
  rw [List.take_succ_cons, List.drop_succ_cons, List.take_left, List.drop_left]
  refine .block hbody ?_
  rintro ⟨rfl, hback⟩
  have hnone : through '*' '/' ('/' :: back) = none := Option.map_eq_none_iff.mp hdoc
  exact through_eq_none.mp hnone (infix_close_slash.mpr hback)

theorem readComment_of_lineComment (h : lineComment c cs = some n) :
    n ≤ cs.length ∧ ReadComment (cs.drop n) (c :: cs.take n) := by
  obtain ⟨body, rfl, rfl, rfl⟩ := lineComment_eq_some h
  have htake : body.take (body.takeWhile (· ≠ '\n')).length = body.takeWhile (· ≠ '\n') :=
    (List.prefix_iff_eq_take.mp (List.takeWhile_prefix _)).symm
  have hdrop : body.drop (body.takeWhile (· ≠ '\n')).length = body.dropWhile (· ≠ '\n') := by
    have hall := List.take_append_drop (body.takeWhile (· ≠ '\n')).length body
    rw [htake] at hall
    exact List.append_cancel_left (hall.trans List.takeWhile_append_dropWhile.symm)
  refine ⟨Nat.add_le_add_right (List.takeWhile_prefix _).length_le 1, ?_⟩
  rw [List.take_succ_cons, List.drop_succ_cons, htake, hdrop]
  refine .complete (.line ?_ ?_) ?_
  · intro hmem
    have hline := List.mem_takeWhile_imp hmem
    exact absurd rfl (of_decide_eq_true hline)
  · intro d hd
    have hend := List.head?_dropWhile_not (fun d : Char => decide (d ≠ '\n')) body
    rw [Option.mem_def.mp hd] at hend
    exact not_not.mp (of_decide_eq_false hend)
  · rintro ⟨hempty, -⟩
    cases hempty

theorem readComment_of_read {kind : Class} (h : Lexeme.read c cs = (kind, n))
    (hkind : kind = .documentation ∨ kind = .comment) :
    n ≤ cs.length ∧ ReadComment (cs.drop n) (c :: cs.take n) := by
  obtain rfl | rfl := hkind
  · exact readComment_of_documentation (documentation_of_read h)
  · obtain ⟨hdoc, hblock | hline⟩ := comment_of_read h
    · exact readComment_of_blockComment hdoc hblock
    · exact readComment_of_lineComment hline

theorem isDocumentation_iff_of_read {kind : Class} (h : Lexeme.read c cs = (kind, n))
    (hkind : kind = .documentation ∨ kind = .comment) :
    isDocumentation (c :: cs.take n) ↔ kind = .documentation := by
  have hread := (readComment_of_read h hkind).2.read
  rw [List.take_append_drop, h, Prod.mk.injEq] at hread
  rw [hread.1]
  split
  · next hdoc => exact iff_of_true hdoc rfl
  · next hplain => exact iff_of_false hplain (by decide)

/-- A comment that is read opens with a stroke or a hyphen. -/
theorem ReadComment.exists_cons {comment : List Char} (h : ReadComment rest comment) :
    ∃ c cs, comment = c :: cs ∧ (c = '/' ∨ c = '-') := by
  cases h with
  | runOn => exact ⟨'/', _, rfl, .inl rfl⟩
  | complete h _ =>
    cases h with
    | line => exact ⟨'-', _, rfl, .inr rfl⟩
    | block => exact ⟨'/', _, rfl, .inl rfl⟩

/-- Where there is no empty comment, comments are read as they are written. -/
theorem readComment_iff {comment : List Char} (h : ¬ emptyComment <:+: comment ++ rest) :
    ReadComment rest comment ↔ CompleteComment rest comment := by
  constructor
  · intro hread
    cases hread with
    | complete hcomplete _ => exact hcomplete
    | runOn =>
      rw [List.append_assoc] at h
      exact absurd (List.prefix_append _ _).isInfix h
  · intro hcomplete
    refine .complete hcomplete ?_
    rintro ⟨rfl, -⟩
    exact h (List.prefix_append _ _).isInfix

/-- Where a text starts with a comment, there is one way to read it. -/
theorem ReadComment.unique {rest' comment comment' : List Char} (h : ReadComment rest comment)
    (h' : ReadComment rest' comment') (htext : comment ++ rest = comment' ++ rest') :
    comment = comment' ∧ rest = rest' := by
  obtain ⟨c, cs, rfl, _⟩ := h.exists_cons
  obtain ⟨c', cs', rfl, _⟩ := h'.exists_cons
  obtain ⟨rfl, htail⟩ := List.cons.inj htext
  have htail : cs ++ rest = cs' ++ rest' := htail
  have hread := h.read
  rw [htail, h'.read] at hread
  have hlen : (c :: cs).length = (c :: cs').length := congrArg (· + 1) (Prod.mk.inj hread).2.symm
  exact List.append_inj htext hlen

end Read

end PlsqlNav.Lexeme
