import PlsqlNav.Token.Lexeme

/-! The recognisers of the lexical grammar, each as an equation that says what it does behind its first
character. -/
namespace PlsqlNav.Lexeme

/-- `f` after a character that `p` accepts. -/
def after (p : Char → Bool) (f : List Char → Option Nat) : List Char → Option Nat
  | [] => none
  | c :: cs => if p c then (f cs).map (· + 1) else none

theorem documentation_eq (c : Char) (cs : List Char) : documentation c cs =
    if c = '/' then after (· = '*') (after (· = '*') (through '*' '/')) cs else none := by
  unfold documentation
  split
  · simp only [after, decide_true, if_true, Option.map_map]
    rfl
  · next hother =>
    split
    · next hc =>
      rcases cs with _ | ⟨d, _ | ⟨e, cs⟩⟩
      · rfl
      · simp [after]
      · simp only [after, decide_eq_true_eq]
        split
        · split
          · next hd he =>
            subst hd he
            exact absurd rfl (hother cs hc)
          · rfl
        · rfl
    · rfl

theorem blockComment_eq (c : Char) (cs : List Char) : blockComment c cs =
    if c = '/' then after (· = '*') (through '*' '/') cs else none := by
  unfold blockComment
  split
  · rfl
  · next hother =>
    split
    · next hc =>
      cases cs with
      | nil => rfl
      | cons d cs =>
        simp only [after, decide_eq_true_eq]
        split
        · next hd =>
          subst hd
          exact absurd rfl (hother cs hc)
        · rfl
    · rfl

theorem lineComment_eq (c : Char) (cs : List Char) : lineComment c cs =
    if c = '-' then after (· = '-') (fun body => some (body.takeWhile (· ≠ '\n')).length) cs
    else none := by
  unfold lineComment
  split
  · rfl
  · next hother =>
    split
    · next hc =>
      cases cs with
      | nil => rfl
      | cons d cs =>
        simp only [after, decide_eq_true_eq]
        split
        · next hd =>
          subst hd
          exact absurd rfl (hother cs hc)
        · rfl
    · rfl

theorem bracketedString_eq (c : Char) (cs : List Char) : bracketedString c cs =
    if c = 'q' ∨ c = 'Q' then after (· = '\'') bracketed cs
    else if c = 'n' ∨ c = 'N' then
      after (fun q => q = 'q' ∨ q = 'Q') (after (· = '\'') bracketed) cs
    else none := by
  unfold bracketedString
  split
  · cases cs with
    | nil => rfl
    | cons d cs =>
      by_cases hd : d = '\''
      · subst hd
        rfl
      · simp [after, hd]
  · split
    · rcases cs with _ | ⟨d, _ | ⟨e, cs⟩⟩
      · rfl
      · simp [after]
      · by_cases he : e = '\''
        · subst he
          simp only [after, decide_true, if_true, Option.map_map, decide_eq_true_eq]
          rfl
        · simp [after, he]
    · rfl

theorem plainString_eq (c : Char) (cs : List Char) : plainString c cs =
    if c = '\'' then closing cs
    else if c = 'n' ∨ c = 'N' then after (· = '\'') closing cs else none := by
  unfold plainString
  split
  · rfl
  · split
    · cases cs with
      | nil => rfl
      | cons d cs =>
        by_cases hd : d = '\''
        · subst hd
          rfl
        · simp [after, hd]
    · rfl

theorem closing_pair (cs : List Char) :
    closing ('\'' :: '\'' :: cs) = some (((closing cs).map (· + 2)).getD 1) := by
  rw [closing]
  cases closing cs <;> rfl

theorem closing_quote {cs : List Char} (h : cs.head? ≠ some '\'') : closing ('\'' :: cs) = some 1 := by
  rw [closing]
  rintro cs rfl
  exact h rfl

theorem closing_other {c : Char} (h : c ≠ '\'') (cs : List Char) :
    closing (c :: cs) = (closing cs).map (· + 1) := by
  rw [closing]
  · intro _ hc
    exact absurd hc h
  · exact h

theorem closing_quote_isSome (cs : List Char) : (closing ('\'' :: cs)).isSome := by
  by_cases h : cs.head? = some '\''
  · obtain ⟨cs, rfl⟩ := List.head?_eq_some_iff.mp h
    rw [closing_pair]
    rfl
  · rw [closing_quote h]
    rfl

/-- The characters of a quoted name before its last quotation mark. -/
def inner (cs : List Char) : List Char := cs.takeWhile fun d => d ≠ '"' ∧ d ≠ '\n'

theorem quotedName_eq (c : Char) (cs : List Char) : quotedName c cs =
    if c = '"' ∧ cs[(inner cs).length]? = some '"' then some ((inner cs).length + 1) else none := by
  unfold quotedName
  split
  · next hc =>
    simp only [hc, true_and]
    rfl
  · next hc => rw [if_neg fun h => hc h.1]

/-- The characters of a number behind its leading digits. -/
def fraction : List Char → Nat
  | '.' :: rest =>
    let digits := (rest.takeWhile Char.isDigit).length
    if digits = 0 then 0 else digits + 1
  | _ => 0

theorem number_eq (c : Char) (cs : List Char) : number c cs =
    if c.isDigit then
      some ((cs.takeWhile Char.isDigit).length + fraction (cs.drop (cs.takeWhile Char.isDigit).length))
    else none := by
  rw [number]
  split
  · dsimp only
    split
    · next rest h =>
      rw [h, fraction]
      split
      · rfl
      · rw [Nat.add_right_comm, Nat.add_assoc]
    · next h =>
      rw [fraction]
      · rfl
      · exact h
  · rfl

/-- What a character that is no white space starts, unless it is a lexeme by itself. -/
def recognise (c : Char) (cs : List Char) : Option (Class × Nat) :=
  (documentation c cs).map (Class.documentation, ·) <|>
  (blockComment c cs).map (Class.comment, ·) <|>
  (lineComment c cs).map (Class.comment, ·) <|>
  (bracketedString c cs).map (Class.token .string, ·) <|>
  (plainString c cs).map (Class.token .string, ·) <|>
  (quotedName c cs).map (Class.token .quoted, ·) <|>
  (word c cs).map (Class.token .word, ·) <|>
  (number c cs).map (Class.token .number, ·)

theorem read_eq (c : Char) (cs : List Char) :
    read c cs = (recognise c cs).getD (.token (.punct c), 0) := rfl

theorem documentation_eq_some {c : Char} {cs : List Char} {n : Nat} (h : documentation c cs = some n) :
    ∃ body m, c = '/' ∧ cs = '*' :: '*' :: body ∧ through '*' '/' body = some m ∧ n = m + 2 := by
  unfold documentation at h
  split at h
  · obtain ⟨m, hm, rfl⟩ := Option.map_eq_some_iff.mp h
    exact ⟨_, m, rfl, rfl, hm, rfl⟩
  · contradiction

theorem blockComment_eq_some {c : Char} {cs : List Char} {n : Nat} (h : blockComment c cs = some n) :
    ∃ body m, c = '/' ∧ cs = '*' :: body ∧ through '*' '/' body = some m ∧ n = m + 1 := by
  unfold blockComment at h
  split at h
  · obtain ⟨m, hm, rfl⟩ := Option.map_eq_some_iff.mp h
    exact ⟨_, m, rfl, rfl, hm, rfl⟩
  · contradiction

theorem lineComment_eq_some {c : Char} {cs : List Char} {n : Nat} (h : lineComment c cs = some n) :
    ∃ body, c = '-' ∧ cs = '-' :: body ∧ n = (body.takeWhile (· ≠ '\n')).length + 1 := by
  unfold lineComment at h
  split at h
  · cases h
    exact ⟨_, rfl, rfl, rfl⟩
  · contradiction

theorem read_lineComment (body : List Char) :
    read '-' ('-' :: body) = (.comment, (body.takeWhile (· ≠ '\n')).length + 1) := rfl

end PlsqlNav.Lexeme
