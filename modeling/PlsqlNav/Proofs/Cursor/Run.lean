import Mathlib.Order.Bounds.Basic
import PlsqlNav.Proofs.Cursor.Name
import PlsqlNav.Proofs.Text.Position
import PlsqlNav.Proofs.Text.Trimmed

/-! The word under a cursor as the run of identifier characters that touches its column. On a word token
it is that token's text, so that the cursor and the lexer agree on what a word is. -/
namespace PlsqlNav.Cursor

open Text Lexeme

/-- White space and what can start a name behind it, perhaps after a quotation mark. -/
def NameAhead (cs : List Char) : Prop :=
  ∃ (blanks : List Char) (quoted : Bool) (c : Char) (more : List Char),
    cs = blanks ++ (quoteIf quoted ++ c :: more) ∧ blanks ≠ [] ∧ (∀ b ∈ blanks, isBlank b) ∧ startsWord c

/-- The cursor is on `word`, with `right` behind it on the line. A routine keyword before a declared
name stands for that name. -/
structure Names (c : Cursor) (word : String) (right : List Char) : Prop where
  currentWord : ¬ (isRoutineKeyword word ∧ NameAhead right) → c.currentWord = word
  declared : isRoutineKeyword word → ∀ name, declaredName right = some name →
    c = ⟨some (lower word), String.ofList name, false⟩

/-- The positions at which a cursor can be, of a column on the line: between characters, and neither
past the column nor past the line. -/
def reachable (line : List Char) (column : Nat) : Set Nat :=
  { n | IsBoundary line n ∧ n ≤ min column (byteLength line) }

/-- `word` is the whole run of identifier characters that touches the column, between `left` and
`right`; empty where there is none. -/
structure TouchedRun (line : List Char) (column : Nat) (left word right : List Char) : Prop where
  split : line = left ++ (word ++ right)
  identifier : ∀ c ∈ word, isIdentifier c
  opens : ∀ c ∈ left.getLast?, ¬ isIdentifier c
  closes : ∀ c ∈ right.head?, ¬ isIdentifier c
  touches : ∃ pos, IsGreatest (reachable line column) pos ∧
    byteLength left ≤ pos ∧ pos ≤ byteLength left + byteLength word

/-- What the cursors on a line take for words. -/
structure TakesWords (line : String) : Prop where
  token : ∀ t ∈ Token.ofText line, t.kind = .word →
    (∀ c ∈ (takeBytes t.start line.toList).getLast?, ¬ isIdentifier c) →
      ∀ column, t.start ≤ column → column ≤ t.stop →
        Names (ofLine line column) t.text (dropBytes t.stop line.toList)
  run : ∀ column, ∃ left word right, TouchedRun line.toList column left word right ∧
    Names (ofLine line column) (String.ofList word) right
  unique : ∀ column left word right left' word' right', TouchedRun line.toList column left word right →
    TouchedRun line.toList column left' word' right' → left = left' ∧ word = word' ∧ right = right'

section Declared
variable {cs rest : List Char}

theorem nameAt_isSome_iff : (nameAt cs).isSome ↔ ∃ c ∈ (skipQuote cs).head?, startsWord c := by
  rw [nameAt]
  split
  · next hnil => simp [hnil]
  · next c rest hcons => by_cases hc : startsWord c <;> simp [hcons, hc]

theorem declaredName_isSome_iff :
    (declaredName cs).isSome ↔ cs.head?.any isBlank ∧ (nameAt (trimStart cs)).isSome := by
  rw [declaredName]
  by_cases hblank : cs.head?.any isBlank
  · cases hname : nameAt (trimStart cs) with
    | none => simp [guard, hblank]
    | some found =>
      simp only [guard, hblank, if_true, Option.bind_eq_bind, Option.pure_def, Option.bind_some,
        Option.isSome_some, and_self, iff_true]
      split
      · split <;> rfl
      · rfl
  · simp [guard, hblank]

/-- A keyword declares a name exactly where one is ahead. -/
theorem declaredName_isSome_iff_nameAhead : (declaredName cs).isSome ↔ NameAhead cs := by
  rw [declaredName_isSome_iff, nameAt_isSome_iff]
  constructor
  · rintro ⟨hblank, c, hc, hstart⟩
    obtain ⟨quoted, hquoted⟩ := exists_quoteIf (trimStart cs)
    obtain ⟨more, hmore⟩ := List.head?_eq_some_iff.mp hc
    refine ⟨cs.takeWhile isBlank, quoted, c, more, ?_, ?_, ?_, hstart⟩
    · rw [← hmore, ← hquoted, trimStart, List.takeWhile_append_dropWhile]
    · rintro hnil
      cases cs with
      | nil => contradiction
      | cons d cs =>
        have hd : isBlank d := hblank
        rw [List.takeWhile_cons_of_pos hd] at hnil
        contradiction
    · exact fun b hb => List.all_eq_true.mp List.all_takeWhile b hb
  · rintro ⟨blanks, quoted, c, more, rfl, hne, hblanks, hstart⟩
    have hc : ¬ isBlank c := not_isBlank_of_continuesWord (continuesWord_of_startsWord hstart)
    have htrim : trimStart (blanks ++ (quoteIf quoted ++ c :: more)) = quoteIf quoted ++ c :: more := by
      rw [trimStart, List.dropWhile_append_of_pos hblanks]
      cases quoted with
      | true => exact trimStart_of_not_isBlank (by decide)
      | false => exact trimStart_of_not_isBlank hc
    have hskip : skipQuote (quoteIf quoted ++ c :: more) = c :: more := by
      cases quoted with
      | true => rfl
      | false => exact skipQuote_of_ne (ne_quote_of_startsWord hstart)
    refine ⟨?_, c, ?_, hstart⟩
    · obtain ⟨b, bs, rfl⟩ := List.exists_cons_of_ne_nil hne
      exact hblanks b List.mem_cons_self
    · rw [htrim, hskip]
      rfl

theorem onWord_names (left word right : List Char) :
    Names (onWord left word right) (String.ofList word) right where
  currentWord := by
    intro hnot
    have hnone : (if isRoutineKeyword (String.ofList word) then declaredName right else none) = none := by
      split
      · next hword =>
        rw [← Option.not_isSome_iff_eq_none, declaredName_isSome_iff_nameAhead]
        exact fun hahead => hnot ⟨hword, hahead⟩
      · rfl
    rw [onWord, hnone]
    dsimp only
    split <;> rfl
  declared := fun hword _ hname => onWord_declares hword hname

end Declared

section Column
variable {line left word right : List Char} {column : Nat}

/-- The whole characters before a column reach as far as a cursor can. -/
theorem isGreatest_takeBytes (line : List Char) (column : Nat) :
    IsGreatest (reachable line column) (byteLength (takeBytes column line)) := by
  obtain ⟨back, hline, hle, hsplit⟩ := exists_takeBytes_append column line
  have hboundary : IsBoundary line (byteLength (takeBytes column line)) := ⟨_, back, hline, rfl⟩
  refine ⟨⟨hboundary, le_min hle hboundary.le⟩, ?_⟩
  rintro n ⟨⟨front, rest, hfront, rfl⟩, hn⟩
  by_contra hlt
  obtain ⟨more, hmore⟩ := prefix_of_byteLength_le ⟨back, hline.symm⟩ ⟨rest, hfront.symm⟩ (Nat.le_of_not_le hlt)
  -- A longer front of the line takes in the character behind, which the column does not reach.
  cases more with
  | nil => exact hlt (by rw [← hmore, List.append_nil])
  | cons c more =>
    have hback : back = c :: more ++ rest := by
      rw [← hmore, List.append_assoc] at hfront
      exact List.append_cancel_left (hline.symm.trans hfront)
    have hlate := hsplit c (by rw [hback]; rfl)
    have hlen := byteLength_append (takeBytes column line) (c :: more)
    rw [hmore, byteLength] at hlen
    have hcolumn := hn.trans (min_le_left _ _)
    omega

theorem takeBytes_reached (line : List Char) (column : Nat) :
    takeBytes (byteLength (takeBytes column line)) line = takeBytes column line := by
  obtain ⟨back, hline, -, -⟩ := exists_takeBytes_append column line
  have htake := takeBytes_append (takeBytes column line) back
  rwa [← hline] at htake

/-- A cursor is where its column reaches. -/
theorem ofLine_reached (line : String) (column : Nat) :
    ofLine line (byteLength (takeBytes column line.toList)) = ofLine line column := by
  rw [ofLine, ofLine, takeBytes_reached]

namespace TouchedRun

/-- The place that the column reaches cuts the run in two. -/
theorem exists_cut (h : TouchedRun line column left word right) : ∃ front back,
    word = front ++ back ∧ takeBytes column line = left ++ front ∧
      line.drop (takeBytes column line).length = back ++ right := by
  obtain ⟨pos, hpos, hle, hge⟩ := h.touches
  obtain rfl := hpos.unique (isGreatest_takeBytes line column)
  obtain ⟨rest, hline, -, -⟩ := exists_takeBytes_append column line
  have hleft : left <+: line := ⟨word ++ right, h.split.symm⟩
  have hword : left ++ word <+: line := ⟨right, by rw [h.split, List.append_assoc]⟩
  have htake : takeBytes column line <+: line := ⟨rest, hline.symm⟩
  obtain ⟨front, hfront⟩ := prefix_of_byteLength_le hleft htake hle
  obtain ⟨back, hback⟩ := prefix_of_byteLength_le htake hword (by rw [byteLength_append]; exact hge)
  rw [← hfront, List.append_assoc, List.append_cancel_left_eq] at hback
  refine ⟨front, back, hback.symm, hfront.symm, ?_⟩
  rw [← hfront, h.split, ← hback, List.append_assoc, ← List.append_assoc left, List.drop_left]

/-- The run that touches a column, found from there in both directions. -/
theorem eq_runs (h : TouchedRun line column left word right) :
    left = ((takeBytes column line).reverse.dropWhile isIdentifier).reverse ∧
    word = ((takeBytes column line).reverse.takeWhile isIdentifier).reverse ++
      (line.drop (takeBytes column line).length).takeWhile isIdentifier ∧
    right = (line.drop (takeBytes column line).length).dropWhile isIdentifier := by
  obtain ⟨front, back, rfl, hbefore, hafter⟩ := h.exists_cut
  have hfront : ∀ c ∈ front.reverse, isIdentifier c := fun c hc =>
    h.identifier c (List.mem_append_left back (List.mem_reverse.mp hc))
  have hback : ∀ c ∈ back, isIdentifier c := fun c hc =>
    h.identifier c (List.mem_append_right front hc)
  have hlast : ∀ c ∈ left.reverse.head?, ¬ isIdentifier c := by
    rw [List.head?_reverse]
    exact h.opens
  rw [hafter, hbefore, List.reverse_append, takeWhile_run hfront hlast, dropWhile_run hfront hlast,
    takeWhile_run hback h.closes, dropWhile_run hback h.closes, List.reverse_reverse,
    List.reverse_reverse]
  exact ⟨rfl, rfl, rfl⟩

theorem ofLine_eq {line : String} (h : TouchedRun line.toList column left word right) :
    ofLine line column = onWord left word right := by
  obtain ⟨pos, hpos, hle, hge⟩ := h.touches
  obtain rfl := hpos.unique (isGreatest_takeBytes line.toList column)
  rw [← ofLine_reached]
  refine ofLine_eq_onWord h.split h.identifier h.opens h.closes hle ?_
  rwa [← byteLength_run h.identifier]

end TouchedRun

theorem exists_touchedRun (line : List Char) (column : Nat) :
    ∃ left word right, TouchedRun line column left word right := by
  obtain ⟨rest, hline, -, -⟩ := exists_takeBytes_append column line
  generalize hbefore : takeBytes column line = before at hline
  have hreach : IsGreatest (reachable line column) (byteLength before) :=
    hbefore ▸ isGreatest_takeBytes line column
  have hcut : before = (before.reverse.dropWhile isIdentifier).reverse ++
      (before.reverse.takeWhile isIdentifier).reverse := by
    rw [← List.reverse_append, List.takeWhile_append_dropWhile, List.reverse_reverse]
  have hstop := not_head?_dropWhile isIdentifier
  have hrun (cs : List Char) : ∀ c ∈ cs.takeWhile isIdentifier, isIdentifier c :=
    List.all_eq_true.mp List.all_takeWhile
  refine ⟨(before.reverse.dropWhile isIdentifier).reverse,
    (before.reverse.takeWhile isIdentifier).reverse ++ rest.takeWhile isIdentifier,
    rest.dropWhile isIdentifier, ?_, ?_, ?_, hstop rest, byteLength before, hreach, ?_, ?_⟩
  · rw [List.append_assoc, List.takeWhile_append_dropWhile, ← List.append_assoc, ← hcut]
    exact hline
  · intro c hc
    rcases List.mem_append.mp hc with hc | hc
    · exact hrun _ c (List.mem_reverse.mp hc)
    · exact hrun _ c hc
  · rw [List.getLast?_reverse]
    exact hstop _
  · conv_rhs => rw [hcut]
    rw [byteLength_append]
    exact Nat.le_add_right _ _
  · rw [byteLength_append, ← Nat.add_assoc, ← byteLength_append, ← hcut]
    exact Nat.le_add_right _ _

end Column

/-- On a word token, in front of which no word goes on, the cursor is on the whole of it. -/
theorem ofLine_token {line : String} {t : Token} {column : Nat} (ht : t ∈ Token.ofText line)
    (hkind : t.kind = .word) (hleft : ∀ c ∈ (takeBytes t.start line.toList).getLast?, ¬ isIdentifier c)
    (hle : t.start ≤ column) (hge : column ≤ t.stop) :
    ofLine line column =
      onWord (takeBytes t.start line.toList) t.text.toList (dropBytes t.stop line.toList) := by
  obtain ⟨before, after, hts⟩ := List.append_of_mem ht
  obtain ⟨front, back, hsplit, hstart, ⟨c, cs, htext, hfirst, hrest⟩, hwhole⟩ :=
    Token.exists_wordStands (hts ▸ List.suffix_append before (t :: after)) hkind
  have hword : ∀ d ∈ t.text.toList, continuesWord d := by
    rw [htext, List.forall_mem_cons]
    exact ⟨continuesWord_of_startsWord hfirst, hrest⟩
  have hstop : t.stop = byteLength (front ++ t.text.toList) := by
    rw [Token.stop, hstart, byteLength_append]
  have hfront : takeBytes t.start line.toList = front := by rw [hsplit, hstart, takeBytes_append]
  have hback : dropBytes t.stop line.toList = back := by
    rw [hsplit, hstop, ← List.append_assoc, dropBytes_append]
  rw [hfront] at hleft ⊢
  rw [hback]
  refine ofLine_eq_onWord hsplit hword hleft hwhole (hstart ▸ hle) ?_
  rwa [← byteLength_run hword, ← byteLength_append, ← hstop]

/-- On every line, the word under a cursor is the run of identifier characters around it, and on a word
token that token's text. -/
theorem ofLine_takesWords (line : String) : TakesWords line where
  token := by
    intro t ht hkind hleft column hle hge
    rw [ofLine_token ht hkind hleft hle hge]
    have hnames := onWord_names (takeBytes t.start line.toList) t.text.toList
      (dropBytes t.stop line.toList)
    rwa [String.ofList_toList] at hnames
  run := by
    intro column
    obtain ⟨left, word, right, hrun⟩ := exists_touchedRun line.toList column
    refine ⟨left, word, right, hrun, ?_⟩
    rw [hrun.ofLine_eq]
    exact onWord_names left word right
  unique := by
    intro column left word right left' word' right' hrun hrun'
    obtain ⟨hleft, hword, hright⟩ := hrun.eq_runs
    obtain ⟨hleft', hword', hright'⟩ := hrun'.eq_runs
    exact ⟨hleft.trans hleft'.symm, hword.trans hword'.symm, hright.trans hright'.symm⟩

end PlsqlNav.Cursor
