import PlsqlNav.Cursor
import PlsqlNav.Proofs.Token.Word

/-! Names on a line, as a cursor takes them: a word under it, a name that a routine keyword declares, and a
word before white space. -/
namespace PlsqlNav.Cursor

open Text Lexeme

/-- White space within a line. -/
structure Gap where
  chars : List Char
  blank : ∀ c ∈ chars, isBlank c
  oneLine : '\n' ∉ chars

def quoteIf (quoted : Bool) : List Char := if quoted then ['"'] else []

/-- A plain identifier, perhaps in double quotes. -/
structure Identifier where
  first : Char
  rest : List Char
  starts : startsWord first
  continues : ∀ c ∈ rest, continuesWord c
  quoted : Bool

def Identifier.chars (n : Identifier) : List Char := n.first :: n.rest

def Identifier.spelling (n : Identifier) : List Char :=
  quoteIf n.quoted ++ (n.chars ++ quoteIf n.quoted)

/-- The name of a declaration, perhaps after a schema and a point with white space around it. -/
inductive Title where
  | plain (name : Identifier)
  | qualified (schema : Identifier) (before after : Gap) (name : Identifier)

def Title.name : Title → Identifier
  | plain name | qualified _ _ _ name => name

def Title.spelling : Title → List Char
  | plain name => name.spelling
  | qualified schema before after name =>
    schema.spelling ++ (before.chars ++ '.' :: (after.chars ++ name.spelling))

/-- A point comes next, perhaps behind a quotation mark and white space, and what can start a name
behind the point. -/
def PointAhead (cs : List Char) : Prop :=
  ∃ (quoted quoted' : Bool) (before after : Gap) (c : Char) (more : List Char),
    cs = quoteIf quoted ++ (before.chars ++ '.' :: (after.chars ++ (quoteIf quoted' ++ c :: more))) ∧
      startsWord c

section Characters
variable {c : Char}

theorem continuesWord_of_startsWord (h : startsWord c) : continuesWord c := by
  simp only [startsWord, continuesWord, Char.isAlphanum, Bool.or_eq_true] at h ⊢
  rcases h with h | h
  · exact .inl (.inl (.inl (.inl h)))
  · exact .inl (.inl (.inr h))

theorem toNat_of_isAlphanum (h : c.isAlphanum) :
    65 ≤ c.toNat ∧ c.toNat ≤ 90 ∨ 97 ≤ c.toNat ∧ c.toNat ≤ 122 ∨ 48 ≤ c.toNat ∧ c.toNat ≤ 57 := by
  change (decide (65 ≤ c.val ∧ c.val ≤ 90) || (97 ≤ c.val && c.val ≤ 122)) ||
    (48 ≤ c.val && c.val ≤ 57) at h
  simp only [Bool.or_eq_true, Bool.and_eq_true, decide_eq_true_eq, UInt32.le_iff_toNat_le,
    UInt32.reduceToNat] at h
  simp only [Char.toNat]
  omega

theorem goesOn_of_continuesWord (h : continuesWord c) : goesOn c := by
  have hrange (lo hi : Nat) (hmem : (lo, hi) ∈ wordRanges) (hlo : lo ≤ c.toNat) (hhi : c.toNat ≤ hi) :
      isWordChar c :=
    List.any_eq_true.mpr ⟨(lo, hi), hmem, by simp [hlo, hhi]⟩
  simp only [continuesWord, Bool.or_eq_true, beq_iff_eq] at h
  simp only [goesOn, Bool.or_eq_true, beq_iff_eq]
  rcases h with ((h | rfl) | h) | h
  · rcases toNat_of_isAlphanum h with ⟨hlo, hhi⟩ | ⟨hlo, hhi⟩ | ⟨hlo, hhi⟩
    · exact .inl (.inl (hrange 0x41 0x5A (by decide +kernel) hlo hhi))
    · exact .inl (.inl (hrange 0x61 0x7A (by decide +kernel) hlo hhi))
    · exact .inl (.inl (hrange 0x30 0x39 (by decide +kernel) hlo hhi))
  · exact .inl (.inl (by decide +kernel))
  · exact .inl (.inr h)
  · exact .inr h

/-- The code points of white space, as ranges with both ends included. -/
def blankRanges : List (Nat × Nat) :=
  [(9, 13), (0x20, 0x20), (0x85, 0x85), (0xA0, 0xA0), (0x1680, 0x1680), (0x2000, 0x200A),
   (0x2028, 0x2029), (0x202F, 0x202F), (0x205F, 0x205F), (0x3000, 0x3000)]

theorem mem_blankRanges (h : isBlank c) : ∃ b ∈ blankRanges, b.1 ≤ c.toNat ∧ c.toNat ≤ b.2 := by
  simp only [isBlank, Bool.or_eq_true, Bool.and_eq_true, decide_eq_true_eq, beq_iff_eq] at h
  simp only [blankRanges, List.mem_cons, List.not_mem_nil, or_false, exists_eq_or_imp, exists_eq_left]
  omega

theorem wordRanges_apart : ∀ r ∈ wordRanges, ∀ b ∈ blankRanges, r.2 < b.1 ∨ b.2 < r.1 := by
  decide +kernel

theorem not_goesOn_of_isBlank (h : isBlank c) : ¬ goesOn c := by
  intro hc
  simp only [goesOn, Bool.or_eq_true, beq_iff_eq] at hc
  rcases hc with (hword | rfl) | rfl
  · obtain ⟨r, hr, hin⟩ := List.any_eq_true.mp hword
    obtain ⟨b, hb, hblank⟩ := mem_blankRanges h
    simp only [Bool.and_eq_true, decide_eq_true_eq] at hin
    have := wordRanges_apart r hr b hb
    omega
  · contradiction
  · contradiction

theorem utf8Size_of_continuesWord (h : continuesWord c) : c.utf8Size = 1 := by
  simp only [continuesWord, Bool.or_eq_true, beq_iff_eq] at h
  rw [Char.utf8Size_eq_one_iff]
  rcases h with ((h | rfl) | rfl) | rfl
  · have := toNat_of_isAlphanum h
    rw [UInt32.le_iff_toNat_le]
    simp only [Char.toNat, UInt32.reduceToNat] at this ⊢
    omega
  all_goals decide

end Characters

section Runs
variable {p : Char → Bool} {word rest : List Char}

theorem takeWhile_run (hword : ∀ c ∈ word, p c) (hrest : ∀ c ∈ rest.head?, ¬ p c) :
    (word ++ rest).takeWhile p = word := by
  rw [List.takeWhile_append_of_pos hword]
  cases rest with
  | nil => exact List.append_nil _
  | cons c rest => rw [List.takeWhile_cons_of_neg (hrest c rfl), List.append_nil]

theorem dropWhile_run (hword : ∀ c ∈ word, p c) (hrest : ∀ c ∈ rest.head?, ¬ p c) :
    (word ++ rest).dropWhile p = rest := by
  rw [List.dropWhile_append_of_pos hword]
  cases rest with
  | nil => rfl
  | cons c rest => rw [List.dropWhile_cons_of_neg (hrest c rfl)]

theorem takeWhile_prefix_append (word rest : List Char) :
    word.takeWhile p <+: (word ++ rest).takeWhile p := by
  rw [List.takeWhile_append]
  split
  · exact (List.takeWhile_prefix p).trans (List.prefix_append _ _)
  · exact List.prefix_refl _

theorem byteLength_run (hword : ∀ c ∈ word, continuesWord c) : byteLength word = word.length := by
  induction word with
  | nil => rfl
  | cons c word ih =>
    rw [List.forall_mem_cons] at hword
    rw [byteLength, utf8Size_of_continuesWord hword.1, ih hword.2, List.length_cons, Nat.add_comm]

end Runs

section Names
variable {n : Identifier} {g : Gap} {cs rest : List Char} {c : Char}

theorem skipQuote_of_ne (hc : c ≠ '"') : skipQuote (c :: cs) = c :: cs := by
  unfold skipQuote
  split
  · next heq => exact absurd (List.cons.inj heq).1 hc
  · rfl

/-- A text is an optional quotation mark and what it leaves. -/
theorem exists_quoteIf (cs : List Char) : ∃ quoted, cs = quoteIf quoted ++ skipQuote cs := by
  unfold skipQuote
  split
  · exact ⟨true, rfl⟩
  · exact ⟨false, rfl⟩

theorem ne_quote_of_startsWord (h : startsWord c) : c ≠ '"' := by
  rintro rfl
  contradiction

theorem Identifier.continues_chars (n : Identifier) : ∀ c ∈ n.chars, continuesWord c := by
  intro c hc
  rcases List.mem_cons.mp hc with rfl | hc
  · exact continuesWord_of_startsWord n.starts
  · exact n.continues c hc

/-- A name is read up to the mark that closes it. -/
theorem nameAt_spelling (hrest : n.quoted = false → ∀ c ∈ rest.head?, ¬ goesOn c) :
    nameAt (n.spelling ++ rest) = some (n.chars, skipQuote (quoteIf n.quoted ++ rest)) := by
  have hopen : skipQuote (n.spelling ++ rest) = n.first :: (n.rest ++ (quoteIf n.quoted ++ rest)) := by
    rw [Identifier.spelling, Identifier.chars]
    cases n.quoted with
    | true => simp [quoteIf, skipQuote]
    | false =>
      simp only [quoteIf, Bool.false_eq_true, if_false, List.nil_append, List.append_nil,
        List.cons_append]
      exact skipQuote_of_ne (ne_quote_of_startsWord n.starts)
  have hword : ∀ c ∈ n.rest, goesOn c := fun c hc => goesOn_of_continuesWord (n.continues c hc)
  have hstop : ∀ c ∈ (quoteIf n.quoted ++ rest).head?, ¬ goesOn c := by
    cases hq : n.quoted with
    | true =>
      rintro c ⟨⟩
      decide +kernel
    | false => exact hrest hq
  rw [nameAt, hopen]
  dsimp only
  rw [if_pos n.starts, takeWhile_run hword hstop, dropWhile_run hword hstop, Identifier.chars]

theorem trimStart_gap (g : Gap) (cs : List Char) : trimStart (g.chars ++ cs) = trimStart cs := by
  rw [trimStart, trimStart, List.dropWhile_append_of_pos g.blank]

theorem trimStart_of_not_isBlank (hc : ¬ isBlank c) : trimStart (c :: cs) = c :: cs :=
  List.dropWhile_cons_of_neg hc

theorem trimStart_spelling (n : Identifier) (rest : List Char) :
    trimStart (n.spelling ++ rest) = n.spelling ++ rest := by
  rw [Identifier.spelling, Identifier.chars]
  cases n.quoted with
  | true => exact trimStart_of_not_isBlank (by decide)
  | false =>
    exact trimStart_of_not_isBlank (not_isBlank_of_continuesWord (continuesWord_of_startsWord n.starts))

/-- What follows the schema of a name goes on no name. -/
theorem not_goesOn_beforePoint (g : Gap) (cs : List Char) :
    ∀ c ∈ (g.chars ++ '.' :: cs).head?, ¬ goesOn c := by
  cases hg : g.chars with
  | nil =>
    rintro c ⟨⟩
    decide +kernel
  | cons b bs =>
    rintro c ⟨⟩
    exact not_goesOn_of_isBlank (g.blank _ (by rw [hg]; exact List.mem_cons_self))

theorem skipQuote_beforePoint (g : Gap) (quoted : Bool) (cs : List Char) :
    skipQuote (quoteIf quoted ++ (g.chars ++ '.' :: cs)) = g.chars ++ '.' :: cs := by
  cases quoted with
  | true => rfl
  | false =>
    cases hg : g.chars with
    | nil => exact skipQuote_of_ne (by decide)
    | cons b bs =>
      refine skipQuote_of_ne ?_
      rintro rfl
      exact absurd (g.blank '"' (by rw [hg]; exact List.mem_cons_self)) (by decide)

/-- Where the line reads on behind a point, a point is ahead. -/
theorem pointAhead_of_nameAt {qualified : List Char} {found : List Char × List Char}
    (hline : '\n' ∉ cs) (hpoint : trimStart (skipQuote cs) = '.' :: qualified)
    (hname : nameAt (trimStart qualified) = some found) : PointAhead cs := by
  have hgap (us : List Char) (hus : us <:+: cs) : ∃ g : Gap, us = g.chars ++ trimStart us := by
    refine ⟨⟨us.takeWhile isBlank, fun c hc => List.all_eq_true.mp List.all_takeWhile c hc, ?_⟩, ?_⟩
    · exact fun hmem => hline (hus.subset ((List.takeWhile_prefix _).subset hmem))
    · exact List.takeWhile_append_dropWhile.symm
  obtain ⟨quoted, hquote⟩ := exists_quoteIf cs
  obtain ⟨before, hbefore⟩ := hgap (skipQuote cs) ⟨quoteIf quoted, [], by rw [List.append_nil, ← hquote]⟩
  rw [hpoint] at hbefore
  obtain ⟨after, hafter⟩ := hgap qualified
    ⟨quoteIf quoted ++ (before.chars ++ ['.']), [], by rw [hquote, hbefore]; simp⟩
  obtain ⟨quoted', hquote'⟩ := exists_quoteIf (trimStart qualified)
  unfold nameAt at hname
  split at hname
  · contradiction
  · next c more hmore =>
    split at hname
    · next hstart =>
      rw [hmore] at hquote'
      refine ⟨quoted, quoted', before, after, c, more, ?_, hstart⟩
      rw [← hquote', ← hafter, ← hbefore, ← hquote]
    · contradiction

theorem PointAhead.head?_trimStart (h : PointAhead cs) : (trimStart (skipQuote cs)).head? = some '.' := by
  obtain ⟨quoted, quoted', before, after, c, back, rfl, _⟩ := h
  rw [skipQuote_beforePoint, trimStart_gap, trimStart_of_not_isBlank (by decide)]
  rfl

theorem PointAhead.append (h : PointAhead cs) (more : List Char) : PointAhead (cs ++ more) := by
  obtain ⟨quoted, quoted', before, after, c, back, rfl, hstart⟩ := h
  refine ⟨quoted, quoted', before, after, c, back ++ more, ?_, hstart⟩
  simp only [List.append_assoc, List.cons_append]

/-- The name that a keyword declares, on the line `gap`, `title`, `rest` behind it. -/
theorem declaredName_title {title : Title} (hg : g.chars ≠ [])
    (hrest : title.name.quoted = false → ∀ c ∈ rest.head?, ¬ goesOn c) (hline : '\n' ∉ rest)
    (hpoint : ∀ name, title = .plain name → ¬ PointAhead (quoteIf name.quoted ++ rest)) :
    declaredName (g.chars ++ (title.spelling ++ rest)) = some title.name.chars := by
  have hblank : (g.chars ++ (title.spelling ++ rest)).head?.any isBlank := by
    obtain ⟨b, bs, hb⟩ := List.exists_cons_of_ne_nil hg
    rw [hb]
    exact g.blank b (by rw [hb]; exact List.mem_cons_self)
  rw [declaredName, trimStart_gap]
  simp only [guard, hblank, if_true, Option.bind_eq_bind, Option.pure_def, Option.bind_some]
  cases title with
  | plain name =>
    rw [Title.spelling, trimStart_spelling, nameAt_spelling (n := name) hrest]
    dsimp only [Option.bind_some]
    split
    · next qualified hqualified =>
      cases hname : nameAt (trimStart qualified) with
      | none => rfl
      | some found =>
        refine absurd (pointAhead_of_nameAt ?_ hqualified hname) (hpoint name rfl)
        rw [List.mem_append, not_or]
        refine ⟨?_, hline⟩
        cases name.quoted <;> decide
    · rfl
  | qualified schema before after name =>
    have hsecond : nameAt (trimStart (after.chars ++ (name.spelling ++ rest))) =
        some (name.chars, skipQuote (quoteIf name.quoted ++ rest)) := by
      rw [trimStart_gap, trimStart_spelling, nameAt_spelling (n := name) hrest]
    rw [Title.spelling]
    simp only [List.append_assoc, List.cons_append]
    rw [trimStart_spelling, nameAt_spelling fun _ => not_goesOn_beforePoint before _]
    dsimp only [Option.bind_some]
    rw [skipQuote_beforePoint, trimStart_gap, trimStart_of_not_isBlank (by decide)]
    simp only [hsecond]
    rfl

end Names

section Word
variable {left word right : List Char} {line : String} {column : Nat} {g : Gap} {c : Char} {cs : List Char}

/-- The cursor on a whole word of a line. -/
def onWord (left word right : List Char) : Cursor :=
  match if isRoutineKeyword (String.ofList word) then declaredName right else none with
  | some name =>
    { previousWord := some (lower (String.ofList word)), currentWord := String.ofList name,
      previousDot := false }
  | none =>
    match qualifierOf left with
    | some (name, dot) =>
      { previousWord := some (String.ofList name), currentWord := String.ofList word, previousDot := dot }
    | none => { previousWord := none, currentWord := String.ofList word, previousDot := false }

/-- Wherever it is on a word, or right behind it, the cursor is the same. -/
theorem ofLine_eq_onWord (hline : line.toList = left ++ (word ++ right))
    (hword : ∀ c ∈ word, continuesWord c) (hleft : ∀ c ∈ left.getLast?, ¬ continuesWord c)
    (hright : ∀ c ∈ right.head?, ¬ continuesWord c) (hle : byteLength left ≤ column)
    (hge : column ≤ byteLength left + word.length) : ofLine line column = onWord left word right := by
  obtain ⟨front, back, rfl, hfront⟩ : ∃ front back, word = front ++ back ∧
      front.length = column - byteLength left := by
    refine ⟨word.take (column - byteLength left), word.drop (column - byteLength left), ?_, ?_⟩
    · rw [List.take_append_drop]
    · rw [List.length_take]
      omega
  have hlast : ∀ c ∈ left.reverse.head?, ¬ isIdentifier c := by
    rw [List.head?_reverse]
    exact hleft
  have hcolumn : column = byteLength (left ++ front) := by
    rw [byteLength_append, byteLength_run fun c hc => hword c (List.mem_append_left back hc)]
    omega
  have hbefore : takeBytes column line.toList = left ++ front := by
    rw [hline, hcolumn, List.append_assoc, ← List.append_assoc, takeBytes_append]
  have hafter : line.toList.drop (left ++ front).length = back ++ right := by
    rw [hline, List.append_assoc, ← List.append_assoc, List.drop_left]
  have hfrom : ((left ++ front).reverse.takeWhile isIdentifier).reverse = front := by
    rw [List.reverse_append, takeWhile_run ?_ hlast, List.reverse_reverse]
    exact fun c hc => hword c (List.mem_append_left back (List.mem_reverse.mp hc))
  have hback : ∀ c ∈ back, isIdentifier c := fun c hc => hword c (List.mem_append_right front hc)
  have htake : (left ++ front).take ((left ++ front).length - front.length) = left := by
    rw [List.length_append, Nat.add_sub_cancel, List.take_left]
  rw [ofLine, hbefore, hafter, hfrom, takeWhile_run hback hright, dropWhile_run hback hright, htake]
  rfl

theorem onWord_declares {name : List Char} (hword : isRoutineKeyword (String.ofList word))
    (hname : declaredName right = some name) : onWord left word right =
      ⟨some (lower (String.ofList word)), String.ofList name, false⟩ := by
  rw [onWord, if_pos hword, hname]

theorem onWord_qualified {name : List Char} {dot : Bool} (hword : ¬ isRoutineKeyword (String.ofList word))
    (hname : qualifierOf left = some (name, dot)) : onWord left word right =
      ⟨some (String.ofList name), String.ofList word, dot⟩ := by
  rw [onWord, if_neg hword, hname]

theorem trimEnd_gap (hc : ∀ c ∈ word.getLast?, ¬ isBlank c) (g : Gap) :
    trimEnd (word ++ g.chars) = word := by
  have hlast : ∀ c ∈ word.reverse.head?, ¬ isBlank c := by
    rw [List.head?_reverse]
    exact hc
  rw [trimEnd, List.reverse_append, dropWhile_run ?_ hlast, List.reverse_reverse]
  exact fun c hc => g.blank c (List.mem_reverse.mp hc)

/-- The word before white space, where no name in front of it goes on into it. -/
theorem qualifierOf_word (left : List Char) (hg : g.chars ≠ []) (hc : startsWord c)
    (hcs : ∀ d ∈ cs, continuesWord d) (hleft : ∀ d ∈ left.reverse.takeWhile goesOn, ¬ startsWord d) :
    qualifierOf (left ++ (c :: cs ++ g.chars)) = some (c :: cs, false) := by
  have hword : ∀ d ∈ c :: cs, continuesWord d := by
    intro d hd
    rcases List.mem_cons.mp hd with rfl | hd
    · exact continuesWord_of_startsWord hc
    · exact hcs d hd
  have hlast : ∀ d ∈ (left ++ c :: cs).getLast?, continuesWord d := by
    intro d hd
    rw [List.getLast?_append, List.getLast?_eq_some_getLast (List.cons_ne_nil c cs), Option.some_or] at hd
    exact Option.some.inj hd ▸ hword _ (List.getLast_mem _)
  have hname : lastName (left ++ c :: cs) = some (c :: cs) := by
    obtain ⟨d, ds, hrev⟩ := List.exists_cons_of_ne_nil (l := (left ++ c :: cs).reverse) (by simp)
    have hskip : skipQuote (left ++ c :: cs).reverse = (c :: cs).reverse ++ left.reverse := by
      rw [← List.reverse_append, hrev]
      refine skipQuote_of_ne ?_
      rintro rfl
      exact absurd (hlast '"' (by rw [← List.head?_reverse, hrev]; rfl)) (by decide)
    have hrun : ((c :: cs).reverse ++ left.reverse).takeWhile goesOn =
        (c :: cs).reverse ++ left.reverse.takeWhile goesOn :=
      List.takeWhile_append_of_pos fun d hd => goesOn_of_continuesWord (hword d (List.mem_reverse.mp hd))
    have hdrop : ((left.reverse.takeWhile goesOn).reverse ++ c :: cs).dropWhile (!startsWord ·) =
        c :: cs := by
      rw [List.dropWhile_append_of_pos, List.dropWhile_cons_of_neg]
      · simpa using hc
      · intro d hd
        simpa using hleft d (List.mem_reverse.mp hd)
    rw [lastName, hskip, hrun, List.reverse_append, List.reverse_reverse, hdrop]
  obtain ⟨b, hb, hblank⟩ : ∃ b, g.chars.getLast? = some b ∧ isBlank b :=
    ⟨g.chars.getLast hg, List.getLast?_eq_some_getLast hg, g.blank _ (List.getLast_mem hg)⟩
  have hend : (left ++ (c :: cs ++ g.chars)).getLast? = some b := by
    rw [← List.append_assoc, List.getLast?_append, hb]
    rfl
  have htrim : trimEnd (left ++ (c :: cs ++ g.chars)) = left ++ c :: cs := by
    rw [← List.append_assoc]
    exact trimEnd_gap (fun d hd => not_isBlank_of_continuesWord (hlast d hd)) g
  rw [qualifierOf, hend]
  split
  · next heq =>
    cases heq
    contradiction
  · next heq =>
    cases heq
    rw [if_pos hblank, htrim, hname]
    rfl
  · contradiction

end Word

end PlsqlNav.Cursor
