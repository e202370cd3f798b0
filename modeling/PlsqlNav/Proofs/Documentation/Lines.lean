import PlsqlNav.Documentation
import PlsqlNav.Proofs.Text.Lines
import PlsqlNav.Proofs.Text.Trimmed

/-! The lines of a documentation comment: what is left of each without its decoration, and how each is
shown. What is shown has no white space around it or around a line of it. -/
namespace PlsqlNav.Documentation

open Text

def joined (lines : List (List Char)) : List Char := List.intercalate ['\n'] lines

/-- The lines of a text without decoration, and without the empty ones around them. -/
def contents (text : List Char) : List (List Char) := strip List.isEmpty ((splitLines text).map content)

def body (raw : List Char) : List (List Char) := contents (inner raw)

section After
variable {front rest cs : List Char}

theorem isPrefixOf_append (front rest : List Char) : front.isPrefixOf (front ++ rest) :=
  List.isPrefixOf_iff_prefix.mpr (List.prefix_append front rest)

theorem after?_append (front rest : List Char) : after? front (front ++ rest) = some rest := by
  rw [after?, if_pos (isPrefixOf_append front rest), List.drop_left]

theorem after?_eq_none (h : ¬ front <+: cs) : after? front cs = none := by
  rw [after?, if_neg]
  rwa [List.isPrefixOf_iff_prefix]

theorem after?_cases (front cs : List Char) :
    (∃ rest, cs = front ++ rest ∧ after? front cs = some rest) ∨
      ¬ front <+: cs ∧ after? front cs = none := by
  by_cases h : front <+: cs
  · obtain ⟨rest, rfl⟩ := h
    exact .inl ⟨rest, rfl, after?_append front rest⟩
  · exact .inr ⟨h, after?_eq_none h⟩

end After

section Content
variable {line line' rest : List Char}

theorem content_congr (h : trim line = trim line') : content line = content line' := by
  rw [content, content, h]

theorem content_gutter (h : trim line = '*' :: rest) : content line = trimStart rest := by
  rw [content, h]
  rfl

theorem content_plain (h : (trim line).head? ≠ some '*') : content line = trim line := by
  rw [content]
  split
  · next hline =>
    rw [hline] at h
    exact absurd rfl h
  · rfl

theorem content_blank (h : ∀ c ∈ line, isBlank c) : content line = [] := by
  rw [content_plain] <;> rw [trim_eq_strip, strip_of_forall h]
  simp

theorem content_cases (line : List Char) :
    (∃ rest, trim line = '*' :: rest ∧ content line = trimStart rest) ∨ content line = trim line := by
  rw [content]
  split
  · next rest hline => exact .inl ⟨rest, hline, rfl⟩
  · exact .inr rfl

theorem content_trimmed (line : List Char) : Trimmed (content line) := by
  rcases content_cases line with ⟨rest, hline, hcontent⟩ | hcontent
  · have hlast := (trimmed_trim line).last
    rw [hcontent]
    refine .dropWhile fun c hc => hlast c ?_
    rw [hline, List.getLast?_cons, Option.mem_def.mp hc]
    rfl
  · rw [hcontent]
    exact trimmed_trim line

theorem content_isInfix (line : List Char) : content line <:+: line := by
  have htrim : trim line <:+: line := strip_isInfix isBlank line
  rcases content_cases line with ⟨rest, hline, hcontent⟩ | hcontent
  · rw [hcontent]
    have hrest : trimStart rest <:+ '*' :: rest :=
      (List.dropWhile_suffix isBlank).trans (List.suffix_cons '*' rest)
    exact hrest.isInfix.trans (hline ▸ htrim)
  · rw [hcontent]
    exact htrim

end Content

section Words
variable {head text rest : List Char}

/-- The text up to its first white space. -/
def firstWord (text : List Char) : List Char := text.takeWhile fun c => !isBlank c

/-- What follows the first word, without white space around it. -/
def behindWord (text : List Char) : List Char := trim (text.dropWhile fun c => !isBlank c)

/-- Two texts with a space between them, where the second is not empty. -/
def beside (head rest : List Char) : List Char := if rest = [] then head else head ++ ' ' :: rest

/-- A list item for a parameter, of which the text tells the name and a description. -/
def item (text : List Char) : List Char :=
  beside ("- `".toList ++ firstWord text ++ "`".toList) (behindWord text)

def result (text : List Char) : List Char := beside "*Returns*".toList text

theorem trimmed_beside (hhead : Trimmed head) (hne : head ≠ []) (hrest : Trimmed rest) :
    Trimmed (beside head rest) := by
  rw [beside]
  split
  · exact hhead
  · next hrest' =>
    obtain ⟨c, cs, rfl⟩ := List.exists_cons_of_ne_nil hne
    refine ⟨hhead.first, ?_⟩
    rw [List.getLast?_append, List.getLast?_cons, List.getLast?_eq_some_getLast hrest']
    rintro d ⟨⟩
    exact hrest.last _ (List.getLast?_eq_some_getLast hrest')

theorem trimEnd_beside (hhead : Trimmed head) (hne : head ≠ []) (hrest : Trimmed rest) :
    trimEnd (head ++ ' ' :: rest) = beside head rest := by
  have hbeside := trimmed_beside hhead hne hrest
  by_cases hnil : rest = []
  · rw [beside, if_pos hnil, hnil]
    exact (rdropWhile_append_right head isBlank_space).trans hhead.rdropWhile_eq
  · rw [beside, if_neg hnil] at hbeside ⊢
    exact hbeside.rdropWhile_eq

theorem not_mem_beside (hhead : '\n' ∉ head) (hrest : '\n' ∉ rest) : '\n' ∉ beside head rest := by
  rw [beside]
  split
  · exact hhead
  · simp [hhead, hrest]

theorem firstWord_isInfix (text : List Char) : firstWord text <:+: text := (List.takeWhile_prefix _).isInfix

theorem behindWord_isInfix (text : List Char) : behindWord text <:+: text :=
  (strip_isInfix isBlank _).trans (List.dropWhile_suffix _).isInfix

theorem trimmed_behindWord (text : List Char) : Trimmed (behindWord text) := trimmed_trim _

theorem drop_firstWord (text : List Char) :
    text.drop (firstWord text).length = text.dropWhile fun c => !isBlank c := by
  have hsplit : firstWord text ++ (text.dropWhile fun c => !isBlank c) = text :=
    List.takeWhile_append_dropWhile
  have hdrop : (firstWord text ++ text.dropWhile fun c => !isBlank c).drop (firstWord text).length =
      text.dropWhile fun c => !isBlank c := List.drop_left
  rwa [hsplit] at hdrop

theorem trimmed_itemHead (text : List Char) : Trimmed ("- `".toList ++ firstWord text ++ "`".toList) where
  first := by
    rintro c ⟨⟩
    decide
  last := by
    rw [List.getLast?_append]
    rintro c ⟨⟩
    decide

theorem trimmed_resultHead : Trimmed "*Returns*".toList where
  first := by
    rintro c ⟨⟩
    decide
  last := by
    rintro c ⟨⟩
    decide

theorem head?_beside (hne : head ≠ []) (rest : List Char) : (beside head rest).head? = head.head? := by
  obtain ⟨c, cs, rfl⟩ := List.exists_cons_of_ne_nil hne
  rw [beside]
  split <;> rfl

end Words

section Tags
variable {tag text rest line : List Char}

/-- The tags, each before those that it starts with. -/
def tags : List (List Char) := ["@param".toList, "@returns".toList, "@return".toList]

/-- The tag at the front of a line. -/
def leadingTag? (line : List Char) : Option (List Char) := tags.find? (·.isPrefixOf line)

/-- What a tag and the text behind it become. -/
def tagged (tag text : List Char) : List Char := if tag = "@param".toList then item text else result text

theorem leadingTag?_eq_some (h : leadingTag? line = some tag) : tag ∈ tags ∧ tag <+: line := by
  rw [leadingTag?] at h
  have hprefix := List.find?_some h
  exact ⟨List.mem_of_find?_eq_some h, List.isPrefixOf_iff_prefix.mp hprefix⟩

theorem leadingTag?_eq_none (h : leadingTag? line = none) : ∀ tag ∈ tags, ¬ tag <+: line := by
  intro tag htag
  rw [← List.isPrefixOf_iff_prefix]
  exact List.find?_eq_none.mp h tag htag

theorem renderLine_param (rest : List Char) : renderLine ("@param".toList ++ rest) = item (trim rest) := by
  rw [item, ← trimEnd_beside (trimmed_itemHead _) (by simp) (trimmed_behindWord _), renderLine,
    after?_append]
  dsimp only
  rw [← firstWord, drop_firstWord, ← behindWord]
  simp only [List.append_assoc]
  rfl

theorem renderLine_result (hparam : after? "@param".toList line = none)
    (h : (after? "@returns".toList line <|> after? "@return".toList line) = some rest) :
    renderLine line = result (trim rest) := by
  rw [renderLine, hparam, h, result, ← trimEnd_beside trimmed_resultHead (by decide) (trimmed_trim rest)]
  rfl

/-- A line becomes what its leading tag says, and stays where it has none. -/
theorem renderLine_cases (line : List Char) :
    (∃ tag rest, leadingTag? line = some tag ∧ line = tag ++ rest ∧
      renderLine line = tagged tag (trim rest)) ∨
    leadingTag? line = none ∧ renderLine line = line := by
  rcases after?_cases "@param".toList line with ⟨rest, rfl, hafter⟩ | ⟨hparam, hafter⟩
  · refine .inl ⟨"@param".toList, rest, ?_, rfl, renderLine_param rest⟩
    rw [leadingTag?, tags, List.find?_cons_of_pos]
    exact isPrefixOf_append _ rest
  rcases after?_cases "@returns".toList line with ⟨rest, rfl, hreturns⟩ | ⟨hplural, hreturns⟩
  · refine .inl ⟨"@returns".toList, rest, ?_, rfl, renderLine_result hafter ?_⟩
    · rw [leadingTag?, tags, List.find?_cons_of_neg (by rwa [List.isPrefixOf_iff_prefix]),
        List.find?_cons_of_pos]
      exact isPrefixOf_append _ rest
    · rw [hreturns]
      rfl
  rcases after?_cases "@return".toList line with ⟨rest, rfl, hreturn⟩ | ⟨hreturn, hnone⟩
  · refine .inl ⟨"@return".toList, rest, ?_, rfl, renderLine_result hafter ?_⟩
    · rw [leadingTag?, tags, List.find?_cons_of_neg (by rwa [List.isPrefixOf_iff_prefix]),
        List.find?_cons_of_neg (by rwa [List.isPrefixOf_iff_prefix]), List.find?_cons_of_pos]
      exact isPrefixOf_append _ rest
    · rw [hreturns, hreturn]
      rfl
  · refine .inr ⟨?_, ?_⟩
    · simp only [leadingTag?, tags, List.find?_eq_none, List.isPrefixOf_iff_prefix, List.forall_mem_cons]
      exact ⟨hparam, hplural, hreturn, by simp⟩
    · rw [renderLine, hafter, hreturns, hnone]
      rfl

theorem trimmed_tagged (tag : List Char) (h : Trimmed text) : Trimmed (tagged tag text) := by
  rw [tagged]
  split
  · exact trimmed_beside (trimmed_itemHead _) (by simp) (trimmed_behindWord _)
  · exact trimmed_beside trimmed_resultHead (by decide) h

theorem head?_tagged (tag text : List Char) :
    (tagged tag text).head? = some '-' ∨ (tagged tag text).head? = some '*' := by
  rw [tagged]
  split
  · exact .inl (head?_beside (by simp) _)
  · exact .inr (head?_beside (by decide) _)

theorem tagged_ne_nil (tag text : List Char) : tagged tag text ≠ [] := by
  intro hnil
  rcases head?_tagged tag text with hhead | hhead <;> rw [hnil] at hhead <;> contradiction

theorem not_mem_tagged (tag : List Char) (h : '\n' ∉ text) : '\n' ∉ tagged tag text := by
  have hname : '\n' ∉ firstWord text := fun hmem => h ((firstWord_isInfix text).subset hmem)
  rw [tagged]
  split
  · refine not_mem_beside ?_ fun hmem => h ((behindWord_isInfix text).subset hmem)
    simp only [List.mem_append, not_or]
    exact ⟨⟨by decide, hname⟩, by decide⟩
  · exact not_mem_beside (by decide) h

theorem renderLine_trimmed (h : Trimmed line) : Trimmed (renderLine line) := by
  rcases renderLine_cases line with ⟨tag, rest, -, -, hshown⟩ | ⟨-, hshown⟩
  · rw [hshown]
    exact trimmed_tagged tag (trimmed_trim rest)
  · rwa [hshown]

/-- No line with a tag is empty, neither before nor after. -/
theorem renderLine_isEmpty (line : List Char) : (renderLine line).isEmpty = line.isEmpty := by
  rcases renderLine_cases line with ⟨tag, rest, htag, rfl, hshown⟩ | ⟨-, hshown⟩
  · have hne : ∀ tag ∈ tags, tag ≠ [] := by decide
    have hline : tag ++ rest ≠ [] :=
      List.append_ne_nil_of_left_ne_nil (hne tag (leadingTag?_eq_some htag).1) rest
    rw [hshown, List.isEmpty_eq_false_iff.mpr (tagged_ne_nil _ _), List.isEmpty_eq_false_iff.mpr hline]
  · rw [hshown]

theorem renderLine_oneLine (h : '\n' ∉ line) : '\n' ∉ renderLine line := by
  rcases renderLine_cases line with ⟨tag, rest, -, rfl, hshown⟩ | ⟨-, hshown⟩
  · rw [hshown]
    exact not_mem_tagged tag fun hmem => h (List.mem_append_right tag ((strip_isInfix isBlank rest).subset hmem))
  · rwa [hshown]

end Tags

section Comment
variable {line : List Char} {lines : List (List Char)}

theorem splitLines_joined (hne : lines ≠ []) (h : ∀ line ∈ lines, '\n' ∉ line) :
    splitLines (joined lines) = lines := by
  induction lines with
  | nil => contradiction
  | cons line lines ih =>
    rw [List.forall_mem_cons] at h
    cases lines with
    | nil => rw [joined, List.intercalate_singleton, splitLines_of_not_mem h.1]
    | cons next lines =>
      rw [joined, List.intercalate_cons_cons, List.append_assoc, List.singleton_append, splitLines_append,
        splitLines_of_not_mem h.1, ← joined, ih (List.cons_ne_nil _ _) h.2, List.singleton_append]

theorem joined_splitLines (text : List Char) : joined (splitLines text) = text := by
  induction text with
  | nil => rfl
  | cons c text ih =>
    obtain ⟨line, lines, hlines⟩ := List.exists_cons_of_ne_nil (splitLines_ne_nil text)
    by_cases hc : c = '\n'
    · subst hc
      rw [splitLines_newline, hlines, joined, List.intercalate_cons_cons, ← hlines, ← joined, ih]
      rfl
    · rw [splitLines_cons hc hlines]
      rw [hlines] at ih
      cases lines with
      | nil =>
        rw [joined, List.intercalate_singleton] at ih ⊢
        rw [ih]
      | cons next lines =>
        rw [joined, List.intercalate_cons_cons] at ih ⊢
        rw [List.cons_append, List.cons_append, ih]

theorem joined_injective {lines' : List (List Char)} (h : ∀ line ∈ lines, '\n' ∉ line)
    (h' : ∀ line ∈ lines', '\n' ∉ line) (hlen : lines.length = lines'.length)
    (heq : joined lines = joined lines') : lines = lines' := by
  by_cases hne : lines = []
  · subst hne
    exact (List.eq_nil_of_length_eq_zero hlen.symm).symm
  · have hne' : lines' ≠ [] := by
      rintro rfl
      exact hne (List.eq_nil_of_length_eq_zero hlen)
    rw [← splitLines_joined hne h, heq, splitLines_joined hne' h']

/-- A trimmed line is blank only where it is empty. -/
theorem all_isBlank_eq (h : Trimmed line) : line.all isBlank = line.isEmpty := by
  cases line with
  | nil => rfl
  | cons c line => rw [List.all_cons, Bool.eq_false_iff.mpr (h.first c rfl), Bool.false_and, List.isEmpty_cons]

theorem dropEmptyEnds_eq (lines : List (List Char)) : dropEmptyEnds lines = strip List.isEmpty lines := rfl

theorem render_eq (raw : String) : (render raw).toList = joined ((body raw.toList).map renderLine) := by
  have hlines : (splitLines (inner raw.toList)).map (fun line => renderLine (content line)) =
      ((splitLines (inner raw.toList)).map content).map renderLine := by
    rw [List.map_map]
    rfl
  rw [render, String.toList_ofList, hlines, dropEmptyEnds_eq, strip_map fun line _ => renderLine_isEmpty line,
    joined, body, contents]

theorem mem_body {raw : List Char} (h : line ∈ body raw) : Trimmed line ∧ '\n' ∉ line := by
  obtain ⟨written, hwritten, rfl⟩ := List.mem_map.mp ((strip_isInfix _ _).subset h)
  exact ⟨content_trimmed written,
    fun hmem => (of_mem_splitLines hwritten).2 ((content_isInfix written).subset hmem)⟩

/-- The lines of a text, of which an empty text has none. -/
def rows (text : List Char) : List (List Char) := if text = [] then [] else splitLines text

/-- No line has white space around it, and neither the first nor the last is blank. -/
structure Tidy (text : List Char) : Prop where
  around : Stripped (fun line => line.all isBlank) (rows text)
  lines : ∀ line ∈ rows text, Trimmed line

theorem joined_eq_nil (hstripped : Stripped List.isEmpty lines) (h : joined lines = []) : lines = [] := by
  cases lines with
  | nil => rfl
  | cons line lines =>
    have hline : line ≠ [] := by simpa using hstripped.first line rfl
    cases lines with
    | nil =>
      rw [joined, List.intercalate_singleton] at h
      exact absurd h hline
    | cons next lines =>
      rw [joined, List.intercalate_cons_cons, List.append_assoc, List.append_eq_nil_iff] at h
      exact absurd h.1 hline

theorem rows_joined (hstripped : Stripped List.isEmpty lines) (h : ∀ line ∈ lines, '\n' ∉ line) :
    rows (joined lines) = lines := by
  rw [rows]
  split
  · next hnil => rw [joined_eq_nil hstripped hnil]
  · next hne =>
    refine splitLines_joined ?_ h
    rintro rfl
    exact hne rfl

theorem tidy_joined (hstripped : Stripped List.isEmpty lines)
    (h : ∀ line ∈ lines, Trimmed line ∧ '\n' ∉ line) : Tidy (joined lines) := by
  have hrows := rows_joined hstripped fun line hline => (h line hline).2
  refine ⟨⟨?_, ?_⟩, ?_⟩
  · rw [hrows]
    intro line hline
    rw [all_isBlank_eq (h line (List.mem_of_mem_head? hline)).1]
    exact hstripped.first line hline
  · rw [hrows]
    intro line hline
    rw [all_isBlank_eq (h line (List.mem_of_getLast? hline)).1]
    exact hstripped.last line hline
  · rw [hrows]
    exact fun line hline => (h line hline).1

/-- What is shown of any comment is tidy. -/
theorem render_tidy (raw : String) : Tidy (render raw).toList := by
  rw [render_eq]
  refine tidy_joined ?_ fun line hline => ?_
  · rw [body, contents, ← strip_map fun line _ => renderLine_isEmpty line]
    exact stripped_strip _ _
  · obtain ⟨written, hwritten, heq⟩ := List.mem_map.mp hline
    obtain ⟨htrimmed, honeLine⟩ := mem_body hwritten
    rw [← heq]
    exact ⟨renderLine_trimmed htrimmed, renderLine_oneLine honeLine⟩

end Comment

end PlsqlNav.Documentation
