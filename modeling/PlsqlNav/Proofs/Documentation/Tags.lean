import Mathlib.Data.List.Find
import PlsqlNav.Proofs.Documentation.Lines

/-! Tags in a documentation comment, against a reading of its lines by whole words. A tag counts also where
a longer word starts with it, as though there were a space behind it; the two readings agree on a comment
exactly when it has no line with such a word. -/
namespace PlsqlNav.Documentation

open Text

section Reading

/-- The text of a comment without white space around it and without the delimiters that it has. -/
def unwrapped (raw : List Char) : List Char :=
  let text := trim raw
  let opened := if "/**".toList <+: text then text.drop 3 else text
  if "*/".toList <:+ opened then opened.take (opened.length - 2) else opened

/-- A line without white space around it, and without an asterisk and the white space behind that. -/
def ungutter (line : List Char) : List Char :=
  let text := trim line
  if text.head? = some '*' then trimStart text.tail else text

def linesOf (raw : List Char) : List (List Char) := (splitLines (unwrapped raw)).map ungutter

/-- The lines of a comment as `f` shows them, without blank ones around them. -/
def shownBy (f : List Char → List Char) (raw : List Char) : List Char :=
  joined (strip (fun line => line.all isBlank) ((linesOf raw).map f))

/-- A line by its first word, where that is a tag. -/
def wordLine (line : List Char) : List Char :=
  if firstWord line ∈ tags then tagged (firstWord line) (behindWord line) else line

/-- The first word of the line starts with a tag, but is none. -/
def RunsOn (line : List Char) : Prop := (∃ tag ∈ tags, tag <+: firstWord line) ∧ firstWord line ∉ tags

/-- A line with a space behind the tag that it starts with. -/
def setApart (line : List Char) : List Char :=
  match leadingTag? line with
  | some tag => tag ++ ' ' :: line.drop tag.length
  | none => line

end Reading

section Stripping
variable {raw line : List Char}

theorem unwrapped_eq (raw : List Char) : unwrapped raw = inner raw := by
  have hopened : (if "/**".toList <+: trim raw then (trim raw).drop 3 else trim raw) =
      (after? "/**".toList (trim raw)).getD (trim raw) := by
    rcases after?_cases "/**".toList (trim raw) with ⟨rest, hraw, hafter⟩ | ⟨hnot, hafter⟩
    · rw [hafter, hraw, if_pos (List.prefix_append _ _)]
      rfl
    · rw [hafter, if_neg hnot]
      rfl
  rw [unwrapped, inner, hopened, before?]
  simp only [List.isSuffixOf_iff_suffix]
  split <;> rfl

theorem ungutter_eq (line : List Char) : ungutter line = content line := by
  rw [ungutter]
  split
  · next h =>
    obtain ⟨rest, hrest⟩ := List.head?_eq_some_iff.mp h
    rw [hrest, content_gutter hrest]
    rfl
  · next h => rw [content_plain h]

theorem strip_linesOf (raw : List Char) : strip List.isEmpty (linesOf raw) = body raw := by
  have hlines : ungutter = content := funext ungutter_eq
  rw [linesOf, unwrapped_eq, hlines, body, contents]

theorem trimmed_of_mem_linesOf (h : line ∈ linesOf raw) : Trimmed line := by
  obtain ⟨written, -, rfl⟩ := List.mem_map.mp h
  rw [ungutter_eq]
  exact content_trimmed written

/-- The first line and the last are not empty, so that a comment is shown as its body. -/
theorem shownBy_eq {f : List Char → List Char} (htrimmed : ∀ line, Trimmed line → Trimmed (f line))
    (hempty : ∀ line, (f line).isEmpty = line.isEmpty) : shownBy f raw = joined ((body raw).map f) := by
  have hblank : ∀ line ∈ linesOf raw, (f line).all isBlank = line.isEmpty := by
    intro line hline
    rw [all_isBlank_eq (htrimmed line (trimmed_of_mem_linesOf hline)), hempty]
  rw [shownBy, strip_map hblank, strip_linesOf]

end Stripping

section Words
variable {tag rest line : List Char}

theorem not_isBlank_of_mem_tags (htag : tag ∈ tags) : ∀ c ∈ tag, !isBlank c := by
  have hall : tags.all fun tag => tag.all fun c => !isBlank c := by decide
  exact List.all_eq_true.mp (List.all_eq_true.mp hall tag htag)

theorem firstWord_tag (htag : tag ∈ tags) (rest : List Char) :
    firstWord (tag ++ rest) = tag ++ firstWord rest :=
  List.takeWhile_append_of_pos (not_isBlank_of_mem_tags htag)

theorem behindWord_tag (htag : tag ∈ tags) (rest : List Char) :
    behindWord (tag ++ rest) = behindWord rest := by
  rw [behindWord, List.dropWhile_append_of_pos (not_isBlank_of_mem_tags htag), behindWord]

theorem behindWord_of_firstWord (h : firstWord rest = []) : behindWord rest = trim rest := by
  have hsplit := List.takeWhile_append_dropWhile (p := fun c => !isBlank c) (l := rest)
  rw [← firstWord, h, List.nil_append] at hsplit
  rw [behindWord, hsplit]

/-- A tag is a prefix of a line where it is one of its first word. -/
theorem prefix_firstWord_iff (htag : tag ∈ tags) : tag <+: firstWord line ↔ tag <+: line := by
  constructor
  · exact fun h => h.trans (List.takeWhile_prefix _)
  · rintro ⟨rest, rfl⟩
    rw [firstWord_tag htag]
    exact List.prefix_append _ _

theorem wordLine_tag (htag : tag ∈ tags) (h : firstWord rest = []) :
    wordLine (tag ++ rest) = tagged tag (trim rest) := by
  rw [wordLine, firstWord_tag htag, h, List.append_nil, if_pos htag, behindWord_tag htag,
    behindWord_of_firstWord h]

theorem wordLine_plain (h : firstWord line ∉ tags) : wordLine line = line := if_neg h

theorem not_mem_tags_of_leadingTag? (h : leadingTag? line = none) : firstWord line ∉ tags := fun hmem =>
  leadingTag?_eq_none h _ hmem (List.takeWhile_prefix _)

/-- A line is shown as though a space came behind the tag that it starts with. -/
theorem renderLine_eq_wordLine (line : List Char) : renderLine line = wordLine (setApart line) := by
  rcases renderLine_cases line with ⟨tag, rest, htag, rfl, hshown⟩ | ⟨hnone, hshown⟩
  · have htrim : trim (' ' :: rest) = trim rest := strip_append_left isBlank_space rest
    rw [hshown, setApart, htag]
    dsimp only
    rw [List.drop_left, wordLine_tag (leadingTag?_eq_some htag).1 (by rfl), htrim]
  · rw [hshown, setApart, hnone]
    exact (wordLine_plain (not_mem_tags_of_leadingTag? hnone)).symm

/-- The tag at the front of a line is the one at the front of its first word. -/
theorem leadingTag?_firstWord (line : List Char) : leadingTag? (firstWord line) = leadingTag? line := by
  have hprefix : ∀ tag ∈ tags, tag.isPrefixOf (firstWord line) = tag.isPrefixOf line := by
    intro tag htag
    rw [Bool.eq_iff_iff, List.isPrefixOf_iff_prefix, List.isPrefixOf_iff_prefix, prefix_firstWord_iff htag]
  exact List.find?_congr hprefix

theorem leadingTag?_tag (htag : tag ∈ tags) : leadingTag? tag = some tag := by
  have hall : ∀ tag ∈ tags, leadingTag? tag = some tag := by decide
  exact hall tag htag

/-- A tag is the first word of its line, unless that runs on. -/
theorem firstWord_eq_of_not_runsOn (htag : leadingTag? (tag ++ rest) = some tag)
    (h : ¬ RunsOn (tag ++ rest)) : firstWord rest = [] := by
  obtain ⟨hmem, hprefix⟩ := leadingTag?_eq_some htag
  have hword : firstWord (tag ++ rest) ∈ tags := by
    by_contra hnot
    exact h ⟨⟨tag, hmem, (prefix_firstWord_iff hmem).mpr hprefix⟩, hnot⟩
  have hfirst := leadingTag?_tag hword
  rw [leadingTag?_firstWord, htag, firstWord_tag hmem, Option.some.injEq] at hfirst
  exact List.append_cancel_left (hfirst.symm.trans (List.append_nil tag).symm)

theorem renderLine_of_not_runsOn (h : ¬ RunsOn line) : renderLine line = wordLine line := by
  rcases renderLine_cases line with ⟨tag, rest, htag, rfl, hshown⟩ | ⟨hnone, hshown⟩
  · rw [hshown, wordLine_tag (leadingTag?_eq_some htag).1 (firstWord_eq_of_not_runsOn htag h)]
  · rw [hshown, wordLine_plain (not_mem_tags_of_leadingTag? hnone)]

/-- A line that stays by whole words starts with the mark of a tag, and what is shown of it does not. -/
theorem renderLine_ne_of_runsOn (h : RunsOn line) : renderLine line ≠ wordLine line := by
  obtain ⟨⟨tag, hmem, hprefix⟩, hnot⟩ := h
  have hleading : leadingTag? line ≠ none := fun hnone =>
    leadingTag?_eq_none hnone tag hmem ((prefix_firstWord_iff hmem).mp hprefix)
  rw [wordLine_plain hnot]
  rcases renderLine_cases line with ⟨tag, rest, htag, rfl, hshown⟩ | ⟨hnone, -⟩
  · have hmark : ∀ tag ∈ tags, ∀ rest : List Char, (tag ++ rest).head? = some '@' := by simp [tags]
    intro heq
    have hhead := hmark tag (leadingTag?_eq_some htag).1 rest
    rw [← heq, hshown] at hhead
    rcases head?_tagged tag (trim rest) with hitem | hitem <;> rw [hhead] at hitem <;> contradiction
  · exact absurd hnone hleading

theorem wordLine_cases (line : List Char) :
    wordLine line = renderLine line ∨ RunsOn line ∧ wordLine line = line := by
  by_cases h : RunsOn line
  · exact .inr ⟨h, wordLine_plain h.2⟩
  · exact .inl (renderLine_of_not_runsOn h).symm

theorem wordLine_trimmed (h : Trimmed line) : Trimmed (wordLine line) := by
  rcases wordLine_cases line with heq | ⟨-, heq⟩
  · rw [heq]
    exact renderLine_trimmed h
  · rwa [heq]

theorem wordLine_isEmpty (line : List Char) : (wordLine line).isEmpty = line.isEmpty := by
  rcases wordLine_cases line with heq | ⟨-, heq⟩
  · rw [heq, renderLine_isEmpty]
  · rw [heq]

theorem wordLine_oneLine (h : '\n' ∉ line) : '\n' ∉ wordLine line := by
  rcases wordLine_cases line with heq | ⟨-, heq⟩
  · rw [heq]
    exact renderLine_oneLine h
  · rwa [heq]

end Words

section Agreement
variable {raw : List Char}

theorem shownBy_renderLine (raw : List Char) : shownBy renderLine raw = joined ((body raw).map renderLine) :=
  shownBy_eq (fun _ => renderLine_trimmed) renderLine_isEmpty

theorem shownBy_wordLine (raw : List Char) : shownBy wordLine raw = joined ((body raw).map wordLine) :=
  shownBy_eq (fun _ => wordLine_trimmed) wordLine_isEmpty

theorem not_runsOn_nil : ¬ RunsOn [] := by
  rintro ⟨⟨tag, htag, hprefix⟩, -⟩
  have hne : ∀ tag ∈ tags, tag ≠ [] := by decide
  exact hne tag htag (List.prefix_nil.mp hprefix)

/-- The lines around the body are empty. -/
theorem forall_linesOf_iff : (∀ line ∈ linesOf raw, ¬ RunsOn line) ↔ ∀ line ∈ body raw, ¬ RunsOn line := by
  obtain ⟨before, after, hlines, hbefore, hafter⟩ := exists_strip List.isEmpty (linesOf raw)
  rw [strip_linesOf] at hlines
  rw [hlines]
  constructor
  · exact fun h line hline => h line (List.mem_append_right _ (List.mem_append_left _ hline))
  · intro h line hline
    have hempty (hnil : line.isEmpty) : ¬ RunsOn line := List.isEmpty_iff.mp hnil ▸ not_runsOn_nil
    rcases List.mem_append.mp hline with hline | hline
    · exact hempty (hbefore line hline)
    rcases List.mem_append.mp hline with hline | hline
    · exact h line hline
    · exact hempty (hafter line hline)

theorem map_body_eq_iff : joined ((body raw).map renderLine) = joined ((body raw).map wordLine) ↔
    ∀ line ∈ body raw, ¬ RunsOn line := by
  have honeLine {f : List Char → List Char} (hf : ∀ line, '\n' ∉ line → '\n' ∉ f line) :
      ∀ line ∈ (body raw).map f, '\n' ∉ line := by
    intro line hline
    obtain ⟨written, hwritten, rfl⟩ := List.mem_map.mp hline
    exact hf written (mem_body hwritten).2
  constructor
  · intro heq line hline hruns
    have hmap := joined_injective (honeLine fun _ => renderLine_oneLine) (honeLine fun _ => wordLine_oneLine)
      (by rw [List.length_map, List.length_map]) heq
    exact renderLine_ne_of_runsOn hruns (List.map_inj_left.mp hmap line hline)
  · intro h
    rw [List.map_congr_left fun line hline => renderLine_of_not_runsOn (h line hline)]

/-- A comment is shown by whole words, of lines with a space behind a tag that starts them; and of its
lines as they are exactly where no first word runs on behind a tag. -/
theorem render_tags (raw : String) :
    (render raw).toList = shownBy (fun line => wordLine (setApart line)) raw.toList ∧
      ((render raw).toList = shownBy wordLine raw.toList ↔
        ∀ line ∈ linesOf raw.toList, ¬ RunsOn line) := by
  have happart : (fun line => wordLine (setApart line)) = renderLine :=
    funext fun line => (renderLine_eq_wordLine line).symm
  refine ⟨?_, ?_⟩
  · rw [happart, shownBy_renderLine, render_eq]
  · rw [render_eq, shownBy_wordLine, map_body_eq_iff, forall_linesOf_iff]

/-- A word that starts with a tag and is a longer one is cut in two. -/
theorem not_forall_render_by_words : ¬ ∀ raw : String, (render raw).toList = shownBy wordLine raw.toList := by
  intro hwords
  exact absurd (hwords "/** @parameters are checked */") (by decide +kernel)

end Agreement

end PlsqlNav.Documentation
