import PlsqlNav.Proofs.Cursor.Name
import PlsqlNav.Proofs.Documentation.Lines

/-! How a documentation comment is laid out does not show: indentation, gutters and line ends of any kind
leave what is shown as it is without them, and so do the delimiters on lines of their own, unless the text
itself starts or ends like a comment. -/
namespace PlsqlNav.Documentation

open Text
open Cursor (Gap)

/-- The carriage return before a newline, where there is one. -/
def returnIf (returned : Bool) : List Char := if returned then ['\r'] else []

/-- A line of a comment, and how it is decorated. -/
structure Row where
  indent : Gap
  /-- The white space behind an asterisk. -/
  gutter : Option Gap
  text : List Char
  returned : Bool
  oneLine : '\n' ∉ text
  plain : (trim text).head? ≠ some '*'

def Row.decorated (r : Row) : List Char :=
  r.indent.chars ++ (((r.gutter.map fun g => '*' :: g.chars).getD []) ++ (r.text ++ returnIf r.returned))

/-- The lines between the delimiters, which stand on lines of their own. -/
def comment (returned : Bool) (lines : List (List Char)) : List Char :=
  "/**".toList ++ (returnIf returned ++ '\n' :: lines.flatMap (· ++ ['\n']) ++ "*/".toList)

/-- A text that loses a delimiter when it is taken for a comment. -/
def Delimited (text : List Char) : Prop := "/**".toList <+: trim text ∨ "*/".toList <:+ trim text

section Row
variable {line rest : List Char}

theorem isBlank_returnIf (returned : Bool) : ∀ c ∈ returnIf returned, isBlank c := by
  cases returned <;> exact List.all_eq_true.mp rfl

theorem not_mem_returnIf (returned : Bool) : '\n' ∉ returnIf returned := by
  cases returned <;> decide

/-- White space around a line is no part of its content. -/
theorem content_append {before after : List Char} (hbefore : ∀ c ∈ before, isBlank c)
    (hafter : ∀ c ∈ after, isBlank c) (line : List Char) :
    content (before ++ (line ++ after)) = content line := by
  apply content_congr
  rw [trim_eq_strip, strip_append_left hbefore, strip_append_right _ hafter, trim_eq_strip]

theorem content_asterisk (g : Gap) (line : List Char) : content ('*' :: (g.chars ++ line)) = trim line := by
  have hstar : ¬ isBlank '*' := by decide
  have htrim : trim ('*' :: (g.chars ++ line)) = '*' :: trimEnd (g.chars ++ line) := by
    rw [trim_eq_strip, strip, List.dropWhile_cons_of_neg hstar, rdropWhile_cons_of_neg hstar]
    rfl
  rw [content_gutter htrim]
  refine (dropWhile_rdropWhile isBlank _).trans ?_
  rw [strip_append_left g.blank, trim_eq_strip]

theorem Row.content_decorated (r : Row) : content r.decorated = content r.text := by
  rw [decorated]
  cases r.gutter with
  | none => exact content_append r.indent.blank (isBlank_returnIf _) r.text
  | some g =>
    have hrow : (((some g).map fun g => '*' :: g.chars).getD []) ++ (r.text ++ returnIf r.returned) =
        '*' :: (g.chars ++ r.text) ++ returnIf r.returned := by simp
    rw [hrow, content_append r.indent.blank (isBlank_returnIf _), content_asterisk, content_plain r.plain]

theorem Row.not_mem_decorated (r : Row) : '\n' ∉ r.decorated := by
  have hgutter : '\n' ∉ (r.gutter.map fun g => '*' :: g.chars).getD [] := by
    cases r.gutter with
    | none => exact List.not_mem_nil
    | some g => exact List.not_mem_cons_of_ne_of_not_mem (by decide) g.oneLine
  simp only [decorated, List.mem_append, not_or]
  exact ⟨r.indent.oneLine, hgutter, r.oneLine, not_mem_returnIf _⟩

end Row

section Body
variable {lines : List (List Char)} {text before after : List Char}

theorem before?_append (front back : List Char) : before? back (front ++ back) = some front := by
  rw [before?, if_pos (List.isSuffixOf_iff_suffix.mpr (List.suffix_append front back)),
    List.length_append, Nat.add_sub_cancel, List.take_left]

theorem before?_eq_none {back cs : List Char} (h : ¬ back <:+ cs) : before? back cs = none := by
  rw [before?, if_neg]
  rwa [List.isSuffixOf_iff_suffix]

theorem inner_comment (returned : Bool) (lines : List (List Char)) :
    inner (comment returned lines) = returnIf returned ++ '\n' :: lines.flatMap (· ++ ['\n']) := by
  have htrimmed : Trimmed (comment returned lines) := by
    refine ⟨by rintro c ⟨⟩; decide, ?_⟩
    rw [comment, List.getLast?_append, List.getLast?_append]
    rintro c ⟨⟩
    decide
  rw [inner, trim_eq_strip, htrimmed.strip_eq, comment, after?_append, Option.getD_some, before?_append,
    Option.getD_some]

/-- Of a text that has no delimiters, only white space is taken off. -/
theorem inner_of_not_delimited (h : ¬ Delimited text) : inner text = trim text := by
  rw [Delimited, not_or] at h
  rw [inner, after?_eq_none h.1, Option.getD_none, before?_eq_none h.2, Option.getD_none]

theorem splitLines_flatMap (h : ∀ line ∈ lines, '\n' ∉ line) :
    splitLines (lines.flatMap (· ++ ['\n'])) = lines ++ [[]] := by
  induction lines with
  | nil => rfl
  | cons line lines ih =>
    rw [List.forall_mem_cons] at h
    rw [List.flatMap_cons, List.append_assoc, List.singleton_append, splitLines_append,
      splitLines_of_not_mem h.1, ih h.2, List.singleton_append, List.cons_append]

theorem contents_of_blank (h : ∀ c ∈ text, isBlank c) : ∀ line ∈ (splitLines text).map content, line.isEmpty := by
  intro line hline
  obtain ⟨written, hwritten, rfl⟩ := List.mem_map.mp hline
  rw [content_blank fun c hc => h c ((of_mem_splitLines hwritten).1 hc)]
  rfl

theorem contents_append_left (h : ∀ c ∈ before, isBlank c) (text : List Char) :
    contents (before ++ text) = contents text := by
  obtain ⟨lines, last, first, more, hbefore, htext, happend⟩ := exists_splitLines_append before text
  have hempty := contents_of_blank h
  rw [hbefore, List.map_append] at hempty
  have hlast : ∀ c ∈ last, isBlank c := fun c hc =>
    h c ((of_mem_splitLines (hbefore ▸ List.mem_concat_self)).1 hc)
  have hline : content (last ++ first) = content first := by
    rw [← content_append hlast (List.forall_mem_nil _) first, List.append_nil]
  rw [contents, happend, List.map_append, List.map_cons, hline,
    strip_append_left fun line hmem => hempty line (List.mem_append_left _ hmem), contents, htext, List.map_cons]

theorem contents_append_right (text : List Char) (h : ∀ c ∈ after, isBlank c) :
    contents (text ++ after) = contents text := by
  obtain ⟨lines, last, first, more, htext, hafter, happend⟩ := exists_splitLines_append text after
  have hempty := contents_of_blank h
  rw [hafter, List.map_cons, List.forall_mem_cons] at hempty
  have hfirst : ∀ c ∈ first, isBlank c := fun c hc =>
    h c ((of_mem_splitLines (hafter ▸ List.mem_cons_self)).1 hc)
  have hline : content (last ++ first) = content last :=
    content_append (List.forall_mem_nil _) hfirst last
  rw [contents, happend, List.map_append, List.map_cons, hline, List.append_cons,
    strip_append_right _ hempty.2, contents, htext, List.map_append]
  rfl

theorem contents_trim (text : List Char) : contents (trim text) = contents text := by
  obtain ⟨before, after, htext, hbefore, hafter⟩ := exists_strip isBlank text
  conv_rhs => rw [htext]
  rw [contents_append_left hbefore, contents_append_right _ hafter, trim_eq_strip]

theorem contents_joined (h : ∀ line ∈ lines, '\n' ∉ line) :
    contents (joined lines) = strip List.isEmpty (lines.map content) := by
  by_cases hne : lines = []
  · subst hne
    decide
  · rw [contents, splitLines_joined hne h]

/-- The lines of the delimiters are blank without them. -/
theorem body_comment (returned : Bool) (h : ∀ line ∈ lines, '\n' ∉ line) :
    body (comment returned lines) = contents (joined lines) := by
  have hlast : (splitLines (lines.flatMap (· ++ ['\n']))).map content = lines.map content ++ [[]] := by
    rw [splitLines_flatMap h, List.map_append]
    rfl
  have hfirst : (splitLines (returnIf returned)).map content = [[]] := by
    rw [splitLines_of_not_mem (not_mem_returnIf _), List.map_singleton,
      content_blank (isBlank_returnIf returned)]
  rw [body, contents, inner_comment, splitLines_append, List.map_append, hfirst, hlast,
    strip_append_left (by simp), strip_append_right _ (by simp), contents_joined h]

theorem body_of_not_delimited (h : ¬ Delimited text) : body text = contents text := by
  rw [body, inner_of_not_delimited h, contents_trim]

theorem render_congr {raw raw' : List Char} (h : body raw = body raw') :
    render (String.ofList raw) = render (String.ofList raw') := by
  apply String.toList_injective
  rw [render_eq, render_eq, String.toList_ofList, String.toList_ofList, h]

end Body

section Slash
variable {line text : List Char} {lines : List (List Char)}

theorem count_content (line : List Char) : (content line).count '/' = line.count '/' := by
  have hslash : ¬ isBlank '/' := by decide
  have htrim : (trim line).count '/' = line.count '/' := count_strip hslash line
  rcases content_cases line with ⟨rest, hline, hcontent⟩ | hcontent
  · have hrest : (trimStart rest).count '/' = rest.count '/' := count_dropWhile hslash rest
    rw [hcontent, hrest, ← htrim, hline, List.count_cons_of_ne (by decide)]
  · rw [hcontent, htrim]

theorem count_beside (head rest : List Char) :
    (beside head rest).count '/' = head.count '/' + rest.count '/' := by
  rw [beside]
  split
  · next hnil => rw [hnil, List.count_nil, Nat.add_zero]
  · rw [List.count_append, List.count_cons_of_ne (by decide)]

theorem count_tagged (tag text : List Char) : (tagged tag text).count '/' = text.count '/' := by
  rw [tagged]
  split
  · have hsplit := congrArg (List.count '/')
      (List.takeWhile_append_dropWhile (p := fun c => !isBlank c) (l := text))
    have hbehind : (behindWord text).count '/' = (text.dropWhile fun c => !isBlank c).count '/' :=
      count_strip (by decide) _
    have hopen : "- `".toList.count '/' = 0 := by decide
    have hclose : "`".toList.count '/' = 0 := by decide
    rw [item, count_beside, hbehind, List.count_append, List.count_append, hopen, hclose, Nat.zero_add,
      Nat.add_zero, firstWord, ← List.count_append, hsplit]
  · have hhead : "*Returns*".toList.count '/' = 0 := by decide
    rw [result, count_beside, hhead, Nat.zero_add]

theorem count_renderLine (line : List Char) : (renderLine line).count '/' = line.count '/' := by
  rcases renderLine_cases line with ⟨tag, rest, htag, rfl, hshown⟩ | ⟨-, hshown⟩
  · have hall : ∀ tag ∈ tags, tag.count '/' = 0 := by decide
    have htrim : (trim rest).count '/' = rest.count '/' := count_strip (by decide) rest
    rw [hshown, count_tagged, htrim, List.count_append, hall tag (leadingTag?_eq_some htag).1, Nat.zero_add]
  · rw [hshown]

theorem count_joined (lines : List (List Char)) : (joined lines).count '/' = lines.flatten.count '/' := by
  induction lines with
  | nil => rfl
  | cons line lines ih =>
    cases lines with
    | nil => rw [joined, List.intercalate_singleton, List.flatten_singleton]
    | cons next lines =>
      have hnewline : ['\n'].count '/' = 0 := rfl
      rw [joined, List.intercalate_cons_cons, ← joined, List.count_append, List.count_append, ih, hnewline,
        Nat.add_zero, ← List.count_append, ← List.flatten_cons]

theorem count_map {f : List Char → List Char} (h : ∀ line, (f line).count '/' = line.count '/')
    (lines : List (List Char)) : (lines.map f).flatten.count '/' = lines.flatten.count '/' := by
  induction lines with
  | nil => rfl
  | cons line lines ih =>
    rw [List.map_cons, List.flatten_cons, List.flatten_cons, List.count_append, List.count_append, h, ih]

/-- What is shown of a text has all its slashes. -/
theorem count_shown (text : List Char) :
    (joined ((contents text).map renderLine)).count '/' = text.count '/' := by
  obtain ⟨before, after, hlines, hbefore, hafter⟩ :=
    exists_strip List.isEmpty ((splitLines text).map content)
  have hempty {rows : List (List Char)} (h : ∀ row ∈ rows, row.isEmpty) : rows.flatten = [] :=
    List.flatten_eq_nil_iff.mpr fun row hrow => List.isEmpty_iff.mp (h row hrow)
  have hcontents : ((splitLines text).map content).flatten = (contents text).flatten := by
    rw [hlines, List.flatten_append, List.flatten_append, hempty hbefore, hempty hafter, List.nil_append,
      List.append_nil, contents]
  calc (joined ((contents text).map renderLine)).count '/'
      = (contents text).flatten.count '/' := by rw [count_joined, count_map count_renderLine]
    _ = (splitLines text).flatten.count '/' := by rw [← hcontents, count_map count_content]
    _ = text.count '/' := by rw [← count_joined, joined_splitLines]

/-- A delimiter has a slash. -/
theorem count_inner_lt (h : Delimited text) : (inner text).count '/' < text.count '/' := by
  have htrim : (trim text).count '/' = text.count '/' := count_strip (by decide) text
  have hbefore (cs : List Char) : ((before? "*/".toList cs).getD cs).count '/' ≤ cs.count '/' := by
    rw [before?]
    split
    · exact (List.take_sublist _ _).count_le _
    · exact Nat.le_refl _
  rw [inner, ← htrim]
  rcases after?_cases "/**".toList (trim text) with ⟨rest, hopened, hrest⟩ | ⟨hnot, hnone⟩
  · have hcount : (trim text).count '/' = 1 + rest.count '/' := by
      rw [hopened, List.count_append]
      rfl
    have := hbefore rest
    rw [hrest, Option.getD_some]
    omega
  · obtain ⟨front, hfront⟩ := h.resolve_left hnot
    have hcount : (trim text).count '/' = front.count '/' + 1 := by
      rw [← hfront, List.count_append]
      rfl
    rw [hnone, Option.getD_none, ← hfront, before?_append, Option.getD_some, hfront]
    omega

end Slash

/-- Decoration does not show. Nor do the delimiters, exactly where the text between them has none itself. -/
theorem render_decorated (returned : Bool) (rows : List Row) :
    let written := rows.map Row.text
    let shown := render (String.ofList (comment returned (rows.map Row.decorated)))
    shown = render (String.ofList (comment false written)) ∧
      (shown = render (String.ofList (joined written)) ↔ ¬ Delimited (joined written)) ∧
        Tidy shown.toList := by
  have hdecorated : ∀ line ∈ rows.map Row.decorated, '\n' ∉ line :=
    List.forall_mem_map.mpr fun r _ => r.not_mem_decorated
  have hwritten : ∀ line ∈ rows.map Row.text, '\n' ∉ line := List.forall_mem_map.mpr fun r _ => r.oneLine
  have hbody : body (comment returned (rows.map Row.decorated)) = contents (joined (rows.map Row.text)) := by
    have hrows : (rows.map Row.decorated).map content = (rows.map Row.text).map content := by
      rw [List.map_map, List.map_map]
      exact List.map_congr_left fun r _ => r.content_decorated
    rw [body_comment returned hdecorated, contents_joined hdecorated, hrows, contents_joined hwritten]
  refine ⟨render_congr ?_, ⟨fun hshown hdelimited => ?_, fun hdelimited => render_congr ?_⟩, render_tidy _⟩
  · rw [hbody, body_comment false hwritten]
  · -- A delimiter that is taken off takes a slash with it.
    have hslashes := congrArg (fun s => s.toList.count '/') hshown
    rw [render_eq, render_eq, String.toList_ofList, String.toList_ofList, hbody, body, count_shown,
      count_shown] at hslashes
    exact Nat.ne_of_gt (count_inner_lt hdelimited) hslashes
  · rw [hbody, body_of_not_delimited hdelimited]

/-- Between delimiters, a line that looks like one is text; by itself it is none. -/
theorem not_forall_render_undecorated : ¬ ∀ (returned : Bool) (rows : List Row),
    render (String.ofList (comment returned (rows.map Row.decorated))) =
      render (String.ofList (joined (rows.map Row.text))) := by
  intro hshown
  let space : Gap := ⟨[' '], isBlank_space, by decide⟩
  let row : Row := ⟨space, some space, "/** x".toList, false, by decide, by decide⟩
  exact absurd (hshown false [row]) (by decide +kernel)

end PlsqlNav.Documentation
