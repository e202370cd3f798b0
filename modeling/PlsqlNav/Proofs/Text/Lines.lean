import PlsqlNav.Text.Position

/-! Lines of a text. A line is told by what stands around it: the text before it is empty or ends with a
newline, the text after it is empty or starts with one, and it has none itself. -/
namespace PlsqlNav.Text

/-- `line` is a whole line of the text, between `before` and `after`. -/
structure IsLine (text before line after : List Char) : Prop where
  split : text = before ++ (line ++ after)
  oneLine : '\n' ∉ line
  opens : ∀ c ∈ before.getLast?, c = '\n'
  closes : ∀ c ∈ after.head?, c = '\n'

variable {text before line after front back cs : List Char} {pos o n column : Nat}

theorem eq_nil_or_newline (h : ∀ c ∈ before.getLast?, c = '\n') :
    before = [] ∨ ∃ front, before = front ++ ['\n'] := by
  cases hlast : before.getLast? with
  | none => exact .inl (List.getLast?_eq_none_iff.mp hlast)
  | some c =>
    rw [h c hlast] at hlast
    exact .inr (List.getLast?_eq_some_iff.mp hlast)

section Split

theorem splitLines_newline (cs : List Char) : splitLines ('\n' :: cs) = [] :: splitLines cs := rfl

theorem splitLines_ne_nil (cs : List Char) : splitLines cs ≠ [] := by
  cases cs with
  | nil => exact List.cons_ne_nil _ _
  | cons c cs =>
    rw [splitLines]
    split
    · exact List.cons_ne_nil _ _
    · split <;> exact List.cons_ne_nil _ _

theorem splitLines_cons {c : Char} (hc : c ≠ '\n') {line : List Char} {lines : List (List Char)}
    (h : splitLines cs = line :: lines) : splitLines (c :: cs) = (c :: line) :: lines := by
  rw [splitLines, if_neg hc, h]

theorem splitLines_of_not_mem (h : '\n' ∉ line) : splitLines line = [line] := by
  induction line with
  | nil => rfl
  | cons c line ih =>
    rw [List.mem_cons, not_or] at h
    exact splitLines_cons (Ne.symm h.1) (ih h.2)

theorem splitLines_append (front back : List Char) :
    splitLines (front ++ '\n' :: back) = splitLines front ++ splitLines back := by
  induction front with
  | nil => rfl
  | cons c front ih =>
    rw [List.cons_append]
    by_cases hc : c = '\n'
    · subst hc
      rw [splitLines_newline, splitLines_newline, ih, List.cons_append]
    · obtain ⟨line, lines, hlines⟩ := List.exists_cons_of_ne_nil (splitLines_ne_nil front)
      rw [hlines, List.cons_append] at ih
      rw [splitLines_cons hc ih, splitLines_cons hc hlines, List.cons_append]

/-- Where two texts meet, the last line of one goes on with the first line of the other. -/
theorem exists_splitLines_append (front back : List Char) : ∃ lines last first more,
    splitLines front = lines ++ [last] ∧ splitLines back = first :: more ∧
      splitLines (front ++ back) = lines ++ (last ++ first) :: more := by
  obtain ⟨first, more, hback⟩ := List.exists_cons_of_ne_nil (splitLines_ne_nil back)
  induction front with
  | nil => exact ⟨[], [], first, more, rfl, hback, hback⟩
  | cons c front ih =>
    obtain ⟨lines, last, first, more, hfront, hback, happend⟩ := ih
    rw [List.cons_append]
    by_cases hc : c = '\n'
    · subst hc
      refine ⟨[] :: lines, last, first, more, ?_, hback, ?_⟩
      · rw [splitLines_newline, hfront, List.cons_append]
      · rw [splitLines_newline, happend, List.cons_append]
    · cases lines with
      | nil => exact ⟨[], c :: last, first, more, splitLines_cons hc hfront, hback, splitLines_cons hc happend⟩
      | cons line lines =>
        exact ⟨(c :: line) :: lines, last, first, more, splitLines_cons hc hfront, hback,
          splitLines_cons hc happend⟩

/-- A line has characters of its text, and no newline. -/
theorem of_mem_splitLines (h : line ∈ splitLines text) : line ⊆ text ∧ '\n' ∉ line := by
  induction text generalizing line with
  | nil =>
    rw [List.mem_singleton.mp h]
    exact ⟨List.nil_subset _, List.not_mem_nil⟩
  | cons c text ih =>
    by_cases hc : c = '\n'
    · subst hc
      rcases List.mem_cons.mp h with rfl | h
      · exact ⟨List.nil_subset _, List.not_mem_nil⟩
      · exact ⟨List.subset_cons_of_subset _ (ih h).1, (ih h).2⟩
    · obtain ⟨first, more, hlines⟩ := List.exists_cons_of_ne_nil (splitLines_ne_nil text)
      rw [splitLines_cons hc hlines] at h
      rw [hlines] at ih
      rcases List.mem_cons.mp h with rfl | h
      · obtain ⟨hsubset, hnewline⟩ := ih List.mem_cons_self
        exact ⟨List.cons_subset_cons c hsubset,
          List.not_mem_cons_of_ne_of_not_mem (Ne.symm hc) hnewline⟩
      · obtain ⟨hsubset, hnewline⟩ := ih (List.mem_cons_of_mem first h)
        exact ⟨List.subset_cons_of_subset _ hsubset, hnewline⟩

theorem length_splitLines (text : List Char) : (splitLines text).length = text.count '\n' + 1 := by
  induction text with
  | nil => rfl
  | cons c text ih =>
    by_cases hc : c = '\n'
    · subst hc
      rw [splitLines_newline, List.length_cons, ih, List.count_cons_self]
    · obtain ⟨line, lines, hlines⟩ := List.exists_cons_of_ne_nil (splitLines_ne_nil text)
      rw [hlines, List.length_cons] at ih
      rw [splitLines_cons hc hlines, List.length_cons, ih, List.count_cons_of_ne hc]

/-- How far lines reach, their newlines included. -/
def reach : List (List Char) → Nat
  | [] => 0
  | line :: lines => byteLength line + 1 + reach lines

theorem reach_splitLines (text : List Char) : reach (splitLines text) = byteLength text + 1 := by
  induction text with
  | nil => rfl
  | cons c text ih =>
    by_cases hc : c = '\n'
    · subst hc
      have hsize : ('\n' : Char).utf8Size = 1 := by decide
      simp only [splitLines_newline, reach, byteLength, hsize] at ih ⊢
      omega
    · obtain ⟨line, lines, hlines⟩ := List.exists_cons_of_ne_nil (splitLines_ne_nil text)
      rw [hlines] at ih
      simp only [splitLines_cons hc hlines, reach, byteLength] at ih ⊢
      omega

theorem offsetIn_append (xs ys : List (List Char)) :
    offsetIn pos column (xs.length + n) (xs ++ ys) = offsetIn (pos + reach xs) column n ys := by
  induction xs generalizing pos with
  | nil => rw [List.length_nil, Nat.zero_add, List.nil_append]; rfl
  | cons l xs ih =>
    rw [List.length_cons, Nat.add_right_comm, List.cons_append, offsetIn, ih]
    simp only [reach, Nat.add_assoc]

theorem offsetIn_isSome {lines : List (List Char)} :
    (offsetIn pos column n lines).isSome ↔ n < lines.length := by
  induction lines generalizing pos n with
  | nil => simp [offsetIn]
  | cons l lines ih =>
    cases n with
    | zero => simp [offsetIn]
    | succ n => rw [offsetIn, ih, List.length_cons, Nat.add_lt_add_iff_right]

end Split

section Stops

theorem newlineStops_append (pos : Nat) (front back : List Char) : newlineStops pos (front ++ back) =
    newlineStops pos front ++ newlineStops (pos + byteLength front) back := by
  induction front generalizing pos with
  | nil => rfl
  | cons c front ih =>
    rw [List.cons_append, newlineStops, newlineStops, ih, byteLength, Nat.add_assoc]
    split <;> rfl

theorem newlineStops_of_not_mem (h : '\n' ∉ line) (pos : Nat) : newlineStops pos line = [] := by
  induction line generalizing pos with
  | nil => rfl
  | cons c line ih =>
    rw [List.mem_cons, not_or] at h
    rw [newlineStops, if_neg (Ne.symm h.1)]
    exact ih h.2 _

theorem length_newlineStops (pos : Nat) (text : List Char) :
    (newlineStops pos text).length = text.count '\n' := by
  induction text generalizing pos with
  | nil => rfl
  | cons c text ih =>
    rw [newlineStops]
    split
    · next hc => rw [List.length_cons, ih, hc, List.count_cons_self]
    · next hc => rw [ih, List.count_cons_of_ne hc]

theorem le_of_mem_newlineStops {stop : Nat} (h : stop ∈ newlineStops pos text) :
    stop ≤ pos + byteLength text := by
  induction text generalizing pos with
  | nil => contradiction
  | cons c text ih =>
    rw [newlineStops] at h
    rw [byteLength, ← Nat.add_assoc]
    split at h
    · rcases List.mem_cons.mp h with rfl | h
      · exact Nat.le_add_right _ _
      · exact ih h
    · exact ih h

/-- The last line of a text that ends with a newline starts at its end. -/
theorem getLast?_newlineStops (pos : Nat) (front : List Char) :
    (newlineStops pos (front ++ ['\n'])).getLast? = some (pos + byteLength (front ++ ['\n'])) := by
  have hstop : newlineStops (pos + byteLength front) ['\n'] = [pos + byteLength (front ++ ['\n'])] := by
    rw [byteLength_append, ← Nat.add_assoc]
    rfl
  rw [newlineStops_append, hstop, List.getLast?_concat]

end Stops

namespace IsLine

/-- The line where the text is cut. -/
theorem of_append (front back : List Char) : ∃ before left right after,
    front = before ++ left ∧ back = right ++ after ∧ IsLine (front ++ back) before (left ++ right) after := by
  let p : Char → Bool := (· ≠ '\n')
  have hsplit := List.takeWhile_append_dropWhile (p := p) (l := front.reverse)
  have hfront : front = (front.reverse.dropWhile p).reverse ++ (front.reverse.takeWhile p).reverse := by
    rw [← List.reverse_append, hsplit, List.reverse_reverse]
  have hback : back = back.takeWhile p ++ back.dropWhile p := List.takeWhile_append_dropWhile.symm
  have hplain {cs : List Char} : '\n' ∉ cs.takeWhile p := fun hmem => by
    simpa [p] using List.all_eq_true.mp List.all_takeWhile _ hmem
  have hstop {cs : List Char} : ∀ c ∈ (cs.dropWhile p).head?, c = '\n' := fun c hc => by
    have hnot := List.head?_dropWhile_not p cs
    rw [Option.mem_def.mp hc] at hnot
    simpa [p] using hnot
  refine ⟨_, _, _, _, hfront, hback, ?_, ?_, ?_, hstop⟩
  · rw [List.append_assoc, ← hback, ← List.append_assoc, ← hfront]
  · rw [List.mem_append, List.mem_reverse]
    exact not_or.mpr ⟨hplain, hplain⟩
  · rw [List.getLast?_reverse]
    exact hstop

/-- A line stays one when text without a newline is put into it. -/
theorem insert {left middle right : List Char} (h : IsLine text before (left ++ right) after)
    (hmiddle : '\n' ∉ middle) :
    IsLine (before ++ (left ++ (middle ++ right) ++ after)) before (left ++ (middle ++ right)) after := by
  have hline := h.oneLine
  refine ⟨rfl, ?_, h.opens, h.closes⟩
  simp only [List.mem_append, not_or] at hline ⊢
  exact ⟨hline.1, hmiddle, hline.2⟩

variable (h : IsLine text before line after)
include h

theorem getElem?_splitLines : (splitLines text)[before.count '\n']? = some line := by
  have hhere : (splitLines (line ++ after))[0]? = some line := by
    cases after with
    | nil => rw [List.append_nil, splitLines_of_not_mem h.oneLine]; rfl
    | cons c after =>
      rw [h.closes c rfl, splitLines_append, splitLines_of_not_mem h.oneLine]
      rfl
  rcases eq_nil_or_newline h.opens with rfl | ⟨front, rfl⟩
  · rw [h.split]
    exact hhere
  · rw [h.split, List.append_assoc, List.singleton_append, splitLines_append, List.getElem?_append_right]
    · rw [length_splitLines, List.count_append, List.count_singleton_self, Nat.sub_self]
      exact hhere
    · refine Nat.le_of_eq ?_
      rw [length_splitLines, List.count_append, List.count_singleton_self]

theorem offsetIn_splitLines (column : Nat) :
    offsetIn 0 column (before.count '\n') (splitLines text) =
      some (byteLength before + min (column - 1) (byteLength (dropReturn line))) := by
  have hhere (pos : Nat) : offsetIn pos column 0 (splitLines (line ++ after)) =
      some (pos + min (column - 1) (byteLength (dropReturn line))) := by
    cases after with
    | nil => rw [List.append_nil, splitLines_of_not_mem h.oneLine]; rfl
    | cons c after =>
      rw [h.closes c rfl, splitLines_append, splitLines_of_not_mem h.oneLine]
      rfl
  rcases eq_nil_or_newline h.opens with rfl | ⟨front, rfl⟩
  · rw [h.split]
    exact hhere 0
  · have hcount : (front ++ ['\n']).count '\n' = (splitLines front).length + 0 := by
      rw [length_splitLines, List.count_append, List.count_singleton_self, Nat.add_zero]
    have hreach : byteLength (front ++ ['\n']) = 0 + reach (splitLines front) := by
      rw [reach_splitLines, byteLength_append, Nat.zero_add]
      rfl
    rw [hcount, hreach, h.split, List.append_assoc, List.singleton_append, splitLines_append,
      offsetIn_append, hhere]

/-- Positions on a line, its end included. -/
theorem lineCol_eq (hle : byteLength before ≤ o) (hlt : o ≤ byteLength (before ++ line)) :
    lineCol (lineStarts text) o = (before.count '\n' + 1, o - byteLength before + 1) := by
  have hstarts : lineStarts text =
      (0 :: newlineStops 0 before) ++ newlineStops (byteLength (before ++ line)) after := by
    rw [lineStarts, h.split, ← List.append_assoc, newlineStops_append, newlineStops_append,
      newlineStops_of_not_mem h.oneLine, List.append_nil, Nat.zero_add, List.cons_append]
  have hbefore : ∀ stop ∈ 0 :: newlineStops 0 before, decide (stop ≤ o) := by
    intro stop hstop
    rw [decide_eq_true_iff]
    rcases List.mem_cons.mp hstop with rfl | hstop
    · exact Nat.zero_le o
    · have := le_of_mem_newlineStops hstop
      omega
  have hafter : (newlineStops (byteLength (before ++ line)) after).takeWhile (· ≤ o) = [] := by
    cases after with
    | nil => rfl
    | cons c after =>
      have hsize : c.utf8Size = 1 := by rw [h.closes c rfl]; decide
      rw [newlineStops, if_pos (h.closes c rfl), hsize, List.takeWhile_cons_of_neg]
      rw [decide_eq_true_iff]
      omega
  have hlast : (0 :: newlineStops 0 before).getLastD 0 = byteLength before := by
    rw [List.getLastD_eq_getLast?]
    rcases eq_nil_or_newline h.opens with rfl | ⟨front, rfl⟩
    · rfl
    · rw [List.getLast?_cons, getLast?_newlineStops, Nat.zero_add]
      rfl
  have htaken : (lineStarts text).takeWhile (· ≤ o) = 0 :: newlineStops 0 before := by
    rw [hstarts, List.takeWhile_append_of_pos hbefore, hafter, List.append_nil]
  rw [lineCol, htaken, hlast]
  simp only [List.length_cons, length_newlineStops, Nat.max_eq_left (Nat.le_add_left 1 _)]

theorem lineAt_eq {text' : String} (htext : text'.toList = text) :
    lineAt text' (before.count '\n' + 1) = some (String.ofList (dropReturn line)) := by
  rw [lineAt, if_neg (Nat.succ_ne_zero _), htext, Nat.add_sub_cancel, h.getElem?_splitLines]
  rfl

theorem offsetOf_eq {text' : String} (htext : text'.toList = text) (column : Nat) :
    offsetOf text' (before.count '\n' + 1) column =
      some (byteLength before + min (column - 1) (byteLength (dropReturn line))) := by
  rw [offsetOf, if_neg (Nat.succ_ne_zero _), htext, Nat.add_sub_cancel, h.offsetIn_splitLines]

end IsLine

/-- There are as many lines as newlines, and one more. -/
theorem exists_isLine (text : List Char) (hn : n ≤ text.count '\n') :
    ∃ before line after, IsLine text before line after ∧ before.count '\n' = n := by
  induction n with
  | zero =>
    obtain ⟨before, left, right, after, hnil, _, hline⟩ := IsLine.of_append [] text
    obtain ⟨rfl, rfl⟩ := List.append_eq_nil_iff.mp hnil.symm
    exact ⟨[], _, after, hline, rfl⟩
  | succ n ih =>
    obtain ⟨before, line, after, hline, hcount⟩ := ih (Nat.le_of_succ_le hn)
    have hrest : after ≠ [] := by
      rintro rfl
      rw [hline.split, List.append_nil, List.count_append, hcount,
        List.count_eq_zero_of_not_mem hline.oneLine] at hn
      exact absurd hn (Nat.not_succ_le_self n)
    obtain ⟨c, more, rfl⟩ := List.exists_cons_of_ne_nil hrest
    obtain rfl : c = '\n' := hline.closes c rfl
    obtain ⟨none, left, right, rest, hnil, hmore, hnext⟩ := IsLine.of_append [] more
    obtain ⟨rfl, rfl⟩ := List.append_eq_nil_iff.mp hnil.symm
    refine ⟨before ++ (line ++ ['\n']), _, rest, ⟨?_, hnext.oneLine, ?_, hnext.closes⟩, ?_⟩
    · rw [hline.split, hmore]
      simp only [List.append_assoc, List.nil_append, List.singleton_append]
    · intro c hc
      rw [← List.append_assoc, List.getLast?_concat] at hc
      exact (Option.some.inj hc).symm
    · rw [List.count_append, List.count_append, hcount, List.count_singleton_self,
        List.count_eq_zero_of_not_mem hline.oneLine]

end PlsqlNav.Text
