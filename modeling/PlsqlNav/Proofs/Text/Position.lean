import Mathlib.Tactic.ByContra
import PlsqlNav.Outline.Scan
import PlsqlNav.Proofs.Text.Lines

/-! Positions, and lines with columns. The one is found from the other and back, in every text: empty
lines, carriage returns and columns past the end of a line included. -/
namespace PlsqlNav

namespace Text

/-- The position just past a carriage return that ends a line. The carriage return is no part of the
line's content, so that this is one byte past the content's end. -/
def AfterReturn (text : List Char) (o : Nat) : Prop :=
  ∃ front back, text = front ++ '\r' :: back ∧ (∀ c ∈ back.head?, c = '\n') ∧ o = byteLength front + 1

/-- Positions in a text convert into lines and columns, by `position`, and back. -/
structure ConvertsPositions (text : String) (position : Nat → Nat × Nat) : Prop where
  offsetOf_position : ∀ o, o ≤ byteLength text.toList → ¬ AfterReturn text.toList o →
    offsetOf text (position o).1 (position o).2 = some o
  offsetOf_position_afterReturn : ∀ o, AfterReturn text.toList o →
    offsetOf text (position o).1 (position o).2 = some (o - 1)
  position_offsetOf : ∀ l c o, 1 ≤ c → offsetOf text l c = some o →
    ∃ line, lineAt text l = some line ∧ position o = (l, min c (byteLength line.toList + 1))
  lineAt_isSome : ∀ l, (lineAt text l).isSome ↔ 1 ≤ l ∧ l ≤ text.toList.count '\n' + 1
  offsetOf_isSome : ∀ l c, (offsetOf text l c).isSome ↔ 1 ≤ l ∧ l ≤ text.toList.count '\n' + 1
  /-- A line stands in the text where its first column is. -/
  line_stands : ∀ l line, lineAt text l = some line → ∃ front back,
    text.toList = front ++ (line.toList ++ back) ∧ offsetOf text l 1 = some (byteLength front)

variable {text before line after : List Char} {o : Nat}

theorem dropReturn_cases (line : List Char) :
    dropReturn line = line ∧ line.getLast? ≠ some '\r' ∨
      ∃ content, line = content ++ ['\r'] ∧ dropReturn line = content := by
  rw [dropReturn]
  split
  · next h =>
    obtain ⟨content, rfl⟩ := List.getLast?_eq_some_iff.mp h
    exact .inr ⟨content, rfl, List.dropLast_concat⟩
  · next h => exact .inl ⟨rfl, h⟩

/-- What is left of a line without its carriage return. -/
theorem exists_dropReturn_append (line : List Char) : ∃ rest, line = dropReturn line ++ rest := by
  rcases dropReturn_cases line with ⟨h, _⟩ | ⟨content, hline, h⟩
  · exact ⟨[], by rw [h, List.append_nil]⟩
  · exact ⟨['\r'], by rw [h, hline]⟩

/-- A carriage return ends the last part of a line, where there is no other before it. -/
theorem dropReturn_append {line : List Char} (h : ∀ c ∈ line.getLast?, c ≠ '\r') (rest : List Char) :
    dropReturn (line ++ rest) = line ++ dropReturn rest := by
  rcases dropReturn_cases rest with ⟨hrest, hlast⟩ | ⟨content, rfl, hrest⟩
  · rw [hrest, dropReturn, if_neg]
    rw [List.getLast?_append]
    intro heq
    cases hend : rest.getLast? with
    | none =>
      rw [hend, Option.none_or] at heq
      exact h '\r' heq rfl
    | some c =>
      rw [hend, Option.some_or] at heq
      exact hlast (hend.trans heq)
  · rw [hrest, ← List.append_assoc, dropReturn, if_pos List.getLast?_concat, List.dropLast_concat]

theorem byteLength_dropReturn_le (line : List Char) : byteLength (dropReturn line) ≤ byteLength line := by
  obtain ⟨rest, hrest⟩ := exists_dropReturn_append line
  have := byteLength_append (dropReturn line) rest
  rw [← hrest] at this
  omega

/-- The whole characters before a position, and the character that the position may split. -/
theorem exists_takeBytes_append (o : Nat) (text : List Char) : ∃ back, text = takeBytes o text ++ back ∧
    byteLength (takeBytes o text) ≤ o ∧
      ∀ c ∈ back.head?, o < byteLength (takeBytes o text) + c.utf8Size := by
  induction text generalizing o with
  | nil => exact ⟨[], rfl, Nat.zero_le o, by simp⟩
  | cons c text ih =>
    rw [takeBytes]
    split
    · next hle =>
      obtain ⟨back, htext, hlen, hsplit⟩ := ih (o - c.utf8Size)
      refine ⟨back, congrArg (c :: ·) htext, ?_, fun d hd => ?_⟩
      · rw [byteLength]
        omega
      · have := hsplit d hd
        rw [byteLength]
        omega
    · next hlt =>
      refine ⟨c :: text, rfl, Nat.zero_le o, fun d hd => ?_⟩
      obtain rfl : c = d := Option.some.inj hd
      rw [byteLength]
      omega

/-- Every position is on a line. -/
theorem exists_line_around (ho : o ≤ byteLength text) : ∃ before line after,
    IsLine text before line after ∧ byteLength before ≤ o ∧ o ≤ byteLength (before ++ line) := by
  obtain ⟨back, htext, hle, hsplit⟩ := exists_takeBytes_append o text
  obtain ⟨before, left, right, after, hfront, hback, hline⟩ := IsLine.of_append (takeBytes o text) back
  rw [← htext] at hline
  have hlen : byteLength (before ++ (left ++ right)) = byteLength (takeBytes o text) + byteLength right := by
    rw [← List.append_assoc, ← hfront, byteLength_append]
  refine ⟨before, left ++ right, after, hline, ?_, ?_⟩
  · have := congrArg byteLength hfront
    rw [byteLength_append] at this
    omega
  · rw [hlen]
    cases right with
    | cons c right =>
      have := hsplit c (by rw [hback]; rfl)
      rw [byteLength]
      omega
    | nil =>
      rw [List.nil_append] at hback
      cases after with
      | nil =>
        rw [htext, hback, byteLength_append] at ho
        exact ho
      | cons c after =>
        have hsize : c.utf8Size = 1 := by rw [hline.closes c rfl]; decide
        have := hsplit c (by rw [hback]; rfl)
        rw [byteLength]
        omega

section Line
variable {text : String} (h : IsLine text.toList before line after)
include h

theorem IsLine.offsetOf_lineCol (hle : byteLength before ≤ o) (hlt : o ≤ byteLength (before ++ line)) :
    offsetOf text (lineCol (lineStarts text.toList) o).1 (lineCol (lineStarts text.toList) o).2 =
      some (byteLength before + min (o - byteLength before) (byteLength (dropReturn line))) := by
  rw [h.lineCol_eq hle hlt, h.offsetOf_eq rfl, Nat.add_sub_cancel]

theorem IsLine.offsetOf_lineCol_content (hle : byteLength before ≤ o) (hlt : o ≤ byteLength (before ++ line))
    (hreturn : ¬ AfterReturn text.toList o) :
    offsetOf text (lineCol (lineStarts text.toList) o).1 (lineCol (lineStarts text.toList) o).2 =
      some o := by
  have hcontent : o ≤ byteLength before + byteLength (dropReturn line) := by
    rw [byteLength_append] at hlt
    rcases dropReturn_cases line with ⟨hsame, _⟩ | ⟨content, rfl, hdrop⟩
    · rwa [hsame]
    · by_contra hpast
      have hsize : byteLength ['\r'] = 1 := by decide
      rw [hdrop] at hpast
      rw [byteLength_append, hsize] at hlt
      refine hreturn ⟨before ++ content, after, ?_, h.closes, ?_⟩
      · rw [h.split]
        simp only [List.append_assoc, List.singleton_append]
      · rw [byteLength_append]
        omega
  rw [h.offsetOf_lineCol hle hlt]
  congr 1
  omega

end Line

/-- A carriage return that ends a line takes up no column. -/
theorem offsetOf_lineCol_afterReturn {text : String} (h : AfterReturn text.toList o) :
    offsetOf text (lineCol (lineStarts text.toList) o).1 (lineCol (lineStarts text.toList) o).2 =
      some (o - 1) := by
  obtain ⟨front, back, htext, hback, rfl⟩ := h
  obtain ⟨before, left, right, after, rfl, hright, hline⟩ := IsLine.of_append front ('\r' :: back)
  have hreturn : right = ['\r'] := by
    rcases right with _ | ⟨c, right⟩
    · rw [List.nil_append] at hright
      have := hline.closes '\r' (by rw [← hright]; rfl)
      exact absurd this (by decide)
    · obtain ⟨rfl, hmore⟩ := List.cons.inj hright
      cases right with
      | nil => rfl
      | cons d right =>
        obtain rfl : d = '\n' := hback d (by rw [hmore]; rfl)
        exact absurd (by simp) hline.oneLine
  subst hreturn
  rw [← htext] at hline
  have hsize : byteLength ['\r'] = 1 := by decide
  have hdrop : dropReturn (left ++ ['\r']) = left := by
    rw [dropReturn, if_pos List.getLast?_concat, List.dropLast_concat]
  have hlen := byteLength_append before left
  rw [hline.offsetOf_lineCol, hdrop]
  · congr 1
    omega
  · omega
  · refine Nat.le_of_eq ?_
    rw [← List.append_assoc, byteLength_append (before ++ left), hsize]

/-- The line of a number, where there is one. -/
theorem exists_isLine_of_number {l : Nat} (hpos : 1 ≤ l) (hle : l ≤ text.count '\n' + 1) :
    ∃ before line after, IsLine text before line after ∧ l = before.count '\n' + 1 := by
  obtain ⟨before, line, after, hline, hcount⟩ :=
    exists_isLine text (n := l - 1) (Nat.sub_le_of_le_add hle)
  exact ⟨before, line, after, hline, by omega⟩

theorem lineAt_isSome_iff (text : String) (l : Nat) :
    (lineAt text l).isSome ↔ 1 ≤ l ∧ l ≤ text.toList.count '\n' + 1 := by
  rw [lineAt]
  split
  · next h => simp [h]
  · rw [Option.isSome_map, Option.isSome_iff_ne_none, Ne, List.getElem?_eq_none_iff, length_splitLines]
    omega

theorem offsetOf_isSome_iff (text : String) (l c : Nat) :
    (offsetOf text l c).isSome ↔ 1 ≤ l ∧ l ≤ text.toList.count '\n' + 1 := by
  rw [offsetOf]
  split
  · next h => simp [h]
  · rw [offsetIn_isSome, length_splitLines]
    omega

end Text

open Text

/-- Positions of an outline's text convert into lines and columns and back. -/
theorem Outline.ofText_convertsPositions (file text : String) :
    ConvertsPositions text (Outline.ofText file text).position where
  offsetOf_position := by
    intro o ho hreturn
    obtain ⟨before, line, after, hline, hle, hlt⟩ := exists_line_around ho
    exact hline.offsetOf_lineCol_content hle hlt hreturn
  offsetOf_position_afterReturn := fun o h => offsetOf_lineCol_afterReturn h
  position_offsetOf := by
    intro l c o hc ho
    obtain ⟨hpos, hle⟩ := (offsetOf_isSome_iff text l c).mp (Option.isSome_of_mem ho)
    obtain ⟨before, line, after, hline, rfl⟩ := exists_isLine_of_number hpos hle
    have hcontent := byteLength_dropReturn_le line
    have hlen := byteLength_append before line
    rw [hline.offsetOf_eq rfl, Option.some.injEq] at ho
    refine ⟨_, hline.lineAt_eq rfl, ?_⟩
    rw [String.toList_ofList, position]
    refine (hline.lineCol_eq ?_ ?_).trans (Prod.ext rfl ?_)
    · omega
    · omega
    · simp only
      omega
  lineAt_isSome := lineAt_isSome_iff text
  offsetOf_isSome := offsetOf_isSome_iff text
  line_stands := by
    intro l found hfound
    obtain ⟨hpos, hle⟩ := (lineAt_isSome_iff text l).mp (Option.isSome_of_mem hfound)
    obtain ⟨before, line, after, hline, rfl⟩ := exists_isLine_of_number hpos hle
    obtain ⟨rest, hrest⟩ := exists_dropReturn_append line
    rw [hline.lineAt_eq rfl, Option.some.injEq] at hfound
    subst hfound
    refine ⟨before, rest ++ after, ?_, hline.offsetOf_eq rfl 1⟩
    rw [String.toList_ofList, ← List.append_assoc (dropReturn line), ← hrest, hline.split]

end PlsqlNav
