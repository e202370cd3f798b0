import Mathlib.Data.List.DropRight
import Mathlib.Data.List.TakeWhile
import PlsqlNav.Text.Blank

/-! Lists without the elements of a class at their ends: texts without white space around them, and rows
of lines without empty lines around them. Stripping takes off elements of the class and nothing else. -/
namespace PlsqlNav.Text

section Strip
variable {α : Type} {p : α → Bool} {xs before after : List α}

/-- The list without the elements that `p` accepts at both ends. -/
def strip (p : α → Bool) (xs : List α) : List α := (xs.dropWhile p).rdropWhile p

/-- `p` accepts neither the first element nor the last. -/
structure Stripped (p : α → Bool) (xs : List α) : Prop where
  first : ∀ x ∈ xs.head?, ¬ p x
  last : ∀ x ∈ xs.getLast?, ¬ p x

theorem not_head?_dropWhile (p : α → Bool) (xs : List α) : ∀ x ∈ (xs.dropWhile p).head?, ¬ p x := by
  intro x hx
  have hnot := List.head?_dropWhile_not p xs
  rw [Option.mem_def.mp hx] at hnot
  simpa using hnot

theorem not_getLast?_rdropWhile (p : α → Bool) (xs : List α) :
    ∀ x ∈ (xs.rdropWhile p).getLast?, ¬ p x := by
  rw [List.rdropWhile, List.getLast?_reverse]
  exact not_head?_dropWhile p xs.reverse

/-- Taking off elements at the end changes nothing at the start, unless nothing is left. -/
theorem head?_rdropWhile (p : α → Bool) (xs : List α) : ∀ x ∈ (xs.rdropWhile p).head?, x ∈ xs.head? := by
  intro x hx
  obtain ⟨rest, hrest⟩ := List.rdropWhile_prefix p xs
  rw [← hrest, List.head?_append, Option.mem_def.mp hx]
  rfl

theorem getLast?_dropWhile (p : α → Bool) (xs : List α) :
    ∀ x ∈ (xs.dropWhile p).getLast?, x ∈ xs.getLast? := by
  intro x hx
  rw [← List.takeWhile_append_dropWhile (p := p) (l := xs), List.getLast?_append, Option.mem_def.mp hx]
  rfl

theorem Stripped.rdropWhile (h : ∀ x ∈ xs.head?, ¬ p x) : Stripped p (xs.rdropWhile p) where
  first := fun x hx => h x (head?_rdropWhile p xs x hx)
  last := not_getLast?_rdropWhile p xs

theorem Stripped.dropWhile (h : ∀ x ∈ xs.getLast?, ¬ p x) : Stripped p (xs.dropWhile p) where
  first := not_head?_dropWhile p xs
  last := fun x hx => h x (getLast?_dropWhile p xs x hx)

theorem stripped_strip (p : α → Bool) (xs : List α) : Stripped p (strip p xs) :=
  .rdropWhile (not_head?_dropWhile p xs)

theorem Stripped.dropWhile_eq (h : Stripped p xs) : xs.dropWhile p = xs := by
  cases xs with
  | nil => rfl
  | cons x xs => exact List.dropWhile_cons_of_neg (h.first x rfl)

theorem Stripped.rdropWhile_eq (h : Stripped p xs) : xs.rdropWhile p = xs := by
  cases hlast : xs.getLast? with
  | none =>
    rw [List.getLast?_eq_none_iff.mp hlast]
    rfl
  | some x =>
    obtain ⟨front, rfl⟩ := List.getLast?_eq_some_iff.mp hlast
    exact List.rdropWhile_concat_neg p front x (h.last x hlast)

theorem Stripped.strip_eq (h : Stripped p xs) : strip p xs = xs := by
  rw [strip, h.dropWhile_eq, h.rdropWhile_eq]

theorem strip_of_forall (h : ∀ x ∈ xs, p x) : strip p xs = [] := by
  rw [strip, List.dropWhile_eq_nil_iff.mpr h, List.rdropWhile_nil]

theorem strip_append_left (h : ∀ x ∈ before, p x) (xs : List α) : strip p (before ++ xs) = strip p xs := by
  rw [strip, List.dropWhile_append_of_pos h, strip]

theorem rdropWhile_append_right (xs : List α) (h : ∀ x ∈ after, p x) :
    (xs ++ after).rdropWhile p = xs.rdropWhile p := by
  rw [List.rdropWhile, List.reverse_append, List.dropWhile_append_of_pos, List.rdropWhile]
  exact fun x hx => h x (List.mem_reverse.mp hx)

theorem strip_append_right (xs : List α) (h : ∀ x ∈ after, p x) : strip p (xs ++ after) = strip p xs := by
  rw [strip, strip, List.dropWhile_append]
  split
  · next hnil =>
    rw [List.isEmpty_iff.mp hnil, List.dropWhile_eq_nil_iff.mpr h]
  · exact rdropWhile_append_right _ h

theorem rdropWhile_cons (p : α → Bool) (x : α) (xs : List α) : (x :: xs).rdropWhile p =
    if (xs.rdropWhile p).isEmpty && p x then [] else x :: xs.rdropWhile p := by
  rw [List.rdropWhile, List.reverse_cons, List.dropWhile_append, List.rdropWhile, List.isEmpty_reverse]
  cases hempty : (xs.reverse.dropWhile p).isEmpty with
  | false => simp
  | true =>
    rw [List.isEmpty_iff.mp hempty]
    cases hx : p x <;> simp [hx]

theorem rdropWhile_cons_of_neg {x : α} (hx : ¬ p x) (xs : List α) :
    (x :: xs).rdropWhile p = x :: xs.rdropWhile p := by
  rw [rdropWhile_cons, if_neg]
  simp [hx]

/-- The ends can be stripped in either order. -/
theorem dropWhile_rdropWhile (p : α → Bool) (xs : List α) : (xs.rdropWhile p).dropWhile p = strip p xs := by
  induction xs with
  | nil => rfl
  | cons x xs ih =>
    by_cases hx : p x
    · have hstrip : strip p (x :: xs) = strip p xs := by rw [strip, List.dropWhile_cons_of_pos hx, strip]
      rw [hstrip, ← ih, rdropWhile_cons]
      split
      · next h =>
        rw [Bool.and_eq_true] at h
        rw [List.isEmpty_iff.mp h.1]
      · exact List.dropWhile_cons_of_pos hx
    · rw [rdropWhile_cons_of_neg hx, List.dropWhile_cons_of_neg hx, strip, List.dropWhile_cons_of_neg hx,
        rdropWhile_cons_of_neg hx]

theorem strip_isInfix (p : α → Bool) (xs : List α) : strip p xs <:+: xs :=
  (List.rdropWhile_prefix p _).isInfix.trans (List.dropWhile_suffix p).isInfix

/-- A list is what stripping leaves, with elements of the class around it. -/
theorem exists_strip (p : α → Bool) (xs : List α) : ∃ before after, xs = before ++ (strip p xs ++ after) ∧
    (∀ x ∈ before, p x) ∧ ∀ x ∈ after, p x := by
  refine ⟨xs.takeWhile p, (xs.dropWhile p).rtakeWhile p, ?_, List.all_eq_true.mp List.all_takeWhile, ?_⟩
  · rw [strip, List.rdropWhile_append_rtakeWhile, List.takeWhile_append_dropWhile]
  · exact fun x hx => List.mem_rtakeWhile_imp hx

theorem count_dropWhile [DecidableEq α] {x : α} (hx : ¬ p x) (xs : List α) :
    (xs.dropWhile p).count x = xs.count x := by
  have htaken : (xs.takeWhile p).count x = 0 :=
    List.count_eq_zero.mpr fun hmem => hx (List.all_eq_true.mp List.all_takeWhile x hmem)
  conv_rhs => rw [← List.takeWhile_append_dropWhile (p := p) (l := xs)]
  rw [List.count_append, htaken, Nat.zero_add]

theorem count_strip [DecidableEq α] {x : α} (hx : ¬ p x) (xs : List α) : (strip p xs).count x = xs.count x := by
  rw [strip, List.rdropWhile, List.count_reverse, count_dropWhile hx, List.count_reverse, count_dropWhile hx]

theorem dropWhile_congr {q : α → Bool} (h : ∀ x ∈ xs, p x = q x) : xs.dropWhile p = xs.dropWhile q := by
  induction xs with
  | nil => rfl
  | cons x xs ih =>
    rw [List.forall_mem_cons] at h
    rw [List.dropWhile_cons, List.dropWhile_cons, h.1, ih h.2]

theorem strip_congr {q : α → Bool} (h : ∀ x ∈ xs, p x = q x) : strip p xs = strip q xs := by
  have hrest : ∀ x ∈ (xs.dropWhile q).reverse, p x = q x := fun x hx =>
    h x ((List.dropWhile_suffix q).subset (List.mem_reverse.mp hx))
  rw [strip, strip, dropWhile_congr h, List.rdropWhile, List.rdropWhile, dropWhile_congr hrest]

/-- A function that takes one class into another can come before stripping or after it. -/
theorem strip_map {β : Type} {f : α → β} {q : β → Bool} (h : ∀ x ∈ xs, q (f x) = p x) :
    strip q (xs.map f) = (strip p xs).map f := by
  have hclass : ∀ x ∈ xs, (q ∘ f) x = p x := h
  rw [← strip_congr hclass, strip, List.dropWhile_map, List.rdropWhile, ← List.map_reverse,
    List.dropWhile_map, ← List.map_reverse, strip, List.rdropWhile]

end Strip

/-- White space stands at neither end. -/
abbrev Trimmed (cs : List Char) : Prop := Stripped isBlank cs

theorem trim_eq_strip (cs : List Char) : trim cs = strip isBlank cs := rfl

theorem trimmed_trim (cs : List Char) : Trimmed (trim cs) := stripped_strip isBlank cs

theorem isBlank_space : ∀ c ∈ [' '], isBlank c := List.all_eq_true.mp rfl

end PlsqlNav.Text
