import PlsqlNav.Token.Lexer

/-! Where tokens lie in their text: in order, apart from one another, each with at least one byte, and
each between whole characters. -/
namespace PlsqlNav

/-- A position that splits no character of the text. -/
def Text.IsBoundary (cs : List Char) (n : Nat) : Prop :=
  ∃ front back, cs = front ++ back ∧ Text.byteLength front = n

theorem Text.byteLength_pos {cs : List Char} (h : cs ≠ []) : 0 < byteLength cs := by
  cases cs with
  | nil => contradiction
  | cons c cs =>
    have := c.utf8Size_pos
    rw [byteLength]
    omega

/-- Of two front parts of a text, the one with fewer bytes is a front part of the other. -/
theorem Text.prefix_of_byteLength_le {text front front' : List Char} (h : front <+: text)
    (h' : front' <+: text) (hle : byteLength front ≤ byteLength front') : front <+: front' := by
  rcases List.prefix_or_prefix_of_prefix h h' with hfront | ⟨more, rfl⟩
  · exact hfront
  · cases more with
    | nil => exact ⟨[], by rw [List.append_nil, List.append_nil]⟩
    | cons c more =>
      have hpos := byteLength_pos (List.cons_ne_nil c more)
      rw [byteLength_append] at hle
      omega

theorem Text.IsBoundary.le {cs : List Char} {n : Nat} (h : IsBoundary cs n) :
    n ≤ byteLength cs := by
  obtain ⟨front, back, rfl, rfl⟩ := h
  rw [byteLength_append]
  omega

namespace Token

/-- The tokens lie in order between two positions. -/
def Laid : Nat → Nat → List Token → Prop
  | lo, hi, [] => lo ≤ hi
  | lo, hi, t :: ts => lo ≤ t.start ∧ t.start < t.stop ∧ Laid t.stop hi ts

section Laid
variable {lo lo' hi : Nat} {t : Token} {ts us : List Token}

theorem Laid.mono (h : Laid lo hi ts) (hl : lo' ≤ lo) : Laid lo' hi ts := by
  cases ts with
  | nil => exact Nat.le_trans hl h
  | cons t ts => exact ⟨Nat.le_trans hl h.1, h.2⟩

theorem Laid.le (h : Laid lo hi ts) : lo ≤ hi := by
  induction ts generalizing lo with
  | nil => exact h
  | cons t ts ih =>
    have := ih h.2.2
    have := h.1
    have := h.2.1
    omega

theorem Laid.tail (h : Laid lo hi (t :: ts)) : Laid lo hi ts := by
  apply h.2.2.mono
  have := h.1
  have := h.2.1
  omega

theorem Laid.suffix (h : Laid lo hi ts) (hs : us <:+ ts) : Laid lo hi us := by
  obtain ⟨front, rfl⟩ := hs
  induction front with
  | nil => exact h
  | cons t front ih => exact ih h.tail

theorem Laid.after {front : List Token} (h : Laid lo hi (front ++ t :: ts)) :
    lo < t.stop ∧ Laid t.stop hi ts := by
  have ht := h.suffix (List.suffix_append front (t :: ts))
  refine ⟨?_, ht.2.2⟩
  have := ht.1
  have := ht.2.1
  omega

end Laid

/-- A lexeme and the text after it take up the text from its first character on. -/
theorem byteLength_lexeme (c : Char) (cs : List Char) (n : Nat) :
    Text.byteLength (c :: cs.take n) + Text.byteLength (cs.drop n) = Text.byteLength (c :: cs) := by
  rw [← Text.byteLength_append, List.cons_append, List.take_append_drop]

theorem scan_laid (pos : Nat) (doc : Option Comment) (cs : List Char) :
    Laid pos (pos + Text.byteLength cs) (scan pos doc cs) := by
  fun_induction scan pos doc cs with
  | case1 pos => exact Nat.le_refl _
  | case2 pos doc c cs hblank ih =>
    rw [Text.byteLength, ← Nat.add_assoc]
    exact ih.mono (Nat.le_add_right _ _)
  | case3 pos doc c cs hblank n lexeme next hread ih
  | case4 pos doc c cs hblank n lexeme next hread ih =>
    rw [← byteLength_lexeme c cs n, ← Nat.add_assoc]
    exact ih.mono (Nat.le_add_right _ _)
  | case5 pos doc c cs hblank n lexeme next kind hread ih =>
    have hpos : 0 < Text.byteLength lexeme := Text.byteLength_pos (List.cons_ne_nil _ _)
    have hstop : pos + Text.byteLength (String.ofList lexeme).toList = next := by
      rw [String.toList_ofList]
    refine ⟨Nat.le_refl _, ?_, ?_⟩
    · show pos < pos + Text.byteLength (String.ofList lexeme).toList
      omega
    · show Laid (pos + Text.byteLength (String.ofList lexeme).toList) _ _
      rw [hstop, ← byteLength_lexeme c cs n, ← Nat.add_assoc]
      exact ih

/-- What stands in the text after a lexeme stands in the whole text. -/
theorem spelled_after (c : Char) (cs : List Char) (n : Nat) {pos start : Nat} {word : List Char}
    (h : ∃ front back, cs.drop n = front ++ (word ++ back) ∧
      start = pos + Text.byteLength (c :: cs.take n) + Text.byteLength front) :
    ∃ front back, c :: cs = front ++ (word ++ back) ∧ start = pos + Text.byteLength front := by
  obtain ⟨front, back, hcs, hstart⟩ := h
  refine ⟨c :: cs.take n ++ front, back, ?_, ?_⟩
  · rw [List.append_assoc, ← hcs, List.cons_append, List.take_append_drop]
  · rw [hstart, Text.byteLength_append, Nat.add_assoc]

/-- Each token stands in the text where it says. -/
theorem scan_spelled (pos : Nat) (doc : Option Comment) (cs : List Char) :
    ∀ t ∈ scan pos doc cs, ∃ front back,
      cs = front ++ (t.text.toList ++ back) ∧ t.start = pos + Text.byteLength front := by
  fun_induction scan pos doc cs with
  | case1 pos => simp
  | case2 pos doc c cs hblank ih =>
    intro t ht
    obtain ⟨front, back, hcs, hstart⟩ := ih t ht
    refine ⟨c :: front, back, by rw [hcs, List.cons_append], ?_⟩
    rw [hstart, Text.byteLength, Nat.add_assoc]
  | case3 pos doc c cs hblank n lexeme next hread ih
  | case4 pos doc c cs hblank n lexeme next hread ih =>
    intro t ht
    exact spelled_after c cs n (ih t ht)
  | case5 pos doc c cs hblank n lexeme next kind hread ih =>
    intro t ht
    rcases List.mem_cons.mp ht with rfl | ht
    · refine ⟨[], cs.drop n, ?_, rfl⟩
      rw [String.toList_ofList, List.nil_append, List.cons_append, List.take_append_drop]
    · exact spelled_after c cs n (ih t ht)

theorem ofText_laid (text : String) :
    Laid 0 (Text.byteLength text.toList) (ofText text) := by
  have h := scan_laid 0 none text.toList
  rwa [Nat.zero_add] at h

theorem ofText_boundary (text : String) :
    ∀ t ∈ ofText text, Text.IsBoundary text.toList t.start := by
  intro t ht
  obtain ⟨front, back, hcs, hstart⟩ := scan_spelled 0 none text.toList t ht
  exact ⟨front, t.text.toList ++ back, hcs, by rw [hstart, Nat.zero_add]⟩

end Token

end PlsqlNav
