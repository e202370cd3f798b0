import PlsqlNav.Proofs.Token.Excerpt

/-! Words in a text. A word starts with a letter or an underscore and takes up all that goes on it. -/
namespace PlsqlNav

/-- A text is cut in one way at a position. -/
theorem Text.append_inj_of_byteLength {front back front' back' : List Char}
    (h : front ++ back = front' ++ back') (hlen : byteLength front = byteLength front') :
    front = front' ∧ back = back' := by
  have hfront : front = front' := by
    rw [← takeBytes_append front back, h, hlen, takeBytes_append]
  exact ⟨hfront, List.append_cancel_left (hfront ▸ h)⟩

namespace Lexeme

theorem word_of_read {c : Char} {cs : List Char} {n : Nat} (h : read c cs = (.token .word, n)) :
    startsWord c ∧ n = (cs.takeWhile continuesWord).length := by
  rw [read_eq] at h
  cases hfound : recognise c cs with
  | none =>
    rw [hfound] at h
    cases h
  | some found =>
    rw [hfound, Option.getD_some] at h
    subst h
    simp only [recognise, Option.orElse_eq_some, Option.map_eq_some_iff, Prod.mk.injEq] at hfound
    obtain ⟨_, -, hkind, -⟩ | ⟨-, ⟨_, -, hkind, -⟩ | ⟨-, ⟨_, -, hkind, -⟩ | ⟨-, ⟨_, -, hkind, -⟩ |
      ⟨-, ⟨_, -, hkind, -⟩ | ⟨-, ⟨_, -, hkind, -⟩ | ⟨-, ⟨_, hn, -, rfl⟩ | ⟨-, _, -, hkind, -⟩⟩⟩⟩⟩⟩⟩ :=
      hfound
    all_goals try contradiction
    rw [word] at hn
    split at hn
    · next hstart =>
      cases hn
      exact ⟨hstart, rfl⟩
    · contradiction

end Lexeme

namespace Token

/-- The word `t` stands in the text between `front` and `back`, and nothing in `back` goes on it. -/
structure WordStands (text : List Char) (t : Token) (front back : List Char) : Prop where
  split : text = front ++ (t.text.toList ++ back)
  start : t.start = Text.byteLength front
  starts : ∃ c cs, t.text.toList = c :: cs ∧ Lexeme.startsWord c ∧ ∀ d ∈ cs, Lexeme.continuesWord d
  whole : ∀ d ∈ back.head?, ¬ Lexeme.continuesWord d

/-- The lexeme of the token that starts where its text does. -/
theorem read_of_scan {t : Token} {ts : List Token} {doc : Option Comment} {text : List Char}
    (h : scan t.start doc text = t :: ts) : ∃ c cs n, text = c :: cs ∧
      Lexeme.read c cs = (.token t.kind, n) ∧ t.text.toList = c :: cs.take n := by
  have hfirst : t ∈ scan t.start doc text := by
    rw [h]
    exact List.mem_cons_self
  have hearly {pos : Nat} {doc : Option Comment} {cs : List Char} (hpos : t.start < pos) :
      t ∉ scan pos doc cs := fun ht => absurd (le_start_of_mem_scan ht) (Nat.not_le.mpr hpos)
  cases text with
  | nil =>
    rw [scan] at h
    contradiction
  | cons c cs =>
    by_cases hc : Text.isBlank c
    · rw [scan_blank hc] at hfirst
      exact absurd hfirst (hearly (Nat.lt_add_of_pos_right c.utf8Size_pos))
    obtain ⟨⟨kind, n⟩, hread⟩ : ∃ found, Lexeme.read c cs = found := ⟨_, rfl⟩
    have hlexeme : t.start < t.start + Text.byteLength (c :: cs.take n) :=
      Nat.lt_add_of_pos_right (Text.byteLength_pos (List.cons_ne_nil _ _))
    cases kind with
    | documentation =>
      rw [scan_documentation hc hread] at hfirst
      exact absurd hfirst (hearly hlexeme)
    | comment =>
      rw [scan_comment hc hread] at hfirst
      exact absurd hfirst (hearly hlexeme)
    | token kind =>
      rw [scan_token hc hread, List.cons.injEq] at h
      refine ⟨c, cs, n, rfl, ?_, ?_⟩
      · rw [hread, ← h.1]
      · rw [← h.1, String.toList_ofList]

theorem exists_wordStands {text : String} {t : Token} {ts : List Token} (h : t :: ts <:+ ofText text)
    (hkind : t.kind = .word) : ∃ front back, WordStands text.toList t front back := by
  obtain ⟨front, rest, htext, hstart, hscan⟩ := scan_from h
  rw [Nat.zero_add] at hstart
  obtain ⟨c, cs, n, rfl, hread, hlexeme⟩ := read_of_scan (hscan t.doc)
  rw [hkind] at hread
  obtain ⟨hstarts, rfl⟩ := Lexeme.word_of_read hread
  have hrun := List.takeWhile_append_dropWhile (p := Lexeme.continuesWord) (l := cs)
  have htake := List.prefix_iff_eq_take.mp (List.takeWhile_prefix Lexeme.continuesWord (l := cs))
  rw [← htake] at hlexeme
  refine ⟨front, cs.dropWhile Lexeme.continuesWord, ?_, hstart, ⟨c, _, hlexeme, hstarts, ?_⟩, ?_⟩
  · rw [htext, hlexeme, List.cons_append, hrun]
  · exact fun d hd => List.all_eq_true.mp List.all_takeWhile d hd
  · intro d hd
    have hnot := List.head?_dropWhile_not Lexeme.continuesWord cs
    rw [Option.mem_def.mp hd] at hnot
    simpa using hnot

end Token

end PlsqlNav
