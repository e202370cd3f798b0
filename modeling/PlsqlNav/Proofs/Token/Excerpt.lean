import PlsqlNav.Proofs.Token.Locality
import PlsqlNav.Proofs.Token.Placement

/-! A part of a text read by itself. A text cut off where a token starts has the tokens before that one,
a text entered where a token starts has the tokens from that one on, and white space at the end of a
text adds none. -/
namespace PlsqlNav.Token

variable {pos : Nat} {doc : Option Comment} {c : Char} {cs : List Char} {t : Token}

theorem scan_blanks (h : ∀ d ∈ cs, Text.isBlank d) : scan pos doc cs = [] := by
  induction cs generalizing pos with
  | nil => rw [scan]
  | cons c cs ih =>
    rw [List.forall_mem_cons] at h
    rw [scan_blank h.1, ih h.2]

theorem scan_append_blanks {blanks : List Char} (h : ∀ d ∈ blanks, Text.isBlank d) :
    ∀ (pos : Nat) (doc : Option Comment) (cs : List Char),
      scan pos doc (cs ++ blanks) = scan pos doc cs
  | pos, doc, [] => by rw [List.nil_append, scan_blanks h, scan]
  | pos, doc, c :: cs => by
    have ih (pos : Nat) (doc : Option Comment) (n : Nat) :
        scan pos doc (cs.drop n ++ blanks) = scan pos doc (cs.drop n) :=
      scan_append_blanks h pos doc (cs.drop n)
    rw [List.cons_append]
    by_cases hc : Text.isBlank c
    · rw [scan_blank hc, scan_blank hc]
      exact ih _ _ 0
    obtain ⟨⟨kind, n⟩, hwhole⟩ : ∃ found, Lexeme.read c (cs ++ blanks) = found := ⟨_, rfl⟩
    obtain ⟨hn, hread⟩ | ⟨hn, rfl, hread⟩ := Lexeme.read_of_append_blanks hc h hwhole
    · have htake : (cs ++ blanks).take n = cs.take n := List.take_append_of_le_length hn
      have hdrop : (cs ++ blanks).drop n = cs.drop n ++ blanks := List.drop_append_of_le_length hn
      cases kind with
      | documentation =>
        rw [scan_documentation hc hwhole, scan_documentation hc hread, htake, hdrop, ih]
      | comment => rw [scan_comment hc hwhole, scan_comment hc hread, htake, hdrop, ih]
      | token kind => rw [scan_token hc hwhole, scan_token hc hread, htake, hdrop, ih]
    · -- A line comment takes up the white space behind it, all or part.
      rw [scan_comment hc hwhole, scan_comment hc hread, List.drop_length, scan, scan_blanks]
      intro d hd
      rw [List.drop_append, List.drop_eq_nil_of_le (Nat.le_of_lt hn)] at hd
      exact h d (List.mem_of_mem_drop hd)
termination_by _ _ cs => cs.length
decreasing_by
  rw [List.length_cons, List.length_drop]
  omega

theorem le_start_of_mem_scan (ht : t ∈ scan pos doc cs) : pos ≤ t.start := by
  obtain ⟨_, _, _, hstart⟩ := scan_spelled pos doc cs t ht
  exact hstart ▸ Nat.le_add_right _ _

/-- The first lexeme is a token, or comes before all tokens. -/
theorem lexeme_le_start {kind : Lexeme.Class} {n : Nat} (hc : ¬ Text.isBlank c)
    (hread : Lexeme.read c cs = (kind, n)) (ht : t ∈ scan pos doc (c :: cs)) :
    t.start = pos ∨ pos + Text.byteLength (c :: cs.take n) ≤ t.start := by
  cases kind with
  | documentation =>
    rw [scan_documentation hc hread] at ht
    exact .inr (le_start_of_mem_scan ht)
  | comment =>
    rw [scan_comment hc hread] at ht
    exact .inr (le_start_of_mem_scan ht)
  | token kind =>
    rw [scan_token hc hread] at ht
    rcases List.mem_cons.mp ht with rfl | ht
    · exact .inl rfl
    · exact .inr (le_start_of_mem_scan ht)

theorem Laid.eq_nil_of_start_le {lo hi : Nat} {before after : List Token}
    (h : Laid lo hi (before ++ t :: after)) (ht : t.start ≤ lo) : before = [] := by
  cases before with
  | nil => rfl
  | cons u before =>
    have hu := h.1
    have hstop := h.2.1
    have hlater := (h.2.2.suffix (List.suffix_append before (t :: after))).1
    omega

/-- A part of `region ++ back` that is no longer than `region` ends in it. -/
theorem le_length_of_byteLength_take {region back : List Char} {n : Nat} (hback : back ≠ [])
    (h : Text.byteLength ((region ++ back).take n) ≤ Text.byteLength region) : n ≤ region.length := by
  by_contra hn
  have hpos : 0 < n - region.length := Nat.sub_pos_of_lt (Nat.not_le.mp hn)
  have htake : back.take (n - region.length) ≠ [] := by
    rw [Ne, List.take_eq_nil_iff]
    exact not_or.mpr ⟨Nat.ne_zero_of_lt hpos, hback⟩
  have hlen := Text.byteLength_pos htake
  rw [List.take_append, List.take_of_length_le (Nat.le_of_not_le hn), Text.byteLength_append] at h
  omega

theorem start_lt_of_mem_scan (ht : t ∈ scan pos doc cs) : t.start < pos + Text.byteLength cs := by
  obtain ⟨before, after, h⟩ := List.append_of_mem ht
  have hlaid := scan_laid pos doc cs
  rw [h] at hlaid
  obtain ⟨-, hstart, hafter⟩ := hlaid.suffix (List.suffix_append before (t :: after))
  exact Nat.lt_of_lt_of_le hstart hafter.le

/-- A lexeme does not go beyond the place where a later token starts. -/
theorem length_le_of_mem_scan {region back : List Char} {kind : Lexeme.Class} {n : Nat}
    (hc : ¬ Text.isBlank c) (hread : Lexeme.read c (region ++ back) = (kind, n))
    (hmem : t ∈ scan pos doc (c :: (region ++ back)))
    (ht : t.start = pos + Text.byteLength (c :: region)) : n ≤ region.length := by
  have hlate := Text.byteLength_pos (List.cons_ne_nil c region)
  have hback : back ≠ [] := by
    rintro rfl
    have hlt := start_lt_of_mem_scan hmem
    rw [List.append_nil, ht] at hlt
    exact Nat.lt_irrefl _ hlt
  refine le_length_of_byteLength_take hback ?_
  rcases lexeme_le_start hc hread hmem with hstart | hle
  · omega
  · rw [ht, Text.byteLength, Text.byteLength] at hle
    omega

/-- The tokens before one that starts where `region` ends are those of `region`. -/
theorem scan_region {back : List Char} {before after : List Token} :
    ∀ {pos : Nat} {doc : Option Comment} {region : List Char},
      scan pos doc (region ++ back) = before ++ t :: after →
        t.start = pos + Text.byteLength region → scan pos doc region = before
  | pos, doc, [], h, ht => by
    have hlaid := scan_laid pos doc ([] ++ back)
    rw [h] at hlaid
    rw [hlaid.eq_nil_of_start_le (Nat.le_of_eq ht), scan]
  | pos, doc, c :: region, h, ht => by
    have hmem : t ∈ scan pos doc (c :: (region ++ back)) := by
      rw [← List.cons_append, h]
      exact List.mem_append_right before List.mem_cons_self
    rw [List.cons_append] at h
    by_cases hc : Text.isBlank c
    · rw [scan_blank hc] at h ⊢
      refine scan_region h ?_
      rw [ht, Text.byteLength, Nat.add_assoc]
    obtain ⟨⟨kind, n⟩, hwhole⟩ : ∃ found, Lexeme.read c (region ++ back) = found := ⟨_, rfl⟩
    have hn := length_le_of_mem_scan hc hwhole hmem ht
    have hread := Lexeme.read_of_append hwhole hn
    have htake : (region ++ back).take n = region.take n := List.take_append_of_le_length hn
    have hdrop : (region ++ back).drop n = region.drop n ++ back := List.drop_append_of_le_length hn
    have hrest : t.start = pos + Text.byteLength (c :: region.take n) +
        Text.byteLength (region.drop n) := by
      rw [ht, Nat.add_assoc, byteLength_lexeme]
    cases kind with
    | documentation =>
      rw [scan_documentation hc hwhole, htake, hdrop] at h
      rw [scan_documentation hc hread, scan_region h hrest]
    | comment =>
      rw [scan_comment hc hwhole, htake, hdrop] at h
      rw [scan_comment hc hread, scan_region h hrest]
    | token kind =>
      rw [scan_token hc hwhole, htake, hdrop] at h
      rw [scan_token hc hread]
      cases before with
      | nil =>
        cases h
        have hpos := Text.byteLength_pos (List.cons_ne_nil c region)
        exact absurd ht (Nat.ne_of_lt (Nat.lt_add_of_pos_right hpos))
      | cons u before =>
        rw [List.cons_append, List.cons.injEq] at h
        rw [h.1, scan_region h.2 hrest]
termination_by _ _ region => region.length
decreasing_by
  all_goals
    simp only [List.length_cons, List.length_drop]
    omega

/-- A text read from a token on, whatever documentation comes before it. -/
theorem scan_from {after : List Token} (h : t :: after <:+ scan pos doc cs) :
    ∃ front back, cs = front ++ back ∧ t.start = pos + Text.byteLength front ∧
      ∀ doc, scan t.start doc back = { t with doc } :: after := by
  have later {c : Char} {cs : List Char} {n : Nat} {pos : Nat}
      (h : ∃ front back, cs.drop n = front ++ back ∧
        t.start = pos + Text.byteLength (c :: cs.take n) + Text.byteLength front ∧
          ∀ doc, scan t.start doc back = { t with doc } :: after) :
      ∃ front back, c :: cs = front ++ back ∧ t.start = pos + Text.byteLength front ∧
        ∀ doc, scan t.start doc back = { t with doc } :: after := by
    obtain ⟨front, back, hcs, hstart, hback⟩ := h
    refine ⟨c :: cs.take n ++ front, back, ?_, ?_, hback⟩
    · rw [List.append_assoc, ← hcs, List.cons_append, List.take_append_drop]
    · rw [hstart, Text.byteLength_append, Nat.add_assoc]
  fun_induction scan pos doc cs with
  | case1 => exact absurd (List.suffix_nil.mp h) (List.cons_ne_nil _ _)
  | case2 pos doc c cs hblank ih => exact later (n := 0) (ih h)
  | case3 pos doc c cs hblank n lexeme next hread ih
  | case4 pos doc c cs hblank n lexeme next hread ih => exact later (ih h)
  | case5 pos doc c cs hblank n lexeme next kind hread ih =>
    rcases List.suffix_cons_iff.mp h with h | h
    · cases h
      refine ⟨[], c :: cs, rfl, rfl, fun doc => ?_⟩
      rw [scan_token hblank hread]
    · exact later (ih h)

end PlsqlNav.Token
