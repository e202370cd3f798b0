import PlsqlNav.Proofs.Text.Lines
import PlsqlNav.Proofs.Token.Excerpt
import PlsqlNav.Proofs.Token.Recogniser

/-! Tokens and lines. Of all tokens only a string can go over several lines, and what is written from one
token to another has no newline just where these tokens stand on one line. -/
namespace PlsqlNav

/-- A part of a text has no newline where one line of the text has the whole part. -/
theorem Text.not_mem_newline_iff {text front region back : List Char}
    (h : text = front ++ (region ++ back)) : '\n' ∉ region ↔ ∃ before line after,
      IsLine text before line after ∧ byteLength before ≤ byteLength front ∧
        byteLength (front ++ region) ≤ byteLength (before ++ line) := by
  constructor
  · intro hregion
    obtain ⟨before, left, right, after, rfl, hright, hline⟩ := IsLine.of_append front (region ++ back)
    rw [← h] at hline
    refine ⟨before, left ++ right, after, hline, ?_, ?_⟩
    · rw [byteLength_append]
      exact Nat.le_add_right _ _
    -- The line would end within the part only at a newline.
    · obtain ⟨more, rfl, -⟩ | ⟨more, hmore, hafter⟩ := List.append_eq_append_iff.mp hright
      · simp only [byteLength_append]
        omega
      · cases more with
        | nil =>
          refine Nat.le_of_eq ?_
          rw [hmore, List.append_nil, List.append_assoc]
        | cons c more =>
          have hc := hline.closes c (by rw [hafter]; rfl)
          rw [hmore, hc] at hregion
          exact absurd (List.mem_append_right right List.mem_cons_self) hregion
  · rintro ⟨before, line, after, hline, hle, hge⟩ hmem
    have hbefore : before <+: text := ⟨line ++ after, hline.split.symm⟩
    have hwhole : before ++ line <+: text := ⟨after, by rw [hline.split, List.append_assoc]⟩
    have hfront : front <+: text := ⟨region ++ back, h.symm⟩
    have hthrough : front ++ region <+: text := ⟨back, by rw [h, List.append_assoc]⟩
    obtain ⟨left, rfl⟩ := prefix_of_byteLength_le hbefore hfront hle
    obtain ⟨right, hright⟩ := prefix_of_byteLength_le hthrough hwhole hge
    rw [List.append_assoc, List.append_assoc, List.append_cancel_left_eq] at hright
    refine hline.oneLine ?_
    rw [← hright]
    exact List.mem_append_right left (List.mem_append_left right hmem)

namespace Lexeme
variable {c : Char} {cs : List Char}

theorem not_mem_newline_run {p : Char → Bool} (hp : ¬ p '\n') (cs : List Char) :
    '\n' ∉ cs.take (cs.takeWhile p).length := by
  rw [← List.prefix_iff_eq_take.mp (List.takeWhile_prefix p)]
  exact fun hmem => hp (List.all_eq_true.mp List.all_takeWhile _ hmem)

theorem not_mem_newline_quotedName {n : Nat} (h : quotedName c cs = some n) : '\n' ∉ cs.take n := by
  rw [quotedName_eq] at h
  split at h
  · next hclose =>
    cases h
    rw [List.take_add_one, hclose.2, List.mem_append, not_or]
    exact ⟨not_mem_newline_run (by decide) cs, by decide⟩
  · contradiction

theorem not_mem_newline_fraction (cs : List Char) : '\n' ∉ cs.take (fraction cs) := by
  unfold fraction
  split
  · next rest =>
    dsimp only
    split
    · exact List.not_mem_nil
    · rw [List.take_succ_cons, List.mem_cons, not_or]
      exact ⟨by decide, not_mem_newline_run (by decide) rest⟩
  · exact List.not_mem_nil

/-- Names, numbers and marks stay on one line. -/
theorem not_mem_newline_of_read {kind : Token.Kind} {n : Nat} (hc : c ≠ '\n')
    (h : read c cs = (.token kind, n)) (hkind : kind ≠ .string) : '\n' ∉ c :: cs.take n := by
  refine List.not_mem_cons_of_ne_of_not_mem hc.symm ?_
  rw [read_eq] at h
  cases hfound : recognise c cs with
  | none =>
    rw [hfound] at h
    cases h
    exact List.not_mem_nil
  | some found =>
    rw [hfound, Option.getD_some] at h
    subst h
    simp only [recognise, Option.orElse_eq_some, Option.map_eq_some_iff, Prod.mk.injEq,
      Class.token.injEq] at hfound
    obtain ⟨_, -, hfirst, -⟩ | ⟨-, ⟨_, -, hfirst, -⟩ | ⟨-, ⟨_, -, hfirst, -⟩ | ⟨-, ⟨_, -, hstring, -⟩ |
      ⟨-, ⟨_, -, hstring, -⟩ | ⟨-, ⟨_, hn, -, rfl⟩ | ⟨-, ⟨_, hn, -, rfl⟩ | ⟨-, _, hn, -, rfl⟩⟩⟩⟩⟩⟩⟩ :=
      hfound
    · contradiction
    · contradiction
    · contradiction
    · exact absurd hstring.symm hkind
    · exact absurd hstring.symm hkind
    · exact not_mem_newline_quotedName hn
    · rw [word] at hn
      split at hn
      · cases hn
        exact not_mem_newline_run (by decide) cs
      · contradiction
    · rw [number_eq] at hn
      split at hn
      · cases hn
        rw [List.take_add, List.mem_append, not_or]
        exact ⟨not_mem_newline_run (by decide) cs, not_mem_newline_fraction _⟩
      · contradiction

end Lexeme

namespace Token
variable {t first last : Token} {ts us : List Token} {text : String}

/-- A token is a lexeme that is read somewhere in the text. -/
theorem exists_read_of_mem_scan {pos : Nat} {doc : Option Comment} {cs : List Char}
    (h : t ∈ scan pos doc cs) : ∃ c cs n, ¬ Text.isBlank c ∧ Lexeme.read c cs = (.token t.kind, n) ∧
      t.text.toList = c :: cs.take n := by
  fun_induction scan pos doc cs with
  | case1 => contradiction
  | case2 _ _ _ _ _ ih => exact ih h
  | case3 _ _ _ _ _ _ _ _ _ ih | case4 _ _ _ _ _ _ _ _ _ ih => exact ih h
  | case5 pos doc c cs hblank n lexeme next kind hread ih =>
    rcases List.mem_cons.mp h with rfl | h
    · exact ⟨c, cs, n, hblank, hread, String.toList_ofList⟩
    · exact ih h

theorem not_mem_newline_text (h : t ∈ ofText text) (hkind : t.kind ≠ .string) :
    '\n' ∉ t.text.toList := by
  obtain ⟨c, cs, n, hblank, hread, htext⟩ := exists_read_of_mem_scan h
  rw [htext]
  refine Lexeme.not_mem_newline_of_read ?_ hread hkind
  rintro rfl
  exact hblank (by decide)

/-- The name of a token goes over lines where the token is a string that does. -/
theorem not_mem_newline_name (h : t ∈ ofText text) :
    '\n' ∉ t.name.toList ↔ (t.kind = .string → '\n' ∉ t.text.toList) := by
  by_cases hkind : t.kind = .string
  · rw [name, if_neg (by rw [hkind]; decide)]
    exact ⟨fun hname _ => hname, fun htext => htext hkind⟩
  · have htext := not_mem_newline_text h hkind
    refine iff_of_true ?_ fun hstring => absurd hstring hkind
    rw [name]
    split
    · rw [String.toList_ofList]
      exact fun hmem => htext ((List.mem_filter.mp hmem).1)
    · exact htext

theorem Laid.between {lo hi : Nat} (h : Laid lo hi (ts ++ last :: us)) :
    ∀ t ∈ ts ++ [last], lo ≤ t.start ∧ t.stop ≤ last.stop := by
  induction ts generalizing lo with
  | nil =>
    intro t ht
    obtain rfl := List.mem_singleton.mp ht
    exact ⟨h.1, Nat.le_refl _⟩
  | cons u ts ih =>
    obtain ⟨hlo, hu, hrest⟩ := h
    intro t ht
    rcases List.mem_cons.mp ht with rfl | ht
    · exact ⟨hlo, Nat.le_of_lt hrest.after.1⟩
    · obtain ⟨hstart, hstop⟩ := ih hrest t ht
      exact ⟨Nat.le_trans hlo (Nat.le_trans (Nat.le_of_lt hu) hstart), hstop⟩

/-- What stands in the text from the first to the last of some tokens in a row. -/
theorem exists_region (h : first :: ts <:+: ofText text) (hlast : (first :: ts).getLast? = some last) :
    ∃ front region back, text.toList = front ++ (region ++ back) ∧
      Text.slice first.start last.stop text.toList = region ∧
        first.start = Text.byteLength front ∧ last.stop = Text.byteLength (front ++ region) ∧
          ∀ t ∈ first :: ts, first.start ≤ t.start ∧ t.stop ≤ last.stop := by
  obtain ⟨init, hinit⟩ := List.getLast?_eq_some_iff.mp hlast
  obtain ⟨before, after, htokens⟩ := h
  have hlaid := ofText_laid text
  rw [← htokens, List.append_assoc] at hlaid
  obtain ⟨-, hfirst, hrest⟩ := hlaid.suffix (List.suffix_append before (first :: ts ++ after))
  have hbetween : ∀ t ∈ first :: ts, first.start ≤ t.start ∧ t.stop ≤ last.stop := by
    have hrow : Laid first.start (Text.byteLength text.toList) (first :: ts ++ after) :=
      ⟨Nat.le_refl _, hfirst, hrest⟩
    rw [hinit, List.append_assoc] at hrow
    rw [hinit]
    exact hrow.between
  have hmem : ∀ t ∈ first :: ts, t ∈ ofText text := fun t ht => by
    rw [← htokens]
    exact List.mem_append_left after (List.mem_append_right before ht)
  obtain ⟨front, rest, htext, hstart⟩ :=
    scan_spelled 0 none text.toList first (hmem first List.mem_cons_self)
  obtain ⟨front', back, htext', hstart'⟩ :=
    scan_spelled 0 none text.toList last (hmem last (List.mem_of_getLast? hlast))
  rw [Nat.zero_add] at hstart hstart'
  have hstop : last.stop = Text.byteLength (front' ++ last.text.toList) := by
    rw [Text.byteLength_append, stop, hstart']
  have hle : Text.byteLength front ≤ Text.byteLength (front' ++ last.text.toList) := by
    rw [← hstart, ← hstop]
    exact Nat.le_trans (Nat.le_of_lt hfirst) (hbetween first List.mem_cons_self).2
  obtain ⟨region, hregion⟩ := Text.prefix_of_byteLength_le ⟨_, htext.symm⟩
    ⟨back, by rw [htext', List.append_assoc]⟩ hle
  have hsplit : text.toList = front ++ (region ++ back) := by
    rw [htext', ← List.append_assoc, ← hregion, List.append_assoc]
  rw [← hregion] at hstop
  refine ⟨front, region, back, hsplit, ?_, hstart, hstop, hbetween⟩
  rw [hsplit, hstart, hstop, Text.byteLength_append, Text.slice_append]

/-- One line of the text has all of the tokens. -/
def OnOneLine (text : List Char) (ts : List Token) : Prop :=
  ∃ before line after, Text.IsLine text before line after ∧
    ∀ t ∈ ts, Text.byteLength before ≤ t.start ∧ t.stop ≤ Text.byteLength (before ++ line)

theorem onOneLine_nil (text : List Char) : OnOneLine text [] := by
  obtain ⟨before, line, after, hline, -⟩ := Text.exists_isLine text (Nat.zero_le _)
  exact ⟨before, line, after, hline, fun t ht => absurd ht List.not_mem_nil⟩

end Token

end PlsqlNav
