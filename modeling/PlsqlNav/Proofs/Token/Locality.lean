import Mathlib.Data.Option.Basic
import PlsqlNav.Proofs.Token.Recogniser
import PlsqlNav.Text.Blank

/-! A lexeme is told from the text that it takes up: what comes behind it makes no difference. White
space at the end of a text belongs to no lexeme but a line comment. -/
namespace PlsqlNav.Lexeme

/-- What `f` finds in a text it finds as well in a part that goes far enough, and it finds nothing in a
part of a text in which it finds nothing. -/
structure Local {α : Type} (size : α → Nat) (f : List Char → Option α) : Prop where
  keeps : ∀ {cs back a}, f (cs ++ back) = some a → size a ≤ cs.length → f cs = some a
  lacks : ∀ {cs back}, f (cs ++ back) = none → f cs = none

section Local
variable {α β : Type} {size : α → Nat} {f g : List Char → Option α}

theorem Local.none : Local size fun _ => (none : Option α) where
  keeps h := by contradiction
  lacks _ := rfl

theorem Local.map {size' : β → Nat} (h : Local size f) (label : α → β)
    (hsize : ∀ a, size a ≤ size' (label a)) : Local size' fun cs => (f cs).map label where
  keeps hf hn := by
    obtain ⟨a, ha, rfl⟩ := Option.map_eq_some_iff.mp hf
    rw [h.keeps ha (Nat.le_trans (hsize a) hn), Option.map_some]
  lacks hf := by
    rw [Option.map_eq_none_iff] at hf ⊢
    exact h.lacks hf

theorem Local.ite {p : Prop} [Decidable p] (hf : Local size f) (hg : Local size g) :
    Local size fun cs => if p then f cs else g cs := by
  by_cases hp : p
  · simpa only [if_pos hp] using hf
  · simpa only [if_neg hp] using hg

/-- The first of two recognisers decides where both accept. -/
theorem Local.orElse (hf : Local size f) (hg : Local size g) :
    Local size fun cs => f cs <|> g cs where
  keeps {cs back a} h hn := by
    cases hfirst : f (cs ++ back) with
    | none =>
      rw [hfirst] at h
      rw [hf.lacks hfirst]
      exact hg.keeps h hn
    | some b =>
      rw [hfirst] at h
      cases h
      rw [hf.keeps hfirst hn]
      rfl
  lacks {cs back} h := by
    cases hfirst : f (cs ++ back) with
    | none =>
      rw [hfirst] at h
      rw [hf.lacks hfirst]
      exact hg.lacks h
    | some b =>
      rw [hfirst] at h
      contradiction

end Local

theorem after_local {f : List Char → Option Nat} (h : Local id f) (p : Char → Bool) :
    Local id (after p f) where
  keeps {cs back n} hf hn := by
    cases cs with
    | nil =>
      cases back with
      | nil => exact hf
      | cons c back =>
        rw [List.nil_append, after] at hf
        split at hf
        · obtain ⟨m, _, rfl⟩ := Option.map_eq_some_iff.mp hf
          contradiction
        · contradiction
    | cons c cs =>
      rw [List.cons_append, after] at hf
      rw [after]
      split at hf
      · next hc =>
        obtain ⟨m, hm, rfl⟩ := Option.map_eq_some_iff.mp hf
        rw [if_pos hc, h.keeps hm (Nat.le_of_succ_le_succ hn), Option.map_some]
      · contradiction
  lacks {cs back} hf := by
    cases cs with
    | nil => rfl
    | cons c cs =>
      rw [List.cons_append, after] at hf
      rw [after]
      split at hf
      · next hc =>
        rw [if_pos hc, Option.map_eq_none_iff]
        exact h.lacks (Option.map_eq_none_iff.mp hf)
      · next hc => rw [if_neg hc]

theorem through_pos {a b : Char} {cs : List Char} {n : Nat} (h : through a b cs = some n) : 0 < n := by
  cases cs with
  | nil => contradiction
  | cons c cs =>
    rw [through] at h
    split at h
    · cases h
      decide
    · obtain ⟨m, _, rfl⟩ := Option.map_eq_some_iff.mp h
      exact Nat.succ_pos m

theorem through_local (a b : Char) : Local id (through a b) where
  keeps {cs back n} h hn := by
    induction cs generalizing n with
    | nil => exact absurd (through_pos h) (Nat.not_lt.mpr hn)
    | cons c cs ih =>
      rw [List.cons_append, through] at h
      rw [through]
      split at h
      · next hclose =>
        cases h
        obtain ⟨d, rest, rfl⟩ := List.exists_cons_of_length_pos
          (Nat.lt_of_lt_of_le Nat.one_pos (Nat.le_of_succ_le_succ hn))
        exact if_pos hclose
      · next hopen =>
        obtain ⟨m, hm, rfl⟩ := Option.map_eq_some_iff.mp h
        rw [if_neg, ih hm (Nat.le_of_succ_le_succ hn), Option.map_some]
        rintro ⟨hc, hhead⟩
        apply hopen
        rw [List.head?_append, hhead]
        exact ⟨hc, rfl⟩
  lacks {cs back} h := by
    induction cs with
    | nil => rfl
    | cons c cs ih =>
      rw [List.cons_append, through] at h
      rw [through]
      split at h
      · contradiction
      · next hopen =>
        rw [if_neg, ih (Option.map_eq_none_iff.mp h), Option.map_none]
        rintro ⟨hc, hhead⟩
        apply hopen
        rw [List.head?_append, hhead]
        exact ⟨hc, rfl⟩

theorem takeWhile_of_length_le {p : Char → Bool} {cs back : List Char}
    (h : ((cs ++ back).takeWhile p).length ≤ cs.length) :
    (cs ++ back).takeWhile p = cs.takeWhile p := by
  rw [List.takeWhile_append] at h ⊢
  split
  · next hall =>
    rw [if_pos hall, List.length_append] at h
    have hnil : back.takeWhile p = [] := List.eq_nil_of_length_eq_zero (by omega)
    rw [hnil, List.append_nil]
    exact (List.takeWhile_sublist p).eq_of_length hall |>.symm
  · rfl

/-- A run of characters of one class. -/
theorem takeWhile_local (p : Char → Bool) : Local id fun cs => some (cs.takeWhile p).length where
  keeps h hn := by
    cases h
    rw [takeWhile_of_length_le hn]
  lacks h := by contradiction

theorem closing_pos {cs : List Char} {n : Nat} (h : closing cs = some n) : 0 < n := by
  cases cs with
  | nil => contradiction
  | cons c cs =>
    by_cases hc : c = '\''
    · subst hc
      by_cases hhead : cs.head? = some '\''
      · obtain ⟨cs, rfl⟩ := List.head?_eq_some_iff.mp hhead
        rw [closing_pair] at h
        cases h
        cases closing cs with
        | none => decide
        | some m => exact Nat.succ_pos _
      · rw [closing_quote hhead] at h
        cases h
        decide
    · rw [closing_other hc] at h
      obtain ⟨m, _, rfl⟩ := Option.map_eq_some_iff.mp h
      exact Nat.succ_pos m

theorem closing_lacks {cs back : List Char} (h : closing (cs ++ back) = none) : closing cs = none := by
  fun_induction closing cs with
  | case1 => rfl
  | case2 | case3 | case4 =>
    -- A quote closes, whatever comes behind it.
    have hsome := closing_quote_isSome
    grind
  | case5 c cs _ hc ih =>
    rw [List.cons_append, closing_other hc, Option.map_eq_none_iff] at h
    rw [ih h, Option.map_none]

theorem closing_local : Local id closing where
  keeps {cs back n} h hn := by
    fun_induction closing cs generalizing n with
    | case1 => exact absurd (closing_pos h) (Nat.not_lt.mpr hn)
    | case2 cs m hm ih =>
      rw [List.cons_append, List.cons_append, closing_pair] at h
      cases hback : closing (cs ++ back) with
      | none =>
        rw [closing_lacks hback] at hm
        contradiction
      | some k =>
        rw [hback] at h
        cases h
        have hk := ih hback (Nat.le_of_succ_le_succ (Nat.le_of_succ_le_succ hn))
        rw [hm] at hk
        cases hk
        rfl
    | case3 cs hm ih =>
      rw [List.cons_append, List.cons_append, closing_pair] at h
      cases hback : closing (cs ++ back) with
      | none =>
        rw [hback] at h
        exact h
      | some k =>
        rw [hback] at h
        cases h
        have hk := ih hback (Nat.le_of_succ_le_succ (Nat.le_of_succ_le_succ hn))
        rw [hm] at hk
        contradiction
    | case4 cs hquote =>
      cases cs with
      | nil =>
        have hone : n = 1 := Nat.le_antisymm hn (closing_pos h)
        rw [hone]
      | cons d cs =>
        rw [List.cons_append, closing_quote] at h
        · exact h
        · intro hd
          cases hd
          exact hquote cs rfl
    | case5 c cs _ hc ih =>
      rw [List.cons_append, closing_other hc] at h
      obtain ⟨m, hm, rfl⟩ := Option.map_eq_some_iff.mp h
      rw [ih hm (Nat.le_of_succ_le_succ hn), Option.map_some]
  lacks := closing_lacks

theorem bracketed_local : Local id bracketed where
  keeps {cs back n} h hn := by
    cases cs with
    | nil =>
      cases back with
      | nil => exact h
      | cons c back =>
        obtain ⟨b, _, hb⟩ := Option.bind_eq_some_iff.mp h
        obtain ⟨m, _, rfl⟩ := Option.map_eq_some_iff.mp hb
        contradiction
    | cons c cs =>
      obtain ⟨b, hc, hb⟩ := Option.bind_eq_some_iff.mp h
      obtain ⟨m, hm, rfl⟩ := Option.map_eq_some_iff.mp hb
      rw [bracketed, hc, Option.bind_some,
        (through_local b '\'').keeps hm (Nat.le_of_succ_le_succ hn), Option.map_some]
  lacks {cs back} h := by
    cases cs with
    | nil => rfl
    | cons c cs =>
      rw [List.cons_append, bracketed] at h
      rw [bracketed]
      cases hc : closer c with
      | none => rfl
      | some b =>
        rw [hc, Option.bind_some, Option.map_eq_none_iff] at h
        rw [Option.bind_some, (through_local b '\'').lacks h, Option.map_none]

theorem quotedName_local (c : Char) : Local id (quotedName c) where
  keeps {cs back n} h hn := by
    rw [quotedName_eq] at h ⊢
    split at h
    · next hclose =>
      cases h
      have hinner : inner (cs ++ back) = inner cs := takeWhile_of_length_le (Nat.le_of_succ_le hn)
      rw [hinner] at hclose hn ⊢
      rw [List.getElem?_append_left hn] at hclose
      exact if_pos hclose
    · contradiction
  lacks {cs back} h := by
    rw [quotedName_eq] at h ⊢
    split at h
    · contradiction
    · next hopen =>
      rw [if_neg]
      rintro ⟨hc, hclose⟩
      apply hopen
      have hlt := (List.getElem?_eq_some_iff.mp hclose).1
      have hinner : inner (cs ++ back) = inner cs := by
        unfold inner at hlt ⊢
        rw [List.takeWhile_append, if_neg (Nat.ne_of_lt hlt)]
      rw [hinner, List.getElem?_append_left hlt]
      exact ⟨hc, hclose⟩

theorem fraction_append {cs back : List Char} (h : fraction (cs ++ back) ≤ cs.length) :
    fraction (cs ++ back) = fraction cs := by
  cases cs with
  | nil => exact Nat.eq_zero_of_le_zero h
  | cons c cs =>
    by_cases hc : c = '.'
    · subst hc
      have hle : ((cs ++ back).takeWhile Char.isDigit).length ≤ cs.length := by
        rw [List.cons_append, fraction, List.length_cons] at h
        split at h
        · next hnone => exact hnone ▸ Nat.zero_le _
        · exact Nat.le_of_succ_le_succ h
      rw [List.cons_append, fraction, fraction, takeWhile_of_length_le hle]
    · rw [List.cons_append, fraction, fraction]
      · simp [hc]
      · simp [hc]

theorem digits_local : Local id fun cs =>
    some ((cs.takeWhile Char.isDigit).length + fraction (cs.drop (cs.takeWhile Char.isDigit).length)) where
  keeps {cs back n} h hn := by
    cases h
    have hrun : (cs ++ back).takeWhile Char.isDigit = cs.takeWhile Char.isDigit :=
      takeWhile_of_length_le (Nat.le_trans (Nat.le_add_right ..) hn)
    have hle : (cs.takeWhile Char.isDigit).length ≤ cs.length := (List.takeWhile_sublist _).length_le
    rw [id, hrun, List.drop_append_of_le_length hle] at hn
    rw [hrun, List.drop_append_of_le_length hle, fraction_append]
    rw [List.length_drop]
    exact Nat.le_sub_of_add_le' hn
  lacks h := by contradiction

section Recognisers
variable (c : Char)

theorem documentation_local : Local id (documentation c) := by
  rw [funext (documentation_eq c)]
  exact .ite (after_local (after_local (through_local _ _) _) _) .none

theorem blockComment_local : Local id (blockComment c) := by
  rw [funext (blockComment_eq c)]
  exact .ite (after_local (through_local _ _) _) .none

theorem lineComment_local : Local id (lineComment c) := by
  rw [funext (lineComment_eq c)]
  exact .ite (after_local (takeWhile_local _) _) .none

theorem bracketedString_local : Local id (bracketedString c) := by
  rw [funext (bracketedString_eq c)]
  exact .ite (after_local bracketed_local _) (.ite (after_local (after_local bracketed_local _) _) .none)

theorem plainString_local : Local id (plainString c) := by
  rw [funext (plainString_eq c)]
  exact .ite closing_local (.ite (after_local closing_local _) .none)

theorem word_local : Local id (word c) := .ite (takeWhile_local _) .none

theorem number_local : Local id (number c) := by
  rw [funext (number_eq c)]
  exact .ite digits_local .none

theorem recognise_local : Local (fun found => found.2) (recognise c) := by
  have label {f : List Char → Option Nat} (h : Local id f) (kind : Class) :
      Local (fun found : Class × Nat => found.2) fun cs => (f cs).map (kind, ·) :=
    h.map _ fun _ => Nat.le_refl _
  exact (label (documentation_local c) _).orElse <| (label (blockComment_local c) _).orElse <|
    (label (lineComment_local c) _).orElse <| (label (bracketedString_local c) _).orElse <|
    (label (plainString_local c) _).orElse <| (label (quotedName_local c) _).orElse <|
    (label (word_local c) _).orElse (label (number_local c) _)

end Recognisers

theorem read_of_append {c : Char} {cs back : List Char} {kind : Class} {n : Nat}
    (h : read c (cs ++ back) = (kind, n)) (hn : n ≤ cs.length) : read c cs = (kind, n) := by
  rw [read_eq] at h ⊢
  cases hfound : recognise c (cs ++ back) with
  | none =>
    rw [hfound] at h
    rw [(recognise_local c).lacks hfound]
    exact h
  | some found =>
    rw [hfound, Option.getD_some] at h
    subst h
    rw [(recognise_local c).keeps hfound hn, Option.getD_some]

/-- What `f` finds ends in a character that is no white space. -/
def Solid (f : List Char → Option Nat) : Prop :=
  ∀ cs n, f cs = some n → ∃ m d, n = m + 1 ∧ cs[m]? = some d ∧ ¬ Text.isBlank d

section Solid
variable {f g : List Char → Option Nat}

theorem Solid.none : Solid fun _ => none := fun _ _ h => by contradiction

theorem Solid.ite {p : Prop} [Decidable p] (hf : Solid f) (hg : Solid g) :
    Solid fun cs => if p then f cs else g cs := by
  by_cases hp : p
  · simpa only [if_pos hp] using hf
  · simpa only [if_neg hp] using hg

theorem after_solid (h : Solid f) (p : Char → Bool) : Solid (after p f) := by
  intro cs n hn
  cases cs with
  | nil => contradiction
  | cons c cs =>
    rw [after] at hn
    split at hn
    · obtain ⟨_, hm, rfl⟩ := Option.map_eq_some_iff.mp hn
      obtain ⟨m, d, rfl, hd, hsolid⟩ := h _ _ hm
      exact ⟨m + 1, d, rfl, hd, hsolid⟩
    · contradiction

theorem through_solid (a : Char) {b : Char} (hb : ¬ Text.isBlank b) : Solid (through a b) := by
  intro cs n hn
  induction cs generalizing n with
  | nil => contradiction
  | cons c cs ih =>
    rw [through] at hn
    split at hn
    · next hclose =>
      cases hn
      obtain ⟨cs, rfl⟩ := List.head?_eq_some_iff.mp hclose.2
      exact ⟨1, b, rfl, rfl, hb⟩
    · obtain ⟨_, hm, rfl⟩ := Option.map_eq_some_iff.mp hn
      obtain ⟨m, d, rfl, hd, hsolid⟩ := ih _ hm
      exact ⟨m + 1, d, rfl, hd, hsolid⟩

theorem closing_solid : Solid closing := by
  intro cs n hn
  have hquote : ¬ Text.isBlank '\'' := by decide
  fun_induction closing cs generalizing n with
  | case1 => contradiction
  | case2 cs k hk ih =>
    cases hn
    obtain ⟨m, d, rfl, hd, hsolid⟩ := ih _ hk
    exact ⟨m + 2, d, rfl, hd, hsolid⟩
  | case3 | case4 =>
    cases hn
    exact ⟨0, '\'', rfl, rfl, hquote⟩
  | case5 c cs _ hc ih =>
    obtain ⟨k, hk, rfl⟩ := Option.map_eq_some_iff.mp hn
    obtain ⟨m, d, rfl, hd, hsolid⟩ := ih _ hk
    exact ⟨m + 1, d, rfl, hd, hsolid⟩

theorem bracketed_solid : Solid bracketed := by
  intro cs n hn
  cases cs with
  | nil => contradiction
  | cons c cs =>
    obtain ⟨b, _, hb⟩ := Option.bind_eq_some_iff.mp hn
    obtain ⟨_, hm, rfl⟩ := Option.map_eq_some_iff.mp hb
    obtain ⟨m, d, rfl, hd, hsolid⟩ := through_solid b (by decide) _ _ hm
    exact ⟨m + 1, d, rfl, hd, hsolid⟩

theorem quotedName_solid (c : Char) : Solid (quotedName c) := by
  intro cs n hn
  rw [quotedName_eq] at hn
  split at hn
  · next hclose =>
    cases hn
    exact ⟨_, '"', rfl, hclose.2, by decide⟩
  · contradiction

end Solid

/-- A run of characters behind `c`, where neither they nor `c` are white space. -/
theorem run_solid {p : Char → Bool} (hp : ∀ d, p d → ¬ Text.isBlank d) {c : Char}
    (hc : ¬ Text.isBlank c) (cs : List Char) :
    ∃ d, (c :: cs)[(cs.takeWhile p).length]? = some d ∧ ¬ Text.isBlank d := by
  induction cs generalizing c with
  | nil => exact ⟨c, rfl, hc⟩
  | cons d cs ih =>
    rw [List.takeWhile_cons]
    split
    · next hd => exact ih (hp d hd)
    · exact ⟨c, rfl, hc⟩

theorem not_isBlank_of_continuesWord {d : Char} (hd : continuesWord d) : ¬ Text.isBlank d := by
  intro hblank
  simp only [continuesWord, Bool.or_eq_true, beq_iff_eq] at hd
  obtain ((hd | rfl) | rfl) | rfl := hd
  · exact Text.not_isBlank_of_isAlphanum hd hblank
  all_goals exact absurd hblank (by decide)

theorem number_solid {c : Char} (hc : ¬ Text.isBlank c) {cs : List Char} {n : Nat}
    (h : number c cs = some n) : ∃ d, (c :: cs)[n]? = some d ∧ ¬ Text.isBlank d := by
  have hdigit (d : Char) (hd : d.isDigit) : ¬ Text.isBlank d :=
    not_isBlank_of_continuesWord (by simp [continuesWord, Char.isAlphanum, hd])
  rw [number_eq] at h
  split at h
  · cases h
    unfold fraction
    split
    · next rest hrest =>
      dsimp only
      split
      · exact run_solid hdigit hc cs
      · obtain ⟨d, hd, hsolid⟩ := run_solid hdigit (by decide : ¬ Text.isBlank '.') rest
        refine ⟨d, ?_, hsolid⟩
        rw [← hrest, List.getElem?_drop] at hd
        exact hd
    · exact run_solid hdigit hc cs
  · cases h

theorem recognise_solid {c : Char} (hc : ¬ Text.isBlank c) {cs : List Char} {kind : Class} {n : Nat}
    (h : recognise c cs = some (kind, n)) :
    (kind = .comment ∧ lineComment c cs = some n) ∨
      ∃ d, (c :: cs)[n]? = some d ∧ ¬ Text.isBlank d := by
  have behind {f : List Char → Option Nat} (hf : Solid f) (hn : f cs = some n) :
      ∃ d, (c :: cs)[n]? = some d ∧ ¬ Text.isBlank d := by
    obtain ⟨m, d, rfl, hd, hsolid⟩ := hf _ _ hn
    exact ⟨d, hd, hsolid⟩
  have hslash : ¬ Text.isBlank '/' := by decide
  simp only [recognise, Option.orElse_eq_some, Option.map_eq_some_iff,
    Prod.mk.injEq] at h
  obtain ⟨_, hn, -, rfl⟩ | ⟨-, ⟨_, hn, -, rfl⟩ | ⟨-, ⟨_, hn, hkind, rfl⟩ | ⟨-, ⟨_, hn, -, rfl⟩ |
    ⟨-, ⟨_, hn, -, rfl⟩ | ⟨-, ⟨_, hn, -, rfl⟩ | ⟨-, ⟨_, hn, -, rfl⟩ | ⟨-, _, hn, -, rfl⟩⟩⟩⟩⟩⟩⟩ := h
  · rw [documentation_eq] at hn
    exact .inr (behind (.ite (after_solid (after_solid (through_solid '*' hslash) _) _) .none) hn)
  · rw [blockComment_eq] at hn
    exact .inr (behind (.ite (after_solid (through_solid '*' hslash) _) .none) hn)
  · exact .inl ⟨hkind.symm, hn⟩
  · rw [bracketedString_eq] at hn
    exact .inr (behind (.ite (after_solid bracketed_solid _)
      (.ite (after_solid (after_solid bracketed_solid _) _) .none)) hn)
  · rw [plainString_eq] at hn
    exact .inr (behind (.ite closing_solid (.ite (after_solid closing_solid _) .none)) hn)
  · exact .inr (behind (quotedName_solid c) hn)
  · rw [word] at hn
    split at hn
    · cases hn
      exact .inr (run_solid (fun _ => not_isBlank_of_continuesWord) hc cs)
    · contradiction
  · exact .inr (number_solid hc hn)

/-- White space at the end of a text changes no lexeme, but that a line comment takes it up. -/
theorem read_of_append_blanks {c : Char} {cs blanks : List Char} {kind : Class} {n : Nat}
    (hc : ¬ Text.isBlank c) (hblanks : ∀ d ∈ blanks, Text.isBlank d)
    (h : read c (cs ++ blanks) = (kind, n)) :
    (n ≤ cs.length ∧ read c cs = (kind, n)) ∨
      (cs.length < n ∧ kind = .comment ∧ read c cs = (.comment, cs.length)) := by
  rcases Nat.lt_or_ge cs.length n with hn | hn
  · right
    have hfound : recognise c (cs ++ blanks) = some (kind, n) := by
      rw [read_eq] at h
      cases hfound : recognise c (cs ++ blanks) with
      | none =>
        rw [hfound] at h
        cases h
        contradiction
      | some found =>
        rw [hfound] at h
        exact congrArg some h
    obtain ⟨hkind, hline⟩ | ⟨d, hd, hsolid⟩ := recognise_solid hc hfound
    · refine ⟨hn, hkind, ?_⟩
      obtain ⟨body, rfl, hbody, rfl⟩ := lineComment_eq_some hline
      cases cs with
      | nil =>
        -- The second hyphen would be white space.
        rw [List.nil_append] at hbody
        rw [hbody] at hblanks
        exact absurd (hblanks '-' List.mem_cons_self) (by decide)
      | cons c cs =>
        rw [List.cons_append, List.cons.injEq] at hbody
        obtain ⟨rfl, rfl⟩ := hbody
        rw [read_lineComment, List.length_cons]
        rw [List.length_cons, List.takeWhile_append] at hn
        split at hn
        · next hall => rw [hall]
        · exact absurd (List.takeWhile_sublist _).length_le
            (Nat.not_le.mpr (Nat.lt_of_succ_lt_succ hn))
    · obtain ⟨n, rfl⟩ := Nat.exists_eq_succ_of_ne_zero (Nat.ne_zero_of_lt hn)
      rw [List.getElem?_cons_succ, List.getElem?_append_right (Nat.le_of_lt_succ hn)] at hd
      exact absurd (hblanks d (List.mem_of_getElem? hd)) hsolid
  · exact .inl ⟨hn, read_of_append h hn⟩

end PlsqlNav.Lexeme
