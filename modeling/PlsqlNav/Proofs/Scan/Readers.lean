import PlsqlNav.Outline.Scan

/-! What the readers of a scan leave is the end of what they were given: they go forward and skip
nothing that they leave. -/
namespace PlsqlNav

namespace Symbol.Kind
variable {k : Kind}

theorem hasCounterpart_of_isBlock (h : k.isBlock) : k.hasCounterpart := by
  cases k with
  | package f | function f | procedure f => rfl
  | var | constant | type | subtype | cursor | exception => contradiction

theorem hasCounterpart_counterpart : k.counterpart.hasCounterpart = k.hasCounterpart := by
  cases k <;> rfl

end Symbol.Kind

/-- The tokens `ts` begin with a declaration, up to its name: `first` is the first token, and what comes
behind the name is `after`. -/
def Token.Names (ts : List Token) (first : Token) (name : String) (after : List Token) : Prop :=
  ∃ lead, ts = lead ++ after ∧ lead.head? = some first ∧ ∃ t ∈ lead.getLast?, name = t.name

theorem Token.Names.suffix {ts after : List Token} {first : Token} {name : String}
    (h : Names ts first name after) : after <:+ ts := by
  obtain ⟨lead, rfl, _⟩ := h
  exact List.suffix_append lead after

theorem Token.Names.exists_cons {ts after : List Token} {first : Token} {name : String}
    (h : Names ts first name after) : ∃ us, ts = first :: us ∧ after <:+ us := by
  obtain ⟨lead, rfl, hfirst, _⟩ := h
  obtain ⟨lead, rfl⟩ := List.head?_eq_some_iff.mp hfirst
  exact ⟨lead ++ after, rfl, List.suffix_append lead after⟩

namespace Header
variable {ts rest : List Token}

theorem qualifiedName_suffix {name : String} (h : qualifiedName ts = some (name, rest)) :
    rest <:+ ts := by
  unfold qualifiedName at h
  split at h
  · contradiction
  · split at h
    · split at h
      · split at h
        · cases h
          exact List.suffix_append [_, _, _] _
        · cases h
          exact List.suffix_cons _ _
      · cases h
        exact List.suffix_cons _ _
    · contradiction

theorem skipWord_suffix (keywords : List String) (ts : List Token) :
    skipWord keywords ts <:+ ts := by
  cases ts with
  | nil => exact List.suffix_refl _
  | cons t ts =>
    rw [skipWord]
    split
    · exact List.suffix_cons t ts
    · exact List.suffix_refl _

theorem skipReplace_suffix (ts : List Token) : skipReplace ts <:+ ts := by
  unfold skipReplace
  split
  · split
    · exact List.suffix_append [_, _] _
    · exact List.suffix_refl _
  · exact List.suffix_refl _

theorem skipCreate_suffix (ts : List Token) : skipCreate ts <:+ ts := by
  cases ts with
  | nil => exact List.suffix_refl _
  | cons t ts =>
    rw [skipCreate]
    split
    · exact ((skipWord_suffix _ _).trans (skipReplace_suffix ts)).trans (List.suffix_cons t ts)
    · exact List.suffix_refl _

theorem unitKind_suffix {kind : Symbol.Kind} (h : unitKind ts = some (kind, rest)) :
    rest <:+ ts := by
  unfold unitKind at h
  split at h
  · contradiction
  · next t us =>
    have hone := List.suffix_cons t us
    split at h
    · cases h; exact hone
    split at h
    · cases h; exact hone
    split at h
    · split at h
      · split at h
        · cases h; exact List.suffix_append [_, _] _
        · cases h; exact hone
      · cases h; exact hone
    · contradiction

/-- The kinds that the keywords of a unit announce have scopes. -/
theorem unitKind_isBlock {kind : Symbol.Kind} (h : unitKind ts = some (kind, rest)) :
    kind.isBlock := by
  unfold unitKind at h
  split at h
  · contradiction
  · split at h
    · cases h; rfl
    split at h
    · cases h; rfl
    split at h
    · split at h
      · split at h <;> cases h <;> rfl
      · cases h; rfl
    · contradiction

theorem qualifiedName_eq_some {name : String} (h : qualifiedName ts = some (name, rest)) :
    ∃ front t, ts = front ++ t :: rest ∧ name = t.name := by
  unfold qualifiedName at h
  split at h
  · contradiction
  · next t us =>
    split at h
    · split at h
      · next dot u after =>
        split at h
        · cases h
          exact ⟨[t, dot], u, rfl, rfl⟩
        · cases h
          exact ⟨[], t, rfl, rfl⟩
      · cases h
        exact ⟨[], t, rfl, rfl⟩
    · contradiction

/-- The tokens of a unit's header through its name. -/
theorem ofUnit?_named {h : Header} (hh : ofUnit? ts = some h) :
    h.kind.isBlock ∧ Token.Names ts h.first h.name h.rest := by
  simp only [ofUnit?, Option.bind_eq_bind, Option.bind_eq_some_iff] at hh
  obtain ⟨first, hfirst, ⟨kind, named⟩, hkind, ⟨name, rest⟩, hname, he⟩ := hh
  cases he
  refine ⟨unitKind_isBlock hkind, ?_⟩
  obtain ⟨front, t, hnamed, rfl⟩ := qualifiedName_eq_some hname
  have hnamed : named = front ++ t :: rest := hnamed
  obtain ⟨keywords, hkeywords⟩ := (unitKind_suffix hkind).trans (skipCreate_suffix ts)
  refine ⟨keywords ++ front ++ [t], ?_, ?_, t, List.getLast?_concat, rfl⟩
  · rw [← hkeywords, hnamed, List.append_assoc, List.append_assoc]
    rfl
  · cases keywords with
    | nil =>
      -- A unit has a keyword before its name.
      have hlen := unitKind_length hkind
      have hskip := skipCreate_length ts
      rw [List.nil_append] at hkeywords
      rw [hkeywords] at hlen
      exact absurd hskip (Nat.not_le.mpr hlen)
    | cons k keywords =>
      rw [← hkeywords] at hfirst
      exact hfirst

/-- The first token of a unit's header opens the tokens, and what follows the name is later. -/
theorem ofUnit?_eq_some {h : Header} (hh : ofUnit? ts = some h) :
    h.kind.isBlock ∧ ∃ us, ts = h.first :: us ∧ h.rest <:+ us := by
  obtain ⟨hblock, hnames⟩ := ofUnit?_named hh
  exact ⟨hblock, hnames.exists_cons⟩

theorem findEnd_suffix (depth : Nat) (afterDollar : Bool) (ts : List Token) :
    (findEnd depth afterDollar ts).tokens <:+ ts := by
  induction ts generalizing depth afterDollar with
  | nil => exact List.suffix_refl _
  | cons t ts ih =>
    have hlater (d : Nat) (a : Bool) : (findEnd d a ts).tokens <:+ t :: ts :=
      (ih d a).trans (List.suffix_cons t ts)
    rw [findEnd]
    split
    · exact hlater _ _
    split
    · exact hlater _ _
    split
    · exact hlater _ _
    split
    · exact List.suffix_refl _
    split
    · exact List.suffix_refl _
    split
    · exact List.suffix_refl _
    · exact hlater _ _

theorem suffix_of_findEnd {depth : Nat} {afterDollar : Bool} {e : End}
    (h : findEnd depth afterDollar ts = e) : e.tokens <:+ ts :=
  h ▸ findEnd_suffix depth afterDollar ts

end Header

namespace Unexpected

theorem afterDirective_suffix (keyword : String) (ts : List Token) :
    afterDirective keyword ts <:+ ts := by
  induction ts with
  | nil => exact List.suffix_refl _
  | cons t ts ih =>
    rw [afterDirective]
    split
    · exact (List.tail_suffix ts).trans (List.suffix_cons t ts)
    · exact ih.trans (List.suffix_cons t ts)

theorem afterStatement_suffix (afterDollar : Bool) (ts : List Token) :
    afterStatement afterDollar ts <:+ ts := by
  induction ts generalizing afterDollar with
  | nil => exact List.suffix_refl _
  | cons t ts ih =>
    rw [afterStatement]
    split
    · exact List.suffix_cons t ts
    split
    · exact List.suffix_refl _
    · exact (ih _).trans (List.suffix_cons t ts)

theorem skip_suffix (t : Token) (ts : List Token) : skip t ts <:+ ts := by
  cases ts with
  | nil => exact List.suffix_refl _
  | cons w after =>
    have hone := List.suffix_cons w after
    rw [skip]
    split
    · split
      · exact (afterDirective_suffix _ _).trans hone
      split
      · exact (afterDirective_suffix _ _).trans hone
      · exact hone
    · exact afterStatement_suffix _ _

end Unexpected

namespace Extent

theorem ofEnd_eq (last : Token) (after : List Token) :
    ∃ front l, last :: after = front ++ l :: (ofEnd last after).rest ∧
      (ofEnd last after).stop = l.stop := by
  unfold ofEnd
  split
  · exact ⟨[], last, rfl, rfl⟩
  · split
    · exact ⟨[last], _, rfl, rfl⟩
    · split
      · exact ⟨[], last, rfl, rfl⟩
      · split
        · exact ⟨[last, _], _, rfl, rfl⟩
        · exact ⟨[], last, rfl, rfl⟩

/-- A block stops just past a token, and what is left comes right after that token. -/
theorem find_eq_some {inner : Nat} {afterDollar : Bool} {ts : List Token} {e : Extent}
    (h : find inner afterDollar ts = some e) :
    ∃ front last, ts = front ++ last :: e.rest ∧ e.stop = last.stop := by
  have cons (t : Token) {us : List Token}
      (h : ∃ front last, us = front ++ last :: e.rest ∧ e.stop = last.stop) :
      ∃ front last, t :: us = front ++ last :: e.rest ∧ e.stop = last.stop := by
    obtain ⟨front, last, rfl, hstop⟩ := h
    exact ⟨t :: front, last, rfl, hstop⟩
  fun_induction find inner afterDollar ts with
  | case1 => contradiction
  | case2 _ _ _ _ _ ih => exact cons _ (ih h)
  | case3 _ _ _ _ _ _ ih => exact cons _ (ih h)
  | case4 => cases h; exact ofEnd_eq _ _
  | case5 => contradiction
  | case6 _ _ _ _ _ _ _ _ ih => exact cons _ (cons _ (ih h))
  | case7 => cases h; exact cons _ (ofEnd_eq _ _)
  | case8 _ _ _ _ _ _ _ _ _ ih => exact cons _ (cons _ (ih h))
  | case9 => cases h; exact ofEnd_eq _ _
  | case10 _ _ _ _ _ _ _ _ _ ih => exact cons _ (ih h)

end Extent

namespace Lead
variable {t : Token}

theorem of_eq_routine {kind : Flavour → Symbol.Kind} (h : of t = .routine kind) :
    t.isWord "function" ∧ kind = .function ∨ t.isWord "procedure" ∧ kind = .procedure := by
  unfold of at h
  repeat' split at h
  all_goals cases h
  · next hword => exact .inl ⟨hword, rfl⟩
  · next hword => exact .inr ⟨hword, rfl⟩

theorem of_eq_create (h : of t = .create) : t.isWord "create" := by
  unfold of at h
  repeat' split at h
  all_goals cases h
  assumption

theorem of_eq_named {kind : Symbol.Kind} (h : of t = .named kind) : kind ∈ [.type, .subtype, .cursor] := by
  unfold of at h
  repeat' split at h
  all_goals cases h
  all_goals decide

theorem spec_eq_counterpart {kind : Flavour → Symbol.Kind} (h : of t = .routine kind) :
    kind .spec = (kind .body).counterpart := by
  obtain ⟨_, rfl⟩ | ⟨_, rfl⟩ := of_eq_routine h
  · rfl
  · rfl

theorem isRoutine_of_routine {kind : Flavour → Symbol.Kind} (h : of t = .routine kind) (f : Flavour) :
    (kind f).isRoutine := by
  obtain ⟨_, rfl⟩ | ⟨_, rfl⟩ := of_eq_routine h
  · rfl
  · rfl

theorem hasCounterpart_of_named {kind : Symbol.Kind} (h : of t = .named kind) :
    kind.hasCounterpart = false := by
  have hnone : ∀ k ∈ ([.type, .subtype, .cursor] : List Symbol.Kind), k.hasCounterpart = false := by decide
  exact hnone kind (of_eq_named h)

end Lead

namespace Scan

theorem fromSemicolon_cons {t : Token} (h : t.isPunct ';') (ts : List Token) :
    fromSemicolon (t :: ts) = t :: ts := by
  rw [fromSemicolon, List.dropWhile_cons_of_neg]
  rw [h]
  exact Bool.false_ne_true

theorem fromSemicolon_suffix (ts : List Token) : fromSemicolon ts <:+ ts :=
  List.dropWhile_suffix _

theorem tail_fromSemicolon_suffix (ts : List Token) : (fromSemicolon ts).tail <:+ ts :=
  (List.tail_suffix _).trans (fromSemicolon_suffix ts)

end Scan

end PlsqlNav
