import PlsqlNav.Proofs.Outline.WellNested

/-! The search for the end of a block over some tokens, whatever comes after them. Either the block closes
among these tokens, or the search passes them and leaves a certain number of blocks open. -/
namespace PlsqlNav.Extent

variable {inner : Nat} {a : Bool} {t u last : Token} {ts front more : List Token}

/-- Whether a dollar sign comes last, or before the tokens where there are none. -/
def dollarLast (afterDollar : Bool) (front : List Token) : Bool :=
  (front.getLast?.map (·.isPunct '$')).getD afterDollar

/-- The tokens do not break off where a label may come: right after an `end` or its `case`. -/
structure NoLabelDue (afterDollar : Bool) (front : List Token) : Prop where
  afterEnd : ∀ before e, front = before ++ [e] → e.isWord "end" → dollarLast afterDollar before
  afterCase : ∀ before e c, front = before ++ [e, c] → e.isWord "end" → c.isWord "case" →
    dollarLast afterDollar before

/-- The block closes among the tokens `front`, which what comes after them does not change; a semicolon
would still belong to the block. -/
def ClosesIn (inner : Nat) (afterDollar : Bool) (front : List Token) : Prop :=
  ∃ e : Extent, ∀ more, (∀ t ∈ more.head?, t.isPunct ';' = false) →
    find inner afterDollar (front ++ more) = some ⟨e.stop, e.rest ++ more⟩

/-- The search passes the tokens `front`, behind which `n` more blocks are open. -/
def Passes (inner : Nat) (afterDollar : Bool) (front : List Token) (n : Nat) : Prop :=
  ∀ more, find inner afterDollar (front ++ more) = find n (dollarLast afterDollar front) more

theorem dollarLast_cons (a : Bool) (t : Token) (ts : List Token) :
    dollarLast a (t :: ts) = dollarLast (t.isPunct '$') ts := by
  rw [dollarLast, dollarLast, List.getLast?_cons, Option.map_some, Option.getD_some]
  cases ts.getLast? <;> rfl

theorem dollarLast_concat (a : Bool) (front : List Token) (t : Token) :
    dollarLast a (front ++ [t]) = t.isPunct '$' := by
  rw [dollarLast, List.getLast?_concat]
  rfl

theorem NoLabelDue.tail (h : NoLabelDue a (t :: ts)) : NoLabelDue (t.isPunct '$') ts where
  afterEnd before e heq he := by
    rw [← dollarLast_cons a]
    exact h.afterEnd (t :: before) e (by rw [heq, List.cons_append]) he
  afterCase before e c heq he hc := by
    rw [← dollarLast_cons a]
    exact h.afterCase (t :: before) e c (by rw [heq, List.cons_append]) he hc

theorem noLabelDue_of_last (ht : t.isOneOf ["end", "case"] = false) :
    NoLabelDue a (front ++ [t]) where
  afterEnd before e heq he := by
    have hte : t = e := List.singleton_inj.mp (List.append_inj_right' heq rfl)
    have hnot := Token.not_isOneOf_iff.mp ht "end" (by simp)
    rw [hte, he] at hnot
    contradiction
  afterCase before e c heq _ hc := by
    have heq : front ++ [t] = (before ++ [e]) ++ [c] := by rw [heq, List.append_assoc]; rfl
    have htc : t = c := List.singleton_inj.mp (List.append_inj_right' heq rfl)
    have hnot := Token.not_isOneOf_iff.mp ht "case" (by simp)
    rw [htc, hc] at hnot
    contradiction

theorem ofEnd_front (hne : front ≠ []) (hmore : ∀ t ∈ more.head?, t.isPunct ';' = false) :
    ofEnd last (front ++ more) = ⟨(ofEnd last front).stop, (ofEnd last front).rest ++ more⟩ := by
  obtain ⟨t, ts, rfl⟩ := List.exists_cons_of_ne_nil hne
  rw [List.cons_append, ofEnd.eq_def, ofEnd.eq_def last (t :: ts)]
  dsimp only
  split
  · rfl
  · cases ts with
    | nil =>
      cases more with
      | nil => rfl
      | cons u more =>
        have hu : u.isPunct ';' = false := hmore u rfl
        simp only [List.nil_append, hu, Bool.and_false, Bool.false_eq_true, if_false]
        rfl
    | cons u ts =>
      rw [List.cons_append]
      dsimp only
      split <;> rfl

/-- The search goes on in the same way from an earlier place, if nothing that comes later changes how. -/
theorem closesIn_or_passes_of_find {inner' : Nat} {a' : Bool} {front' : List Token}
    (hfind : ∀ more, find inner a (front ++ more) = find inner' a' (front' ++ more))
    (hdollar : dollarLast a front = dollarLast a' front')
    (h : ClosesIn inner' a' front' ∨ ∃ n, Passes inner' a' front' n) :
    ClosesIn inner a front ∨ ∃ n, Passes inner a front n := by
  rcases h with ⟨e, he⟩ | ⟨n, hn⟩
  · exact .inl ⟨e, fun more hmore => (hfind more).trans (he more hmore)⟩
  · exact .inr ⟨n, fun more => by rw [hfind, hn, hdollar]⟩

theorem end_of_counted (h : ¬ (!t.isWord "end" || a) = true) : t.isWord "end" ∧ a = false := by
  rwa [Bool.not_eq_true, Bool.or_eq_false_iff, Bool.not_eq_false'] at h

/-- A block closes among some tokens, or the search passes them. -/
theorem closesIn_or_passes (h : NoLabelDue a front) :
    ClosesIn inner a front ∨ ∃ n, Passes inner a front n := by
  have plain {t : Token} {k : String} (ht : t.isWord k) : t.isPunct '$' = false :=
    Token.not_isPunct_of_isName (Token.isName_of_isWord ht)
  fun_induction find inner a front with
  | case1 inner a => exact .inr ⟨inner, fun _ => rfl⟩
  | case2 inner a t ts ht ih =>
    have hname : t.isPunct '$' = false := Token.not_isPunct_of_isName (Token.isName_of_isOneOf ht)
    refine closesIn_or_passes_of_find (fun more => find_opening ht) ?_ (ih (hname ▸ h.tail))
    rw [dollarLast_cons, hname]
  | case3 inner a t ts ht ha ih =>
    refine closesIn_or_passes_of_find (fun more => ?_) (dollarLast_cons a t ts) (ih h.tail)
    rw [List.cons_append, find.eq_def]
    dsimp only
    rw [if_neg ht, if_pos ha]
  | case4 a t ht ha | case5 inner a t ht ha =>
    -- The tokens break off after an `end`.
    obtain ⟨hend, rfl⟩ := end_of_counted ha
    exact absurd (h.afterEnd [] t rfl hend) Bool.false_ne_true
  | case6 inner a t ht ha u ts hu ih =>
    obtain ⟨hend, rfl⟩ := end_of_counted ha
    have hname : u.isPunct '$' = false := Token.not_isPunct_of_isName (Token.isName_of_isOneOf hu)
    refine closesIn_or_passes_of_find (fun more => find_unopened hend hu) ?_
      (ih (hname ▸ h.tail.tail))
    rw [dollarLast_cons, dollarLast_cons, hname]
  | case7 a t ht ha u ts hu hcase =>
    obtain ⟨hend, rfl⟩ := end_of_counted ha
    have hne : ts ≠ [] := by
      rintro rfl
      exact absurd (h.afterCase [] t u rfl hend hcase) Bool.false_ne_true
    refine .inl ⟨ofEnd u ts, fun more hmore => ?_⟩
    rw [List.cons_append, List.cons_append, find.eq_def]
    dsimp only
    rw [if_neg ht, if_neg ha, if_neg hu, if_pos hcase, ofEnd_front hne hmore]
  | case8 a t ht ha u ts hu hcase n ih =>
    obtain ⟨hend, rfl⟩ := end_of_counted ha
    refine closesIn_or_passes_of_find (fun more => find_endCase hend hcase) ?_
      (ih (plain hcase ▸ h.tail.tail))
    rw [dollarLast_cons, dollarLast_cons, plain hcase]
  | case9 a t ht ha u ts hu hcase =>
    refine .inl ⟨ofEnd t (u :: ts), fun more hmore => ?_⟩
    rw [List.cons_append, List.cons_append, find.eq_def]
    dsimp only
    rw [if_neg ht, if_neg ha, if_neg hu, if_neg hcase, ← List.cons_append,
      ofEnd_front (List.cons_ne_nil u ts) hmore]
  | case10 a t ht ha u ts hu hcase n ih =>
    obtain ⟨hend, rfl⟩ := end_of_counted ha
    refine closesIn_or_passes_of_find (fun more => ?_) ?_ (ih (plain hend ▸ h.tail))
    · rw [List.cons_append, List.cons_append, find.eq_def]
      dsimp only
      rw [if_neg ht, if_neg ha, if_neg hu, if_neg hcase]
    · rw [dollarLast_cons, plain hend]

end PlsqlNav.Extent
