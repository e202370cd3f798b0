import PlsqlNav.Proofs.Outline.WellFormed

/-! What is around a symbol and what is inside one are the same relation: preorder from `i` visits the
symbols that have `i` for an ancestor, in text order. -/
namespace PlsqlNav.Outline

variable {o : Outline} {a e i j p : o.Id}

theorem Within.trans (h : o.Within a p) (k : o.Within p e) : o.Within a e := by
  refine ⟨lt_trans h.1 k.1, fun j haj hje => ?_⟩
  rcases le_or_gt j p with hjp | hpj
  · exact h.2 j haj hjp
  · exact lt_trans (h.2 p h.1 (le_refl p)) (k.2 j hpj hje)

theorem ancestors_of_parent? (h : o.parent? i = some p) : o.ancestors i = i :: o.ancestors p := by
  rw [ancestors.eq_def]
  split
  · next q hq =>
    cases h.symm.trans hq
    rfl
  · next hnone =>
    rw [h] at hnone
    contradiction

theorem ancestors_of_none (h : o.parent? i = none) : o.ancestors i = [i] := by
  rw [ancestors.eq_def]
  split
  · next q hq =>
    rw [h] at hq
    contradiction
  · rfl

theorem outermost_of_parent? (h : o.parent? i = some p) : o.outermost i = o.outermost p := by
  rw [outermost, outermost, ancestors_of_parent? h]
  cases hp : o.parent? p with
  | none =>
    rw [ancestors_of_none hp]
    rfl
  | some q =>
    rw [ancestors_of_parent? hp]
    rfl

theorem outermost_of_none (h : o.parent? i = none) : o.outermost i = i := by
  rw [outermost, ancestors_of_none h]
  rfl

theorem self_mem_ancestors (i : o.Id) : i ∈ o.ancestors i := by
  cases h : o.parent? i with
  | none =>
    rw [ancestors_of_none h]
    exact List.mem_cons_self
  | some p =>
    rw [ancestors_of_parent? h]
    exact List.mem_cons_self

theorem mem_ancestors_of_parent? (h : o.parent? i = some p) : p ∈ o.ancestors i := by
  rw [ancestors_of_parent? h]
  exact List.mem_cons_of_mem i (self_mem_ancestors p)

/-- Everything in one tree has the same symbol outermost. -/
theorem outermost_of_mem_ancestors (h : a ∈ o.ancestors e) : o.outermost a = o.outermost e := by
  fun_induction ancestors o e with
  | case1 e p hp _ ih =>
    rcases List.mem_cons.mp h with rfl | h
    · rfl
    · rw [ih h, outermost_of_parent? hp]
  | case2 e hnone =>
    rw [List.mem_singleton.mp h]

theorem eq_outermost_of_mem_ancestors (h : a ∈ o.ancestors e) (ha : o.parent? a = none) :
    a = o.outermost e := by
  rw [← outermost_of_mem_ancestors h, outermost_of_none ha]

/-- What is around a symbol ends with the outermost one; all before it have a parent. -/
theorem ancestors_eq_append (e : o.Id) : ∃ inner, o.ancestors e = inner ++ [o.outermost e] ∧
    ∀ a ∈ inner, o.parent? a ≠ none := by
  fun_induction ancestors o e with
  | case1 e p hp _ ih =>
    obtain ⟨inner, hinner, hparent⟩ := ih
    refine ⟨e :: inner, ?_, ?_⟩
    · rw [hinner, outermost_of_parent? hp, List.cons_append]
    · intro a ha
      rcases List.mem_cons.mp ha with rfl | ha
      · rw [hp]
        exact Option.some_ne_none p
      · exact hparent a ha
  | case2 e hnone =>
    refine ⟨[], ?_, fun a ha => absurd ha List.not_mem_nil⟩
    rw [outermost_of_none hnone, List.nil_append]

theorem outermost_mem_ancestors (e : o.Id) : o.outermost e ∈ o.ancestors e := by
  obtain ⟨inner, hinner, _⟩ := ancestors_eq_append e
  rw [hinner]
  exact List.mem_append_right inner List.mem_cons_self

section Rising
variable (rising : o.Rising)
include rising

theorem within_iff_of_parent? (h : o.parent? e = some p) : o.Within a e ↔ a = p ∨ o.Within a p := by
  have hpe := o.within_of_parent? rising h
  constructor
  · intro hae
    have hlevel := hae.2 e hae.1 (le_refl e)
    rw [(parent?_eq_some_iff.mp h).2.1] at hlevel
    rcases lt_trichotomy a p with hap | hap | hpa
    · exact .inr ⟨hap, fun k hak hkp => hae.2 k hak (le_trans hkp (le_of_lt hpe.1))⟩
    · exact .inl hap
    · -- A symbol between `p` and `e` is deeper than `p`, and so no shallower than `e`.
      have := hpe.2 a hpa (le_of_lt hae.1)
      omega
  · rintro (rfl | hap)
    · exact hpe
    · exact hap.trans hpe

theorem mem_ancestors_iff : a ∈ o.ancestors e ↔ a = e ∨ o.Within a e := by
  fun_induction ancestors o e with
  | case1 e p hp _ ih => rw [List.mem_cons, ih, within_iff_of_parent? rising hp]
  | case2 e hnone =>
    rw [List.mem_singleton, or_iff_left]
    intro hae
    have := hae.2 e hae.1 (le_refl e)
    rw [(o.parent?_eq_none_iff rising).mp hnone] at this
    omega

theorem le_of_mem_ancestors (h : a ∈ o.ancestors e) : a ≤ e := by
  rcases (mem_ancestors_iff rising).mp h with rfl | hae
  · exact le_refl a
  · exact le_of_lt hae.1

theorem mem_ancestors_trans (h : a ∈ o.ancestors p) (k : p ∈ o.ancestors e) : a ∈ o.ancestors e := by
  rw [mem_ancestors_iff rising] at h k ⊢
  rcases h with rfl | hap
  · exact k
  · rcases k with rfl | hpe
    · exact .inr hap
    · exact .inr (hap.trans hpe)

theorem preorder_singleton (i : o.Id) : o.preorder [i] = i :: o.inside i := by
  obtain ⟨inner, outer, hsplit, hinner, houter⟩ :=
    exists_deeper_prefix (o.get i).level (o.ids.drop (i.val + 1))
  have hhead : ∀ j ∈ inner.head?, (o.get j).level = (o.get i).level + 1 := by
    intro j hj
    have hdeep := hinner j (List.mem_of_mem_head? hj)
    obtain ⟨rest, rfl⟩ := List.head?_eq_some_iff.mp hj
    exact level_of_next rising (val_of_drop_ids hsplit) hdeep
  have hinside := preorder_siblings rising inner outer (i.val + 1) hsplit hinner hhead
    (fun j hj => Nat.le_succ_of_le (houter j hj)) []
  have hnil : o.preorder [] = [] := by rw [preorder]
  rw [preorder_cons, children, inside_eq hsplit hinner houter, hinside, hnil, List.append_nil]

theorem mem_preorder_singleton : j ∈ o.preorder [i] ↔ i ∈ o.ancestors j := by
  rw [preorder_singleton rising, List.mem_cons, mem_inside_iff, mem_ancestors_iff rising, eq_comm]

theorem preorder_singleton_ascend (i : o.Id) : (o.preorder [i]).Pairwise (· < ·) := by
  rw [preorder_singleton rising, List.pairwise_cons]
  exact ⟨fun j hj => (mem_inside_iff.mp hj).1,
    ids_ascend.sublist ((List.takeWhile_sublist _).trans (List.drop_sublist _ _))⟩

end Rising

theorem ofText_level_le (file text : String) (i : (Outline.ofText file text).Id) :
    ((Outline.ofText file text).get i).level ≤ 2 := by
  obtain ⟨_, _, hrec⟩ := ofText_recorded file text
  exact (hrec.placed i.val _ (getElem?_symbols i)).level_le

end PlsqlNav.Outline
