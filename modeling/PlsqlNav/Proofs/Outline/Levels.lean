import Mathlib.Order.Fin.Basic
import Mathlib.Tactic.ByContra
import PlsqlNav.Outline.Query

/-! What the levels of an outline say. Where levels rise by at most one from a symbol to the next, the
parent of a symbol and the children of its parent agree, and each symbol has as many others around it
as its level says. -/
namespace PlsqlNav.Outline

variable {o : Outline}

/-- From `i` on, all symbols up to `j` lie on deeper levels than `i`. -/
def Within (o : Outline) (i j : o.Id) : Prop :=
  i < j ∧ ∀ k, i < k → k ≤ j → (o.get i).level < (o.get k).level

/-- Levels start at zero and rise by at most one. -/
def Rising (o : Outline) : Prop :=
  ∀ i : o.Id, (o.get i).level ≠ 0 →
    ∃ j : o.Id, j.val + 1 = i.val ∧ (o.get i).level ≤ (o.get j).level + 1

theorem ids_ascend : o.ids.Pairwise (· < ·) := List.pairwise_lt_finRange _

theorem topLevel_ascend : o.topLevel.Pairwise (· < ·) := ids_ascend.sublist List.filter_sublist

theorem mem_drop_ids {n : Nat} {j : o.Id} : j ∈ o.ids.drop n ↔ n ≤ j.val := by
  rw [List.mem_drop_iff_getElem]
  simp only [ids, List.getElem_finRange, List.length_finRange]
  constructor
  · rintro ⟨k, hk, rfl⟩
    simp
  · intro h
    exact ⟨j.val - n, by omega, Fin.ext (by simp; omega)⟩

theorem mem_takeWhile_of_ascend {p : o.Id → Bool} {js : List o.Id} (asc : js.Pairwise (· < ·))
    {j : o.Id} : j ∈ js.takeWhile p ↔ j ∈ js ∧ ∀ k ∈ js, k ≤ j → p k := by
  induction js with
  | nil => simp
  | cons i js ih =>
    have hlater : ∀ k ∈ js, i < k := fun k hk => List.rel_of_pairwise_cons asc hk
    rw [List.takeWhile_cons]
    split
    · next hi =>
      rw [List.mem_cons, ih asc.of_cons]
      constructor
      · rintro (rfl | ⟨hj, hall⟩)
        · refine ⟨List.mem_cons_self, fun k hk hle => ?_⟩
          rcases List.mem_cons.mp hk with rfl | hk
          · exact hi
          · exact absurd hle (not_le_of_gt (hlater k hk))
        · refine ⟨List.mem_cons_of_mem i hj, fun k hk hle => ?_⟩
          rcases List.mem_cons.mp hk with rfl | hk
          · exact hi
          · exact hall k hk hle
      · rintro ⟨hj, hall⟩
        rcases List.mem_cons.mp hj with rfl | hj
        · exact .inl rfl
        · exact .inr ⟨hj, fun k hk => hall k (List.mem_cons_of_mem i hk)⟩
    · next hi =>
      simp only [List.not_mem_nil, false_iff, not_and]
      intro hj hall
      apply hi
      apply hall i List.mem_cons_self
      rcases List.mem_cons.mp hj with rfl | hj
      · exact le_refl _
      · exact le_of_lt (hlater j hj)

theorem mem_inside_iff {i j : o.Id} : j ∈ o.inside i ↔ o.Within i j := by
  rw [inside, mem_takeWhile_of_ascend (ids_ascend.sublist (List.drop_sublist _ _))]
  simp only [mem_drop_ids, Within, decide_eq_true_eq, Fin.lt_def, Nat.succ_le_iff]

theorem mem_children_iff {i j : o.Id} :
    j ∈ o.children i ↔ o.Within i j ∧ (o.get j).level = (o.get i).level + 1 := by
  rw [children, List.mem_filter, mem_inside_iff, decide_eq_true_eq]

theorem lastAt_eq_some_iff {level n : Nat} {h : n ≤ o.symbols.size} {p : o.Id} :
    o.lastAt level n h = some p ↔
      p.val < n ∧ (o.get p).level = level ∧ ∀ k, p < k → k.val < n → (o.get k).level ≠ level := by
  induction n with
  | zero => simp [lastAt]
  | succ n ih =>
    rw [lastAt]
    split
    · next hn =>
      constructor
      · intro hp
        cases hp
        refine ⟨Nat.lt_succ_self n, hn, fun k hk hlt => ?_⟩
        have hk' : n < k.val := hk
        omega
      · rintro ⟨hlt, _, hlast⟩
        apply congrArg some
        apply Fin.ext
        by_contra hne
        exact hlast ⟨n, h⟩ (by rw [Fin.lt_def]; simp only at hne ⊢; omega) (Nat.lt_succ_self n) hn
    · next hn =>
      rw [ih]
      constructor
      · rintro ⟨hlt, hp, hlast⟩
        refine ⟨Nat.lt_succ_of_lt hlt, hp, fun k hk hlt => ?_⟩
        by_cases hkn : k.val = n
        · rwa [show k = ⟨n, h⟩ from Fin.ext hkn]
        · exact hlast k hk (by omega)
      · rintro ⟨hlt, hp, hlast⟩
        refine ⟨?_, hp, fun k hk hlt => hlast k hk (Nat.lt_succ_of_lt hlt)⟩
        have hpn : p.val ≠ n := by
          intro hpn
          rw [show p = ⟨n, h⟩ from Fin.ext hpn] at hp
          exact hn hp
        omega

theorem parent?_eq_some_iff {i p : o.Id} :
    o.parent? i = some p ↔
      p < i ∧ (o.get i).level = (o.get p).level + 1 ∧
        ∀ k, p < k → k < i → (o.get k).level ≠ (o.get p).level := by
  rw [parent?]
  split
  · next h0 => simp [h0]
  · next level hl =>
    rw [lastAt_eq_some_iff, hl, Nat.succ_inj]
    constructor
    · rintro ⟨hlt, hp, hlast⟩
      exact ⟨hlt, hp.symm, fun k hk hki => hp ▸ hlast k hk hki⟩
    · rintro ⟨hlt, hp, hlast⟩
      exact ⟨hlt, hp.symm, fun k hk hki => hp ▸ hlast k hk hki⟩

section Rising
variable (rising : o.Rising)
include rising

/-- Below the level of a symbol, each level has a symbol around it. -/
theorem exists_within (i : o.Id) (level : Nat) (hl : level < (o.get i).level) :
    ∃ p, o.Within p i ∧ (o.get p).level = level := by
  obtain ⟨n, hn⟩ := i
  induction n with
  | zero =>
    obtain ⟨j, hj, _⟩ := rising ⟨0, hn⟩ (by omega)
    exact absurd hj (Nat.succ_ne_zero _)
  | succ n ih =>
    obtain ⟨j, hj, hle⟩ := rising ⟨n + 1, hn⟩ (by omega)
    have hjn : j = ⟨n, Nat.lt_of_succ_lt hn⟩ := Fin.ext (by simpa using hj)
    subst hjn
    have hstep {k : o.Id} (hk : k ≤ ⟨n + 1, hn⟩) : k ≤ ⟨n, Nat.lt_of_succ_lt hn⟩ ∨ k = ⟨n + 1, hn⟩ := by
      rw [Fin.le_def] at hk
      rw [Fin.le_def, Fin.ext_iff]
      simp only at hk ⊢
      omega
    by_cases heq : (o.get ⟨n, Nat.lt_of_succ_lt hn⟩).level = level
    · refine ⟨⟨n, Nat.lt_of_succ_lt hn⟩, ⟨Nat.lt_succ_self n, fun k hk hki => ?_⟩, heq⟩
      rcases hstep hki with hki | rfl
      · exact absurd hk (not_lt_of_ge hki)
      · rwa [heq]
    · obtain ⟨p, ⟨hp, hdeep⟩, hpl⟩ := ih (Nat.lt_of_succ_lt hn) (by omega)
      refine ⟨p, ⟨lt_trans hp (Nat.lt_succ_self n), fun k hk hki => ?_⟩, hpl⟩
      rcases hstep hki with hki | rfl
      · exact hdeep k hk hki
      · rwa [hpl]

theorem within_of_parent? {i p : o.Id} (hp : o.parent? i = some p) : o.Within p i := by
  obtain ⟨hlt, hl, hlast⟩ := parent?_eq_some_iff.mp hp
  refine ⟨hlt, fun k hk hki => ?_⟩
  -- A symbol above `p` between the two would put another one on the level of `p` after it.
  by_contra hle
  have hne : (o.get k).level ≠ (o.get p).level := by
    rcases eq_or_lt_of_le hki with rfl | hki
    · omega
    · exact hlast k hk hki
  obtain ⟨q, hq, hql⟩ := o.exists_within rising i (o.get p).level (by omega)
  have hkq : k < q := by
    by_contra hqk
    rcases eq_or_lt_of_le (le_of_not_gt hqk) with rfl | hqk
    · exact hne hql
    · have := hq.2 k hqk hki
      omega
  exact hlast q (lt_trans hk hkq) hq.1 hql

theorem mem_children_iff_parent? {p c : o.Id} : c ∈ o.children p ↔ o.parent? c = some p := by
  rw [mem_children_iff]
  constructor
  · rintro ⟨⟨hlt, hdeep⟩, hl⟩
    refine parent?_eq_some_iff.mpr ⟨hlt, hl, fun k hk hkc => ?_⟩
    have := hdeep k hk (le_of_lt hkc)
    omega
  · intro hp
    exact ⟨o.within_of_parent? rising hp, (parent?_eq_some_iff.mp hp).2.1⟩

theorem parent?_eq_none_iff {i : o.Id} : o.parent? i = none ↔ (o.get i).level = 0 := by
  constructor
  · intro h
    by_contra hl
    obtain ⟨p, hp, hpl⟩ := o.exists_within rising i ((o.get i).level - 1) (by omega)
    have hmem : i ∈ o.children p := mem_children_iff.mpr ⟨hp, by omega⟩
    rw [o.mem_children_iff_parent? rising, h] at hmem
    contradiction
  · intro hl
    rw [parent?, hl]

theorem topLevel_eq : o.topLevel = o.ids.filter fun i => (o.parent? i).isNone := by
  rw [topLevel]
  apply List.filter_congr
  intro i _
  rw [Bool.eq_iff_iff, decide_eq_true_eq, Option.isNone_iff_eq_none, o.parent?_eq_none_iff rising]

/-- A symbol has as many others around it as its level says. -/
theorem length_ancestors (i : o.Id) : (o.ancestors i).length = (o.get i).level + 1 := by
  fun_induction ancestors o i with
  | case1 i p hp _ ih =>
    have := (parent?_eq_some_iff.mp hp).2.1
    rw [List.length_cons, ih]
    omega
  | case2 i hp =>
    rw [o.parent?_eq_none_iff rising] at hp
    rw [hp, List.length_singleton]

end Rising

end PlsqlNav.Outline
