import PlsqlNav.Proofs.Outline.Kinds
import PlsqlNav.Proofs.Search.Resolution

/-! Switching between the parts of a package in one file. A switch goes to the first unit of the name in
the other flavour, so that of several units of one name and flavour only the first is ever switched
to. -/
namespace PlsqlNav.Outline

variable {o : Outline} {name : String} {kind : Symbol.Kind} {i j s t : o.Id}

/-- A top-level symbol of this name, in any letter case, and this kind. -/
def HasUnit (o : Outline) (name : String) (kind : Symbol.Kind) (i : o.Id) : Prop :=
  i ∈ o.topLevel ∧ (o.get i).isNamed name ∧ (o.get i).kind = kind

def FirstUnit (o : Outline) (name : String) (kind : Symbol.Kind) (i : o.Id) : Prop :=
  o.HasUnit name kind i ∧ ∀ j, o.HasUnit name kind j → i ≤ j

section First

theorem find?_topLevel_le {p : o.Id → Bool} (h : o.topLevel.find? p = some i) (hj : j ∈ o.topLevel)
    (hpj : p j) : i ≤ j := by
  obtain ⟨_, before, after, hsplit, hbefore⟩ := List.find?_eq_some_iff_append.mp h
  have hascend := o.topLevel_ascend
  rw [hsplit] at hj hascend
  rcases List.mem_append.mp hj with hj | hj
  · have hnot := hbefore j hj
    rw [hpj] at hnot
    contradiction
  · rcases List.mem_cons.mp hj with rfl | hj
    · exact le_refl j
    · have hlater := (List.pairwise_append.mp hascend).2.1
      exact le_of_lt (List.rel_of_pairwise_cons hlater hj)

/-- A search through the units finds the first one that passes the test. -/
theorem find?_topLevel_eq_some_iff {p : o.Id → Bool} : o.topLevel.find? p = some i ↔
    (i ∈ o.topLevel ∧ p i) ∧ ∀ j, j ∈ o.topLevel ∧ p j → i ≤ j := by
  constructor
  · intro h
    exact ⟨⟨List.mem_of_find?_eq_some h, List.find?_some h⟩, fun j hj => find?_topLevel_le h hj.1 hj.2⟩
  · rintro ⟨⟨hi, hpi⟩, hfirst⟩
    cases hfound : o.topLevel.find? p with
    | none => exact absurd hpi (List.find?_eq_none.mp hfound i hi)
    | some j =>
      have hij : i ≤ j := hfirst j ⟨List.mem_of_find?_eq_some hfound, List.find?_some hfound⟩
      rw [le_antisymm hij (find?_topLevel_le hfound hi hpi)]

theorem hasUnit_iff : o.HasUnit name kind i ↔
    i ∈ o.topLevel ∧ ((o.get i).isNamed name && [kind].contains (o.get i).kind) := by
  rw [HasUnit, Bool.and_eq_true, List.contains_iff_mem, List.mem_singleton]

theorem namedOf?_topLevel_eq_some_iff :
    o.namedOf? o.topLevel false name [kind] = some i ↔ o.FirstUnit name kind i := by
  simp only [FirstUnit, hasUnit_iff]
  exact find?_topLevel_eq_some_iff

theorem namedOf?_topLevel_eq_none_iff :
    o.namedOf? o.topLevel false name [kind] = none ↔ ∀ j, ¬ o.HasUnit name kind j := by
  simp only [hasUnit_iff, not_and]
  exact List.find?_eq_none

end First

section Units

theorem exists_firstUnit (h : o.HasUnit name kind j) : ∃ i, o.FirstUnit name kind i := by
  cases hfound : o.namedOf? o.topLevel false name [kind] with
  | none => exact absurd h (namedOf?_topLevel_eq_none_iff.mp hfound j)
  | some i => exact ⟨i, namedOf?_topLevel_eq_some_iff.mp hfound⟩

/-- Units that are called like `i` are called like all that `i` is called like. -/
theorem hasUnit_congr (h : (o.get i).isNamed name) :
    o.HasUnit (o.get i).name kind j ↔ o.HasUnit name kind j := by
  have hnames : (o.get j).isNamed (o.get i).name ↔ (o.get j).isNamed name := by
    constructor
    · exact fun hj => Symbol.isNamed_trans hj h
    · exact fun hj => Text.sameName_trans hj (Text.sameName_comm _ name ▸ h)
  rw [HasUnit, HasUnit, hnames]

theorem firstUnit_congr (h : (o.get i).isNamed name) :
    o.FirstUnit (o.get i).name kind j ↔ o.FirstUnit name kind j := by
  simp only [FirstUnit, hasUnit_congr h]

end Units

section Counterpart

theorem packageCounterpart_eq (hs : (o.get s).kind.isPackage)
    (ht : o.FirstUnit (o.get s).name (o.get s).kind.counterpart t) : o.packageCounterpart s = t := by
  rw [packageCounterpart]
  simp only [if_pos hs, namedOf?_topLevel_eq_some_iff.mpr ht, Option.getD_some]

theorem packageCounterpart_eq_self_iff : o.packageCounterpart s = s ↔
    ¬ ((o.get s).kind.isPackage ∧ ∃ t, o.HasUnit (o.get s).name (o.get s).kind.counterpart t) := by
  constructor
  · rintro hself ⟨hs, t, ht⟩
    obtain ⟨u, hu⟩ := exists_firstUnit ht
    rw [packageCounterpart_eq hs hu] at hself
    subst hself
    exact (Symbol.Kind.counterpart_ne_iff _).mpr
      (Symbol.Kind.hasCounterpart_of_declared (.inr hs)) hu.1.2.2.symm
  · intro halone
    rw [packageCounterpart]
    by_cases hs : (o.get s).kind.isPackage
    · have hnone := namedOf?_topLevel_eq_none_iff.mpr fun t ht => halone ⟨hs, t, ht⟩
      simp only [if_pos hs, hnone, Option.getD_none]
    · exact if_neg hs

/-- Back from the other part, a switch goes to the first unit of the name and kind that it came from. -/
theorem packageCounterpart_back (hs : (o.get s).kind.isPackage)
    (ht : o.FirstUnit (o.get s).name (o.get s).kind.counterpart t) {u : o.Id}
    (hu : o.FirstUnit (o.get s).name (o.get s).kind u) : o.packageCounterpart t = u := by
  obtain ⟨_, hnamed, hkind⟩ := ht.1
  apply packageCounterpart_eq
  · rw [hkind, Symbol.Kind.isPackage_counterpart, hs]
  · rw [hkind, Symbol.Kind.counterpart_counterpart]
    exact (firstUnit_congr hnamed).mpr hu

/-- Switching between the parts of packages, where it leads and how it comes back. -/
structure PartialInvolution (o : Outline) : Prop where
  topLevel : ∀ s, (o.get s).kind.isPackage → s ∈ o.topLevel
  stays : ∀ s, o.packageCounterpart s = s ↔
    ¬ ((o.get s).kind.isPackage ∧ ∃ t, o.HasUnit (o.get s).name (o.get s).kind.counterpart t)
  leads : ∀ s t, (o.get s).kind.isPackage →
    o.FirstUnit (o.get s).name (o.get s).kind.counterpart t → o.packageCounterpart s = t
  thrice : ∀ s, o.packageCounterpart (o.packageCounterpart (o.packageCounterpart s)) =
    o.packageCounterpart s
  twice : ∀ s, (∀ t < s, ¬ o.HasUnit (o.get s).name (o.get s).kind t) →
    o.packageCounterpart (o.packageCounterpart s) = s

/-- It is enough that packages are never nested. -/
theorem partialInvolution_of_topLevel (h : ∀ s, (o.get s).kind.isPackage → s ∈ o.topLevel) :
    o.PartialInvolution := by
  have hunit {s : o.Id} (hs : (o.get s).kind.isPackage) :
      o.HasUnit (o.get s).name (o.get s).kind s := ⟨h s hs, Text.sameName_refl _, rfl⟩
  refine ⟨h, fun s => packageCounterpart_eq_self_iff, fun s t => packageCounterpart_eq, ?_, ?_⟩
  · intro s
    by_cases hself : o.packageCounterpart s = s
    · rw [hself, hself, hself]
    · rw [packageCounterpart_eq_self_iff, not_not] at hself
      obtain ⟨hs, _, hother⟩ := hself
      obtain ⟨t, ht⟩ := exists_firstUnit hother
      obtain ⟨u, hu⟩ := exists_firstUnit (hunit hs)
      obtain ⟨_, hnamed, hkind⟩ := hu.1
      have hthere : o.packageCounterpart u = t := by
        apply packageCounterpart_eq
        · rw [hkind]
          exact hs
        · rw [hkind]
          exact (firstUnit_congr hnamed).mpr ht
      rw [packageCounterpart_eq hs ht, packageCounterpart_back hs ht hu, hthere]
  · intro s hearlier
    by_cases hself : o.packageCounterpart s = s
    · rw [hself, hself]
    · rw [packageCounterpart_eq_self_iff, not_not] at hself
      obtain ⟨hs, _, hother⟩ := hself
      obtain ⟨t, ht⟩ := exists_firstUnit hother
      rw [packageCounterpart_eq hs ht]
      exact packageCounterpart_back hs ht
        ⟨hunit hs, fun u hu => le_of_not_gt fun hlt => hearlier u hlt hu⟩

/-- In the outline of any text, packages are switched between in pairs. -/
theorem ofText_partialInvolution (file text : String) : (ofText file text).PartialInvolution := by
  refine partialInvolution_of_topLevel fun s hs => ?_
  rw [topLevel_eq (ofText_rising file text), List.mem_filter, ofText_package file text hs]
  exact ⟨List.mem_finRange s, rfl⟩

/-- Of two bodies, both lead to the specification, which leads to the first. -/
example : let o := ofText "p.sql" "package p is end; package body P is end; package body p is end;"
    (o.ids.map fun s => (o.packageCounterpart s).val) = [1, 0, 0] := by decide +kernel

end Counterpart

end PlsqlNav.Outline
