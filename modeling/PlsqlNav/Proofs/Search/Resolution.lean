import Mathlib.Tactic.ByContra
import PlsqlNav.Search.Navigator

/-! What questions about names answer: a symbol of that name, in the scope that was asked for. -/
namespace PlsqlNav

theorem Symbol.isNamed_trans {x y : Symbol} {name : String} (h : x.isNamed y.name)
    (k : y.isNamed name) : x.isNamed name := Text.sameName_trans h k

namespace Outline

variable {o : Outline} {scope : List o.Id} {deep : Bool} {name : String} {wanted : Flavour} {i : o.Id}

theorem namedFrom?_isNamed {offset : Nat} (h : o.namedFrom? scope deep name offset = some i) :
    (o.get i).isNamed name := by
  have hi := List.find?_some h
  rw [Bool.and_eq_true] at hi
  exact hi.1

theorem namedOf?_eq_some {kind : Symbol.Kind} (h : o.namedOf? scope deep name [kind] = some i) :
    i ∈ o.walk scope deep ∧ (o.get i).isNamed name ∧ (o.get i).kind = kind := by
  have hi := List.find?_some h
  rw [Bool.and_eq_true, List.contains_iff_mem, List.mem_singleton] at hi
  exact ⟨List.mem_of_find?_eq_some h, hi⟩

theorem resolveIn_eq (top : o.Id) (name : String) (wanted : Flavour) :
    o.resolveIn top name wanted = (o.namedFrom? [top] true name 0).map fun first =>
      if (o.get first).kind.mismatches wanted then
        (o.namedOf? [top] true name [(o.get first).kind.counterpart]).getD first
      else first := by
  rw [resolveIn]
  cases o.namedFrom? [top] true name 0 with
  | none => rfl
  | some first => exact (apply_ite some _ _ _).symm

theorem resolveIn_eq_none_iff {top : o.Id} :
    o.resolveIn top name wanted = none ↔ o.namedFrom? [top] true name 0 = none := by
  rw [resolveIn_eq, Option.map_eq_none_iff]

/-- The first symbol of the name in the subtree, or its counterpart where it has the wrong flavour. -/
theorem resolveIn_cases {top : o.Id} (h : o.resolveIn top name wanted = some i) :
    ∃ first, o.namedFrom? [top] true name 0 = some first ∧
      (i = first ∨ (o.get first).kind.mismatches wanted ∧
        o.namedOf? [top] true name [(o.get first).kind.counterpart] = some i) := by
  rw [resolveIn_eq, Option.map_eq_some_iff] at h
  obtain ⟨first, hfirst, hi⟩ := h
  refine ⟨first, hfirst, ?_⟩
  split at hi
  · next hwrong =>
    cases hother : o.namedOf? [top] true name [(o.get first).kind.counterpart] with
    | none =>
      rw [hother, Option.getD_none] at hi
      exact .inl hi.symm
    | some j =>
      rw [hother, Option.getD_some] at hi
      exact .inr ⟨hwrong, congrArg some hi⟩
  · exact .inl hi.symm

theorem resolveIn_isNamed {top : o.Id} (h : o.resolveIn top name wanted = some i) :
    (o.get i).isNamed name := by
  obtain ⟨first, hfirst, rfl | ⟨_, hi⟩⟩ := resolveIn_cases h
  · exact namedFrom?_isNamed hfirst
  · exact (namedOf?_eq_some hi).2.1

/-- The other part of a package in the same file. -/
theorem packageCounterpart_of_ne (h : o.packageCounterpart i ≠ i) :
    o.packageCounterpart i ∈ o.topLevel ∧ (o.get (o.packageCounterpart i)).isNamed (o.get i).name ∧
      (o.get (o.packageCounterpart i)).kind = (o.get i).kind.counterpart := by
  have hpackage : (o.get i).kind.isPackage := by
    by_contra hother
    exact h (if_neg hother)
  have heq : o.packageCounterpart i =
      (o.namedOf? o.topLevel false (o.get i).name [(o.get i).kind.counterpart]).getD i :=
    if_pos hpackage
  rw [heq] at h ⊢
  cases hother : o.namedOf? o.topLevel false (o.get i).name [(o.get i).kind.counterpart] with
  | none =>
    rw [hother] at h
    exact absurd rfl h
  | some j => exact namedOf?_eq_some hother

theorem foldl_latest_eq_some {js : List o.Id} {found : Option o.Id}
    (h : js.foldl o.latest found = some i) : i ∈ js ∨ found = some i := by
  induction js generalizing found with
  | nil => exact .inr h
  | cons j js ih =>
    rcases ih h with hi | hi
    · exact .inl (List.mem_cons_of_mem j hi)
    · cases found with
      | none =>
        cases hi
        exact .inl List.mem_cons_self
      | some k =>
        rw [latest] at hi
        split at hi
        · exact .inr hi
        · cases hi
          exact .inl List.mem_cons_self

theorem declarationAt?_eq_some {offset : Nat} (h : o.declarationAt? name offset = some i) :
    ((o.get i).kind.isRoutine ∨ (o.get i).kind.isPackage) ∧ (o.get i).isNamed name := by
  rcases foldl_latest_eq_some h with hi | hi
  · rw [List.mem_filter, Bool.and_eq_true, Bool.and_eq_true, Bool.or_eq_true] at hi
    exact hi.2.1
  · contradiction

theorem enclosing?_isBlock {offset : Nat} (h : o.enclosing? offset = some i) :
    (o.get i).kind.isBlock := by
  obtain ⟨near, _, hi⟩ := Option.bind_eq_some_iff.mp h
  have hblock := List.find?_some hi
  rw [Bool.and_eq_true] at hblock
  exact hblock.1

end Outline

end PlsqlNav
