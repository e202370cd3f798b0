import PlsqlNav.Proofs.Outline.Ancestors

/-! Walking an outline with a stack comes to the same as traversing it by recursion: each symbol of the
scope, in order, and after it what is inside it. A symbol and what is inside it stand in a row: they are
the symbols from it up to the next one that does not have it around. -/
namespace PlsqlNav.Outline

variable {o : Outline}

/-- A walk under way. The last symbol on the stack comes next. -/
structure Walker (o : Outline) where
  stack : Array o.Id
  deep : Bool

namespace Walker

def ofScope (scope : List o.Id) (deep : Bool) : Walker o := ⟨scope.reverse.toArray, deep⟩

/-- Visits a symbol. In a deep walk its children come next, the first of them last on the stack. -/
def next? (w : Walker o) : Option (o.Id × Walker o) :=
  match w.stack.back? with
  | none => none
  | some i =>
    let inner := if w.deep then (o.children i).reverse else []
    some (i, { w with stack := w.stack.pop ++ inner })

/-- The walk ends, and visits these symbols until then. -/
inductive Yields : Walker o → List o.Id → Prop where
  | done {w : Walker o} : w.next? = none → Yields w []
  | visit {w w' : Walker o} {i : o.Id} {visited : List o.Id} :
      w.next? = some (i, w') → Yields w' visited → Yields w (i :: visited)

theorem next?_ofScope_nil (deep : Bool) : (ofScope ([] : List o.Id) deep).next? = none := rfl

theorem next?_ofScope_cons (i : o.Id) (pending : List o.Id) (deep : Bool) :
    (ofScope (i :: pending) deep).next? =
      some (i, ofScope ((if deep then o.children i else []) ++ pending) deep) := by
  simp only [next?, ofScope, List.reverse_cons, List.back?_toArray, List.getLast?_concat,
    List.pop_toArray, List.dropLast_concat, List.reverse_append]
  cases deep with
  | false => simp
  | true => simp

theorem Yields.unique {w : Walker o} {xs ys : List o.Id} (hx : w.Yields xs) (hy : w.Yields ys) :
    xs = ys := by
  induction hx generalizing ys with
  | done hnone =>
    cases hy with
    | done => rfl
    | visit hsome => exact absurd (hnone.symm.trans hsome) (by simp)
  | visit hsome _ ih =>
    cases hy with
    | done hnone => exact absurd (hnone.symm.trans hsome) (by simp)
    | visit hsome' hy =>
      cases hsome.symm.trans hsome'
      rw [ih hy]

theorem yields_preorder (scope : List o.Id) : (ofScope scope true).Yields (o.preorder scope) := by
  fun_induction preorder o scope with
  | case1 => exact .done (next?_ofScope_nil true)
  | case2 i pending ih => exact .visit (next?_ofScope_cons i pending true) ih

theorem yields_scope (scope : List o.Id) : (ofScope scope false).Yields scope := by
  induction scope with
  | nil => exact .done (next?_ofScope_nil false)
  | cons i pending ih => exact .visit (next?_ofScope_cons i pending false) ih

theorem yields_iff (scope : List o.Id) (deep : Bool) (visited : List o.Id) :
    (ofScope scope deep).Yields visited ↔ visited = o.walk scope deep := by
  have hwalk : (ofScope scope deep).Yields (o.walk scope deep) := by
    cases deep with
    | false => exact yields_scope scope
    | true => exact yields_preorder scope
  constructor
  · intro h
    exact h.unique hwalk
  · rintro rfl
    exact hwalk

end Walker

theorem preorder_append (xs ys : List o.Id) :
    o.preorder (xs ++ ys) = o.preorder xs ++ o.preorder ys := by
  fun_induction preorder o xs with
  | case1 => rfl
  | case2 i pending ih =>
    rw [List.cons_append, preorder_cons, ← List.append_assoc, ih, List.cons_append]

/-- What is pending on the stack is walked one after another, each with all that is inside it. -/
theorem preorder_eq_flatMap (scope : List o.Id) :
    o.preorder scope = scope.flatMap fun i => i :: o.preorder (o.children i) := by
  induction scope with
  | nil => rw [preorder, List.flatMap_nil]
  | cons i pending ih =>
    rw [preorder_cons, preorder_append, List.flatMap_cons, ← ih, List.cons_append]

/-- The symbols from `i` up to the next one that does not have `i` around it. -/
def family (o : Outline) (i : o.Id) : List o.Id :=
  (o.ids.drop i).takeWhile fun j => i ∈ o.ancestors j

theorem drop_ids (i : o.Id) : o.ids.drop i = i :: o.ids.drop (i + 1) := by
  have hi : i.val < o.ids.length := by
    rw [ids, List.length_finRange]
    exact i.isLt
  rw [List.drop_eq_getElem_cons hi]
  simp [ids]

section Rising
variable (rising : o.Rising)
include rising

theorem family_eq (i : o.Id) : o.family i = i :: o.inside i := by
  obtain ⟨inner, outer, hsplit, hinner, houter⟩ :=
    exists_deeper_prefix (o.get i).level (o.ids.drop (i.val + 1))
  have hinside := inside_eq hsplit hinner houter
  have hin : ∀ j ∈ inner, i ∈ o.ancestors j := by
    intro j hj
    rw [← hinside, mem_inside_iff] at hj
    exact (mem_ancestors_iff rising).mpr (.inr hj)
  have hout : outer.takeWhile (fun j => i ∈ o.ancestors j) = [] := by
    cases outer with
    | nil => rfl
    | cons j outer =>
      rw [List.takeWhile_cons, if_neg]
      rw [decide_eq_true_eq, mem_ancestors_iff rising]
      rintro (rfl | hwithin)
      · have hmem : i ∈ o.ids.drop (i.val + 1) := by
          rw [hsplit]
          exact List.mem_append_right inner List.mem_cons_self
        exact absurd (mem_drop_ids.mp hmem) (by omega)
      · exact absurd (hwithin.2 j hwithin.1 (le_refl j)) (Nat.not_lt.mpr (houter j rfl))
  rw [family, drop_ids, List.takeWhile_cons, if_pos (decide_eq_true (self_mem_ancestors i)), hsplit,
    List.takeWhile_append_of_pos fun j hj => decide_eq_true (hin j hj), hout, List.append_nil, hinside]

theorem mem_family {i j : o.Id} : j ∈ o.family i ↔ i ∈ o.ancestors j := by
  rw [family_eq rising, ← preorder_singleton rising, mem_preorder_singleton rising]

theorem preorder_eq_families (scope : List o.Id) : o.preorder scope = scope.flatMap o.family := by
  have hfamily (i : o.Id) : i :: o.preorder (o.children i) = o.family i := by
    rw [family_eq rising, ← preorder_singleton rising, preorder_cons, List.append_nil]
  rw [preorder_eq_flatMap]
  simp only [hfamily]

end Rising

/-- The walks over an outline visit its symbols in preorder. -/
structure WalksInPreorder (o : Outline) : Prop where
  /-- A walk ends, and has visited one list of symbols by then. -/
  yields : ∀ scope deep visited,
    (Walker.ofScope scope deep).Yields visited ↔ visited = o.walk scope deep
  recursive : ∀ scope, o.walk scope true = scope.flatMap fun i => i :: o.walk (o.children i) true
  families : ∀ scope, o.walk scope true = scope.flatMap o.family
  /-- No symbol that has `i` around it comes later than the row of these. -/
  family : ∀ i j, j ∈ o.family i ↔ i ∈ o.ancestors j
  shallow : ∀ scope, o.walk scope false = scope

/-- The walks over the outline of any text visit each symbol of their scope and what is inside it, as
often as the scope has it. -/
theorem ofText_walksInPreorder (file text : String) : (ofText file text).WalksInPreorder := by
  have rising := ofText_rising file text
  exact {
    yields := Walker.yields_iff
    recursive := preorder_eq_flatMap
    families := preorder_eq_families rising
    family := fun _ _ => mem_family rising
    shallow := fun _ => rfl }

end PlsqlNav.Outline
