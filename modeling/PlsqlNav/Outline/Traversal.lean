import PlsqlNav.Outline

/-! Walking an outline in preorder with a stack of symbols still to visit. -/
namespace PlsqlNav.Outline

variable (o : Outline)

/-- Ids weigh less the later they come, so that a symbol outweighs all that may follow it. -/
def weight : List o.Id → Nat
  | [] => 0
  | i :: pending => Nat.pow 2 (o.symbols.size - i.val) + weight pending

variable {o}

theorem weight_append (xs ys : List o.Id) : o.weight (xs ++ ys) = o.weight xs + o.weight ys := by
  induction xs with
  | nil => simp [weight]
  | cons i xs ih => simp [weight, ih, Nat.add_assoc]

theorem children_ascend (i : o.Id) : (o.children i).Pairwise (· < ·) := by
  have h : (o.children i).Sublist o.ids :=
    (List.filter_sublist.trans (List.takeWhile_sublist _)).trans (List.drop_sublist _ _)
  exact List.Pairwise.sublist h (by simpa [ids] using List.pairwise_lt_finRange (n := o.symbols.size))

theorem weight_lt_of_later {i : o.Id} {js : List o.Id} (asc : js.Pairwise (· < ·))
    (later : ∀ j ∈ js, i < j) : o.weight js < Nat.pow 2 (o.symbols.size - i.val) := by
  induction js generalizing i with
  | nil => exact Nat.pow_pos (by decide)
  | cons j js ih =>
    have hj : i < j := later j (by simp)
    have hjs := ih (i := j) asc.of_cons fun _ hk => List.rel_of_pairwise_cons asc hk
    have hp : Nat.pow 2 (o.symbols.size - j.val + 1) ≤ Nat.pow 2 (o.symbols.size - i.val) :=
      Nat.pow_le_pow_right (by decide) (by have := j.isLt; have := Fin.lt_def.mp hj; omega)
    rw [Nat.pow, Nat.mul_eq] at hp
    simp only [weight] at hjs ⊢
    omega

variable (o)

/-- Visits each pending symbol, then what is inside it, before the next pending one. -/
def preorder : List o.Id → List o.Id
  | [] => []
  | i :: pending => i :: preorder (o.children i ++ pending)
termination_by pending => o.weight pending
decreasing_by
  have h := weight_lt_of_later (children_ascend i) fun _ => lt_of_mem_children
  rw [weight_append]
  simp only [weight]
  omega

/-- The symbols of `scope`, with what is inside them when `deep`. -/
def walk (scope : List o.Id) (deep : Bool) : List o.Id :=
  if deep then o.preorder scope else scope

def everySymbol : List o.Id := o.preorder o.topLevel

theorem preorder_cons (i : o.Id) (pending : List o.Id) :
    o.preorder (i :: pending) = i :: o.preorder (o.children i ++ pending) := by
  rw [preorder]

end PlsqlNav.Outline
