import PlsqlNav.Proofs.Outline.Levels

/-! Preorder visits the symbols of an outline in text order: a symbol is followed by what is inside it,
and that by the next symbol of its level. -/
namespace PlsqlNav.Outline

variable {o : Outline}

theorem val_of_drop_ids {n : Nat} {i : o.Id} {is : List o.Id} (h : o.ids.drop n = i :: is) :
    i.val = n := by
  have hget : (o.ids.drop n)[0]? = some i := by rw [h]; rfl
  rw [List.getElem?_drop, Nat.add_zero, ids, List.getElem?_eq_some_iff] at hget
  obtain ⟨hn, rfl⟩ := hget
  simp

theorem drop_ids_succ {n : Nat} {i : o.Id} {is : List o.Id} (h : o.ids.drop n = i :: is) :
    o.ids.drop (n + 1) = is := by
  rw [← List.drop_drop, h]
  rfl

/-- What is inside `i` are the symbols after it up to the next one that is not deeper. -/
theorem inside_eq {i : o.Id} {inner rest : List o.Id} (h : o.ids.drop (i.val + 1) = inner ++ rest)
    (hin : ∀ j ∈ inner, (o.get i).level < (o.get j).level)
    (hrest : ∀ j ∈ rest.head?, (o.get j).level ≤ (o.get i).level) : o.inside i = inner := by
  have hnil : rest.takeWhile (fun j => (o.get i).level < (o.get j).level) = [] := by
    cases rest with
    | nil => rfl
    | cons j rest =>
      have := hrest j rfl
      rw [List.takeWhile_cons, if_neg (by rw [decide_eq_true_eq]; omega)]
  rw [inside, h, List.takeWhile_append_of_pos fun j hj => decide_eq_true (hin j hj), hnil,
    List.append_nil]

/-- A row of symbols splits where it first comes back to a level. -/
theorem exists_deeper_prefix (level : Nat) (xs : List o.Id) :
    ∃ inner outer, xs = inner ++ outer ∧ (∀ j ∈ inner, level < (o.get j).level) ∧
      ∀ j ∈ outer.head?, (o.get j).level ≤ level := by
  refine ⟨xs.takeWhile fun j => level < (o.get j).level,
    xs.dropWhile fun j => level < (o.get j).level, List.takeWhile_append_dropWhile.symm, ?_, ?_⟩
  · intro j hj
    exact of_decide_eq_true (List.all_eq_true.mp List.all_takeWhile j hj)
  · intro j hj
    have := List.head?_dropWhile_not (fun j => decide (level < (o.get j).level)) xs
    rw [Option.mem_def.mp hj] at this
    simpa using this

theorem filter_siblings {level : Nat} {i : o.Id} {inner outer : List o.Id}
    (hi : (o.get i).level = level) (hinner : ∀ j ∈ inner, level < (o.get j).level) :
    ((i :: (inner ++ outer)).filter fun j => (o.get j).level = level) =
      i :: outer.filter fun j => (o.get j).level = level := by
  have hnone : (inner.filter fun j => (o.get j).level = level) = [] := by
    rw [List.filter_eq_nil_iff]
    intro j hj
    have := hinner j hj
    rw [decide_eq_true_eq]
    omega
  rw [List.filter_cons, if_pos (decide_eq_true hi), List.filter_append, hnone, List.nil_append]

/-- The symbol after `i` is one level deeper where it is deeper at all. -/
theorem level_of_next (rising : o.Rising) {i j : o.Id} (hj : j.val = i.val + 1)
    (hlt : (o.get i).level < (o.get j).level) : (o.get j).level = (o.get i).level + 1 := by
  obtain ⟨p, hp, hle⟩ := rising j (by omega)
  have hpi : p = i := Fin.ext (by omega)
  rw [hpi] at hle
  omega

/-- Siblings, with what is inside them, in a row: `xs` goes on to the next symbol that is above them.
The induction is on the row, whose first sibling splits it into what is inside and what follows. -/
theorem preorder_siblings (rising : o.Rising) {level : Nat} :
    ∀ (xs ys : List o.Id) (n : Nat), o.ids.drop n = xs ++ ys →
      (∀ j ∈ xs, level ≤ (o.get j).level) → (∀ j ∈ xs.head?, (o.get j).level = level) →
      (∀ j ∈ ys.head?, (o.get j).level ≤ level) → ∀ pending : List o.Id,
      o.preorder ((xs.filter fun j => (o.get j).level = level) ++ pending) =
        xs ++ o.preorder pending := by
  intro xs
  induction hk : xs.length using Nat.strongRecOn generalizing xs level with
  | _ k ih =>
  intro ys n hids hdeep hhead hys pending
  cases xs with
  | nil => rfl
  | cons i xs =>
    subst hk
    have hi : (o.get i).level = level := hhead i rfl
    have hval : i.val = n := val_of_drop_ids hids
    have hnext : o.ids.drop (n + 1) = xs ++ ys := drop_ids_succ hids
    obtain ⟨inner, outer, rfl, hinner, houter⟩ := exists_deeper_prefix level xs
    have hrest : ∀ j ∈ (outer ++ ys).head?, (o.get j).level ≤ level := by
      intro j hj
      cases outer with
      | nil => exact hys j hj
      | cons o' outer => exact houter j hj
    have hinside : o.inside i = inner := by
      have hsplit : o.ids.drop (i.val + 1) = inner ++ (outer ++ ys) := by
        rw [hval, hnext, List.append_assoc]
      apply inside_eq hsplit
      · rw [hi]
        exact hinner
      · rw [hi]
        exact hrest
    have hchildren : o.children i = inner.filter fun j => (o.get j).level = level + 1 := by
      rw [children, hinside, hi]
    have hfirst : ∀ j ∈ inner.head?, (o.get j).level = level + 1 := by
      intro j hj
      have hlt := hinner j (List.mem_of_mem_head? hj)
      have hj1 : j.val = i.val + 1 := by
        obtain ⟨inner, rfl⟩ := List.head?_eq_some_iff.mp hj
        rw [hval]
        exact val_of_drop_ids hnext
      rw [← hi] at hlt ⊢
      exact level_of_next rising hj1 hlt
    have hafter : o.ids.drop (n + 1 + inner.length) = outer ++ ys := by
      rw [← List.drop_drop, hnext, List.append_assoc, List.drop_left]
    have hlen : (i :: (inner ++ outer)).length = inner.length + outer.length + 1 := by simp
    have hin := ih inner.length (by omega) inner rfl (outer ++ ys) (n + 1)
      (by rw [hnext, List.append_assoc]) (fun j hj => hinner j hj) hfirst
      (fun j hj => Nat.le_succ_of_le (hrest j hj))
    have hout := ih outer.length (by omega) outer rfl ys (n + 1 + inner.length) hafter
      (fun j hj => hdeep j (by simp [hj])) (fun j hj => Nat.le_antisymm (houter j hj)
        (hdeep j (by simp [List.mem_of_mem_head? hj]))) hys pending
    calc o.preorder (((i :: (inner ++ outer)).filter fun j => (o.get j).level = level) ++ pending)
        = o.preorder (i :: ((outer.filter fun j => (o.get j).level = level) ++ pending)) := by
          rw [filter_siblings hi hinner, List.cons_append]
      _ = i :: o.preorder ((inner.filter fun j => (o.get j).level = level + 1) ++
            ((outer.filter fun j => (o.get j).level = level) ++ pending)) := by
          rw [preorder_cons, hchildren]
      _ = i :: (inner ++ (outer ++ o.preorder pending)) := by rw [hin, hout]
      _ = i :: (inner ++ outer) ++ o.preorder pending := by simp

theorem everySymbol_eq_ids (rising : o.Rising) : o.everySymbol = o.ids := by
  have hfirst : ∀ j ∈ o.ids.head?, (o.get j).level = 0 := by
    intro j hj
    obtain ⟨is, his⟩ := List.head?_eq_some_iff.mp hj
    have hval : j.val = 0 := val_of_drop_ids (n := 0) (by rw [List.drop_zero, his])
    by_contra hl
    obtain ⟨p, hp, _⟩ := rising j hl
    omega
  have h := preorder_siblings rising o.ids [] 0 (by simp) (fun j _ => Nat.zero_le _) hfirst
    (by simp) []
  have hnil : o.preorder [] = [] := by rw [preorder]
  rw [hnil, List.append_nil, List.append_nil] at h
  exact h

end PlsqlNav.Outline
