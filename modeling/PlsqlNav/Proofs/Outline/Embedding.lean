import Mathlib.Data.List.Sort
import PlsqlNav.Proofs.Outline.Levels

/-! An outline that holds the symbols of another in a row. Where the row ends, a new declaration of the
top level starts, so that parents and children within the row are those of the other outline. -/
namespace PlsqlNav.Outline

variable {o part : Outline} {n : Nat}

/-- The symbols of `part` stand in `o` after `n` others, and the symbol after them is no part of them. -/
structure Contains (o part : Outline) (n : Nat) : Prop where
  fits : n + part.symbols.size ≤ o.symbols.size
  level : ∀ (i : part.Id) (j : o.Id), j.val = n + i.val → (o.get j).level = (part.get i).level
  next : ∀ j : o.Id, j.val = n + part.symbols.size → (o.get j).level = 0

namespace Contains
variable (h : o.Contains part n)

/-- Where a symbol of the part stands in the whole. -/
def embed (i : part.Id) : o.Id :=
  ⟨n + i.val, Nat.lt_of_lt_of_le (Nat.add_lt_add_left i.isLt n) h.fits⟩

theorem embed_lt {i j : part.Id} : h.embed i < h.embed j ↔ i < j := by
  rw [Fin.lt_def, Fin.lt_def]
  exact Nat.add_lt_add_iff_left

theorem level_embed (i : part.Id) : (o.get (h.embed i)).level = (part.get i).level :=
  h.level i _ rfl

theorem exists_embed {i : part.Id} {k : o.Id} (hik : h.embed i < k)
    (hk : k.val < n + part.symbols.size) : ∃ j, k = h.embed j ∧ i < j := by
  rw [Fin.lt_def] at hik
  have hik : n + i.val < k.val := hik
  refine ⟨⟨k.val - n, by omega⟩, Fin.ext ?_, ?_⟩
  · show k.val = n + (k.val - n)
    omega
  · rw [Fin.lt_def]
    show i.val < k.val - n
    omega

theorem embed_val_lt (i : part.Id) : (h.embed i).val < n + part.symbols.size :=
  Nat.add_lt_add_left i.isLt n

theorem parent?_embed (rising : part.Rising) (i : part.Id) :
    o.parent? (h.embed i) = (part.parent? i).map h.embed := by
  cases hp : part.parent? i with
  | none =>
    rw [part.parent?_eq_none_iff rising] at hp
    rw [parent?, h.level_embed, hp]
    rfl
  | some p =>
    obtain ⟨hlt, hlevel, hlast⟩ := parent?_eq_some_iff.mp hp
    refine parent?_eq_some_iff.mpr ⟨h.embed_lt.mpr hlt, ?_, fun k hpk hki => ?_⟩
    · rw [h.level_embed, h.level_embed, hlevel]
    · obtain ⟨j, rfl, hpj⟩ := h.exists_embed hpk (Nat.lt_trans hki (h.embed_val_lt i))
      rw [h.level_embed, h.level_embed]
      exact hlast j hpj (h.embed_lt.mp hki)

/-- What is inside a symbol of the part does not go on behind the part. -/
theorem within_embed {i : part.Id} {k : o.Id} (hk : o.Within (h.embed i) k) :
    ∃ j, k = h.embed j := by
  by_cases hlt : k.val < n + part.symbols.size
  · obtain ⟨j, rfl, _⟩ := h.exists_embed hk.1 hlt
    exact ⟨j, rfl⟩
  · have hsize : n + part.symbols.size < o.symbols.size := by
      have := k.isLt
      omega
    have hnext := h.next ⟨n + part.symbols.size, hsize⟩ rfl
    have hdeep := hk.2 ⟨n + part.symbols.size, hsize⟩ (h.embed_val_lt i)
      (Nat.le_of_not_lt hlt)
    omega

theorem children_embed (rising : o.Rising) (prising : part.Rising) (i : part.Id) :
    o.children (h.embed i) = (part.children i).map h.embed := by
  have hmap : ((part.children i).map h.embed).Pairwise (· < ·) :=
    (children_ascend i).map _ fun _ _ => h.embed_lt.mpr
  refine List.Pairwise.eq_of_mem_iff (children_ascend _) hmap fun k => ?_
  rw [List.mem_map]
  constructor
  · intro hk
    obtain ⟨j, rfl⟩ := h.within_embed (mem_children_iff.mp hk).1
    rw [o.mem_children_iff_parent? rising, h.parent?_embed prising] at hk
    obtain ⟨p, hp, hpi⟩ := Option.map_eq_some_iff.mp hk
    have hpi : p = i := Fin.ext (Nat.add_left_cancel (congrArg Fin.val hpi))
    exact ⟨j, (part.mem_children_iff_parent? prising).mpr (hpi ▸ hp), rfl⟩
  · rintro ⟨j, hj, rfl⟩
    rw [part.mem_children_iff_parent? prising] at hj
    rw [o.mem_children_iff_parent? rising, h.parent?_embed prising, hj]
    rfl

end Contains

end PlsqlNav.Outline
