import PlsqlNav.Proofs.Outline.Preorder
import PlsqlNav.Proofs.Scan.Sound

/-! The outline of any text is well formed: its symbols are numbered in preorder, lie in the text in that
order, and are nested by their extents just as they are by their levels. -/
namespace PlsqlNav

namespace Outline

variable {o : Outline} {text : List Char} {pos : Nat} {scopes : List Scope}

/-- Siblings in text order: where one has an extent, the later ones start after it. -/
def InOrder (o : Outline) (siblings : List o.Id) : Prop :=
  siblings.Pairwise fun a b => ∀ e, (o.get a).stop = some e → e ≤ (o.get b).start

structure WellFormed (text : List Char) (o : Outline) : Prop where
  preorder : o.everySymbol = List.finRange o.symbols.size
  children : ∀ p c, c ∈ o.children p ↔ o.parent? c = some p
  topLevel : o.topLevel = o.ids.filter fun i => (o.parent? i).isNone
  /-- A symbol and at most two around it. -/
  ancestors : ∀ i, (o.ancestors i).length ≤ 3
  ascend : ∀ i j, i < j → (o.get i).start < (o.get j).start
  start : ∀ i, (o.get i).start < Text.byteLength text ∧ Text.IsBoundary text (o.get i).start
  stop : ∀ i e, (o.get i).stop = some e →
    (o.get i).kind.isBlock ∧ (o.get i).start < e ∧ e ≤ Text.byteLength text
  nested : ∀ p, ∀ c ∈ o.children p, ∃ e, (o.get p).stop = some e ∧
    (o.get p).start < (o.get c).start ∧ (o.get c).start < e ∧ ∀ e', (o.get c).stop = some e' → e' ≤ e
  siblings : o.InOrder o.topLevel ∧ ∀ p, o.InOrder (o.children p)

theorem getElem?_symbols (i : o.Id) : o.symbols[i.val]? = some (o.get i) :=
  Array.getElem?_eq_getElem i.isLt

theorem get_eq_of_getElem? {i : o.Id} {n : Nat} {x : Symbol} (hi : i.val = n)
    (hx : o.symbols[n]? = some x) : o.get i = x := by
  rw [← hi, getElem?_symbols] at hx
  exact Option.some.inj hx

theorem within_iff_deeper {i j : o.Id} (hij : i < j) :
    o.Within i j ↔ Scan.Deeper o.symbols (o.get i).level i.val j.val := by
  constructor
  · rintro ⟨_, hdeep⟩ k z hik hkj hz
    obtain ⟨hlt, rfl⟩ := Array.getElem?_eq_some_iff.mp hz
    exact hdeep ⟨k, hlt⟩ hik hkj
  · intro hdeep
    exact ⟨hij, fun k hik hkj => hdeep k.val _ hik hkj (getElem?_symbols k)⟩

section Recorded
variable (h : Scan.Recorded text pos scopes o.symbols)
include h

theorem rising_of_recorded : o.Rising := by
  intro i hi
  obtain ⟨j, y, hj, hy, hle⟩ := h.rising i.val _ (getElem?_symbols i) hi
  obtain ⟨hlt, rfl⟩ := Array.getElem?_eq_some_iff.mp hy
  exact ⟨⟨j, hlt⟩, hj, hle⟩

/-- A later symbol that is not inside an earlier one starts after it. -/
theorem stop_le_of_not_within {i j : o.Id} (hij : i < j) (hin : ¬ o.Within i j) {e : Nat}
    (he : (o.get i).stop = some e) : e ≤ (o.get j).start := by
  rcases h.nested _ _ _ _ e hij (getElem?_symbols i) (getElem?_symbols j) he with hdeep | hafter
  · exact absurd ((within_iff_deeper hij).mpr hdeep.1) hin
  · exact hafter.2

theorem inOrder_of_level {siblings : List o.Id} (asc : siblings.Pairwise (· < ·)) {level : Nat}
    (hlevel : ∀ i ∈ siblings, (o.get i).level = level) : o.InOrder siblings := by
  refine asc.imp_of_mem fun {a b} ha hb hab e he => ?_
  refine stop_le_of_not_within h hab (fun hin => ?_) he
  have := hin.2 b hab (le_refl b)
  rw [hlevel a ha, hlevel b hb] at this
  exact absurd this (Nat.lt_irrefl level)

end Recorded

/-- A symbol with others inside it has a scope, which has closed. -/
theorem stop_isSome_of_within (h : Scan.Recorded text pos [] o.symbols) {i j : o.Id}
    (hij : o.Within i j) : (o.get i).stop.isSome := by
  have hnext : i.val + 1 < o.symbols.size := Nat.lt_of_le_of_lt hij.1 j.isLt
  have hdeeper := hij.2 ⟨i.val + 1, hnext⟩ (Nat.lt_succ_self _) hij.1
  rcases h.closed _ _ _ (getElem?_symbols i) (getElem?_symbols ⟨i.val + 1, hnext⟩) hdeeper with
    hstop | ⟨_, hmem, _⟩
  · exact hstop
  · contradiction

/-- What is inside a symbol lies in its scope. -/
theorem lt_stop_of_within (h : Scan.Recorded text pos scopes o.symbols) {i j : o.Id}
    (hij : o.Within i j) {e : Nat} (he : (o.get i).stop = some e) :
    (o.get j).start < e ∧ ∀ e', (o.get j).stop = some e' → e' ≤ e := by
  rcases h.nested _ _ _ _ e hij.1 (getElem?_symbols i) (getElem?_symbols j) he with hdeep | hafter
  · exact hdeep.2
  · exact absurd ((within_iff_deeper hij.1).mp hij) hafter.1

theorem wellFormed_of_recorded (h : Scan.Recorded text pos [] o.symbols)
    (hpos : pos ≤ Text.byteLength text) : o.WellFormed text := by
  have rising := rising_of_recorded h
  have hplaced (i : o.Id) := h.placed i.val _ (getElem?_symbols i)
  refine ⟨everySymbol_eq_ids rising, fun p c => mem_children_iff_parent? rising, topLevel_eq rising,
    ?_, ?_, ?_, ?_, ?_, ?_, ?_⟩
  · intro i
    have := (hplaced i).level_le
    rw [length_ancestors rising, Scan.recordedDepth] at *
    omega
  · intro i j hij
    exact h.ascend _ _ _ _ hij (getElem?_symbols i) (getElem?_symbols j)
  · intro i
    exact ⟨Nat.lt_of_lt_of_le (hplaced i).start_lt hpos, (hplaced i).boundary⟩
  · intro i e he
    obtain ⟨hblock, hlt, hle⟩ := (hplaced i).stop e he
    exact ⟨hblock, hlt, Nat.le_trans hle hpos⟩
  · intro p c hc
    have hin := (mem_children_iff.mp hc).1
    obtain ⟨e, he⟩ := Option.isSome_iff_exists.mp (stop_isSome_of_within h hin)
    exact ⟨e, he, h.ascend _ _ _ _ hin.1 (getElem?_symbols p) (getElem?_symbols c),
      lt_stop_of_within h hin he⟩
  · exact inOrder_of_level h (ids_ascend.sublist List.filter_sublist)
      fun i hi => of_decide_eq_true (List.mem_filter.mp hi).2
  · intro p
    exact inOrder_of_level h (children_ascend p) fun i hi => (mem_children_iff.mp hi).2

end Outline

theorem Outline.ofText_recorded (file text : String) : ∃ pos, pos ≤ Text.byteLength text.toList ∧
    Scan.Recorded text.toList pos [] (Outline.ofText file text).symbols := by
  obtain ⟨pos, hread, hrec⟩ := Scan.run_sound (Scan.ofText_sound text)
  have hdone := Scan.run_isDone text.toList (Scan.ofTokens (Token.ofText text))
  rw [Scan.isDone, Bool.and_eq_true, List.isEmpty_iff, List.isEmpty_iff] at hdone
  rw [hdone.2] at hrec
  exact ⟨pos, hread.laid.le, hrec⟩

theorem Outline.ofText_rising (file text : String) : (Outline.ofText file text).Rising := by
  obtain ⟨_, _, hrec⟩ := ofText_recorded file text
  exact rising_of_recorded hrec

/-- The outline of every text is well formed. -/
theorem Outline.ofText_wellFormed (file text : String) :
    (Outline.ofText file text).WellFormed text.toList := by
  obtain ⟨pos, hpos, hrec⟩ := ofText_recorded file text
  exact wellFormed_of_recorded hrec hpos

end PlsqlNav
