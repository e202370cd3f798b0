import PlsqlNav.Proofs.Outline.Ancestors

/-! The scope around a position. Climbing from the nearest symbol before it finds what a search over all
scopes would find: the innermost one that is open there. -/
namespace PlsqlNav.Outline

/-- `i` is the last symbol that starts before `offset`. -/
structure NearestBefore (o : Outline) (offset : Nat) (i : o.Id) : Prop where
  start_lt : (o.get i).start < offset
  last : ∀ j, (o.get j).start < offset → (o.get j).start ≤ (o.get i).start

/-- The position lies between the start and the stop of the scope of `i`. -/
structure Encloses (o : Outline) (offset : Nat) (i : o.Id) : Prop where
  isBlock : (o.get i).kind.isBlock
  start_lt : (o.get i).start < offset
  lt_stop : ∃ e, (o.get i).stop = some e ∧ offset < e

/-- All other scopes that are open at the position start before `s`, are around it and do not stop
before it. -/
structure InnermostAt (o : Outline) (offset : Nat) (s : o.Id) : Prop where
  encloses : o.Encloses offset s
  others : ∀ r, o.Encloses offset r → r ≠ s → (o.get r).start < (o.get s).start ∧
    r ∈ o.ancestors s ∧ ∀ e e', (o.get r).stop = some e → (o.get s).stop = some e' → e' ≤ e

variable {o : Outline} {text : List Char} {pos offset : Nat} {i j near r s : o.Id}

/-- What the climb from the nearest symbol looks for. -/
def isOpenAt (o : Outline) (offset : Nat) (i : o.Id) : Bool :=
  (o.get i).kind.isBlock && (o.get i).stop.all (offset < ·)

theorem Encloses.isOpenAt (h : o.Encloses offset i) : o.isOpenAt offset i := by
  obtain ⟨e, he, hlt⟩ := h.lt_stop
  rw [Outline.isOpenAt, h.isBlock, he, Option.all_some, decide_eq_true hlt, Bool.and_self]

theorem encloses_of_isOpenAt (h : o.isOpenAt offset i) (hstart : (o.get i).start < offset)
    (hstop : (o.get i).stop.isSome) : o.Encloses offset i := by
  obtain ⟨e, he⟩ := Option.isSome_iff_exists.mp hstop
  rw [isOpenAt, Bool.and_eq_true, he, Option.all_some, decide_eq_true_iff] at h
  exact ⟨h.1, hstart, e, he, h.2⟩

theorem le_of_getLast? {js : List o.Id} (asc : js.Pairwise (· < ·)) (h : js.getLast? = some i) :
    i ∈ js ∧ ∀ j ∈ js, j ≤ i := by
  obtain ⟨front, rfl⟩ := List.getLast?_eq_some_iff.mp h
  refine ⟨List.mem_concat_self, fun j hj => ?_⟩
  rcases List.mem_append.mp hj with hj | hj
  · exact le_of_lt ((List.pairwise_append.mp asc).2.2 j hj i (List.mem_singleton_self i))
  · exact le_of_eq (List.mem_singleton.mp hj)

theorem getLast?_eq_some_iff_of_ascend {js : List o.Id} (asc : js.Pairwise (· < ·)) :
    js.getLast? = some i ↔ i ∈ js ∧ ∀ j ∈ js, j ≤ i := by
  constructor
  · exact le_of_getLast? asc
  · rintro ⟨hi, hle⟩
    have hlast := List.getLast?_eq_some_getLast (List.ne_nil_of_mem hi)
    obtain ⟨hmem, hge⟩ := le_of_getLast? asc hlast
    rw [hlast, le_antisymm (hle _ hmem) (hge i hi)]

section Rising
variable (rising : o.Rising)
include rising

/-- What is around a symbol comes from the inside out. -/
theorem ancestors_pairwise (i : o.Id) : (o.ancestors i).Pairwise fun a b => o.Within b a := by
  fun_induction ancestors o i with
  | case1 i p hp _ ih =>
    refine List.pairwise_cons.mpr ⟨fun a ha => ?_, ih⟩
    have hpi := o.within_of_parent? rising hp
    rcases (mem_ancestors_iff rising).mp ha with rfl | hap
    · exact hpi
    · exact hap.trans hpi
  | case2 i hnone => exact List.pairwise_singleton _ i

/-- The first open scope on the way out is inside all other open ones. -/
theorem within_of_find?_ancestors {p : o.Id → Bool} (hs : (o.ancestors near).find? p = some s)
    (hr : r ∈ o.ancestors near) (hp : p r) (hne : r ≠ s) : o.Within r s := by
  obtain ⟨_, inner, outer, hsplit, hinner⟩ := List.find?_eq_some_iff_append.mp hs
  have hpairs := ancestors_pairwise rising near
  rw [hsplit] at hr hpairs
  rcases List.mem_append.mp hr with hr | hr
  · have hnot := hinner r hr
    rw [hp] at hnot
    contradiction
  · rcases List.mem_cons.mp hr with rfl | hr
    · contradiction
    · exact List.rel_of_pairwise_cons (List.pairwise_append.mp hpairs).2.1 hr

end Rising

section Recorded
variable (h : Scan.Recorded text pos [] o.symbols)
include h

theorem start_lt_start_iff : (o.get i).start < (o.get j).start ↔ i < j := by
  have hlt (i j : o.Id) (hij : i < j) : (o.get i).start < (o.get j).start :=
    h.ascend _ _ _ _ hij (getElem?_symbols i) (getElem?_symbols j)
  constructor
  · intro hstart
    rcases lt_trichotomy i j with hij | rfl | hji
    · exact hij
    · exact absurd hstart (lt_irrefl _)
    · exact absurd (hlt j i hji) (lt_asymm hstart)
  · exact hlt i j

theorem start_le_start_iff : (o.get i).start ≤ (o.get j).start ↔ i ≤ j := by
  rw [← not_lt, start_lt_start_iff h, not_lt]

theorem lastBefore?_eq_some_iff :
    o.lastBefore? o.topLevel true offset = some i ↔ o.NearestBefore offset i := by
  have hall : o.walk o.topLevel true = o.ids := everySymbol_eq_ids (rising_of_recorded h)
  have hmem (j : o.Id) : j ∈ o.ids.filter (fun k => (o.get k).start < offset) ↔
      (o.get j).start < offset := by
    rw [List.mem_filter, decide_eq_true_iff]
    exact and_iff_right (List.mem_finRange j)
  rw [lastBefore?, hall, getLast?_eq_some_iff_of_ascend (ids_ascend.sublist List.filter_sublist), hmem]
  constructor
  · rintro ⟨hi, hle⟩
    exact ⟨hi, fun j hj => (start_le_start_iff h).mpr (hle j ((hmem j).mpr hj))⟩
  · rintro ⟨hi, hle⟩
    exact ⟨hi, fun j hj => (start_le_start_iff h).mp (hle j ((hmem j).mp hj))⟩

theorem enclosing?_eq_some_iff : o.enclosing? offset = some s ↔
    ∃ near, o.NearestBefore offset near ∧ (o.ancestors near).find? (o.isOpenAt offset) = some s := by
  have heq : o.enclosing? offset = (o.lastBefore? o.topLevel true offset).bind fun near =>
    (o.ancestors near).find? (o.isOpenAt offset) := rfl
  simp only [heq, Option.bind_eq_some_iff, lastBefore?_eq_some_iff h]

/-- A scope that is open at a position is around the nearest symbol before it. -/
theorem Encloses.mem_ancestors (hr : o.Encloses offset r) (hnear : o.NearestBefore offset near) :
    r ∈ o.ancestors near := by
  obtain ⟨e, he, hlt⟩ := hr.lt_stop
  have hle : r ≤ near := (start_le_start_iff h).mp (hnear.last r hr.start_lt)
  rw [mem_ancestors_iff (rising_of_recorded h)]
  rcases eq_or_lt_of_le hle with heq | hlt'
  · exact .inl heq
  · by_contra hout
    rw [not_or] at hout
    -- Otherwise it would have closed before the nearest symbol started.
    have hstop := stop_le_of_not_within h hlt' hout.2 he
    have := hnear.start_lt
    omega

theorem exists_nearestBefore (hi : (o.get i).start < offset) : ∃ near, o.NearestBefore offset near := by
  have hne : o.ids.filter (fun k => (o.get k).start < offset) ≠ [] :=
    List.ne_nil_of_mem (List.mem_filter.mpr ⟨List.mem_finRange i, decide_eq_true hi⟩)
  have hall : o.walk o.topLevel true = o.ids := everySymbol_eq_ids (rising_of_recorded h)
  have hlast : o.lastBefore? o.topLevel true offset = some (List.getLast _ hne) := by
    rw [lastBefore?, hall]
    exact List.getLast?_eq_some_getLast hne
  exact ⟨_, (lastBefore?_eq_some_iff h).mp hlast⟩

/-- Where the nearest symbol before a position is no block without a scope, the climb finds an open
scope, and all other open ones are around it. -/
theorem innermostAt_of_enclosing? (hclosed : ∀ near, o.NearestBefore offset near →
    (o.get near).kind.isBlock → (o.get near).stop.isSome) (hs : o.enclosing? offset = some s) :
    o.InnermostAt offset s := by
  have rising := rising_of_recorded h
  obtain ⟨near, hnear, hfind⟩ := (enclosing?_eq_some_iff h).mp hs
  have hopen : o.isOpenAt offset s := List.find?_some hfind
  have hblock : (o.get s).kind.isBlock := ((Bool.and_eq_true _ _).mp hopen).1
  have haround := (mem_ancestors_iff rising).mp (List.mem_of_find?_eq_some hfind)
  have hstop : (o.get s).stop.isSome := by
    rcases haround with rfl | hin
    · exact hclosed s hnear hblock
    · exact stop_isSome_of_within h hin
  have hstart : (o.get s).start < offset := by
    rcases haround with rfl | hin
    · exact hnear.start_lt
    · exact lt_trans ((start_lt_start_iff h).mpr hin.1) hnear.start_lt
  refine ⟨encloses_of_isOpenAt hopen hstart hstop, fun r hr hne => ?_⟩
  have hin : o.Within r s :=
    within_of_find?_ancestors rising hfind (hr.mem_ancestors h hnear) hr.isOpenAt hne
  exact ⟨(start_lt_start_iff h).mpr hin.1, (mem_ancestors_iff rising).mpr (.inr hin),
    fun _ e' he he' => (lt_stop_of_within h hin he).2 e' he'⟩

theorem exists_enclosing? (hr : o.Encloses offset r) : ∃ s, o.enclosing? offset = some s := by
  obtain ⟨near, hnear⟩ := exists_nearestBefore h hr.start_lt
  obtain ⟨s, hs⟩ := Option.isSome_iff_exists.mp
    (List.find?_isSome.mpr ⟨r, hr.mem_ancestors h hnear, hr.isOpenAt⟩)
  exact ⟨s, (enclosing?_eq_some_iff h).mpr ⟨near, hnear, hs⟩⟩

end Recorded

theorem InnermostAt.unique (hr : o.InnermostAt offset r) (hs : o.InnermostAt offset s) : r = s := by
  by_contra hne
  exact lt_asymm (hs.others r hr.encloses hne).1 (hr.others s hs.encloses (Ne.symm hne)).1

/-- The enclosing scope in the outline of any text is the innermost one that is open at the position, and
there is none only where none is open. -/
theorem ofText_enclosing (file text : String) (offset : Nat)
    (hclosed : ∀ near, (Outline.ofText file text).NearestBefore offset near →
      ((Outline.ofText file text).get near).kind.isBlock →
        ((Outline.ofText file text).get near).stop.isSome) :
    ((Outline.ofText file text).enclosing? offset = none ↔
        ∀ s, ¬ (Outline.ofText file text).Encloses offset s) ∧
      ∀ s, (Outline.ofText file text).enclosing? offset = some s ↔
        (Outline.ofText file text).InnermostAt offset s := by
  obtain ⟨_, _, hrec⟩ := ofText_recorded file text
  constructor
  · constructor
    · intro hnone s hs
      obtain ⟨r, hr⟩ := exists_enclosing? hrec hs
      rw [hnone] at hr
      contradiction
    · intro hnot
      rw [Option.eq_none_iff_forall_ne_some]
      intro s hs
      exact hnot s (innermostAt_of_enclosing? hrec hclosed hs).encloses
  · intro s
    constructor
    · exact innermostAt_of_enclosing? hrec hclosed
    · intro hs
      obtain ⟨r, hr⟩ := exists_enclosing? hrec hs.encloses
      rw [hr, (innermostAt_of_enclosing? hrec hclosed hr).unique hs]

section Truncated

/-- A statement with a package header in it, then a package body that ends in the middle of a procedure. -/
def truncatedText : String :=
  "drop package a; package body p is procedure q is n number; begin null; "

abbrev truncatedOutline : Outline := .ofText "p.pkb" truncatedText

theorem truncatedOutline_size : truncatedOutline.symbols.size = 4 := by decide +kernel

def truncatedProcedure : truncatedOutline.Id := ⟨2, by rw [truncatedOutline_size]; decide⟩

def truncatedVariable : truncatedOutline.Id := ⟨3, by rw [truncatedOutline_size]; decide⟩

theorem closed_of_nearestBefore {i : truncatedOutline.Id} (hi : truncatedOutline.NearestBefore 66 i) :
    (truncatedOutline.get i).kind.isBlock → (truncatedOutline.get i).stop.isSome := by
  have hlater : ∀ i : truncatedOutline.Id,
      (truncatedOutline.get truncatedVariable).start ≤ (truncatedOutline.get i).start →
        (truncatedOutline.get i).kind.isBlock → (truncatedOutline.get i).stop.isSome := by
    decide +kernel
  exact hlater i (hi.last truncatedVariable (by decide +kernel))

theorem ofText_enclosing_truncated :
    (∀ i, truncatedOutline.NearestBefore 66 i →
      (truncatedOutline.get i).kind.isBlock → (truncatedOutline.get i).stop.isSome) ∧
    truncatedOutline.InnermostAt 66 truncatedProcedure :=
  ⟨fun _ => closed_of_nearestBefore,
    ((ofText_enclosing "p.pkb" truncatedText 66 fun _ => closed_of_nearestBefore).2
      truncatedProcedure).mp (by decide +kernel)⟩

end Truncated

end PlsqlNav.Outline
