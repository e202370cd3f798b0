import Mathlib.Data.List.Lex
import PlsqlNav.Path

/-! Paths below a directory, and the order of paths. -/
namespace PlsqlNav

/-- A name that an entry of a directory can have. -/
structure IsFileName (name : String) : Prop where
  ne_empty : name ≠ ""
  ne_current : name ≠ "."
  ne_parent : name ≠ ".."
  no_slash : '/' ∉ name.toList

instance (name : String) : Decidable (IsFileName name) :=
  decidable_of_iff (name ≠ "" ∧ name ≠ "." ∧ name ≠ ".." ∧ '/' ∉ name.toList)
    ⟨fun ⟨h, h', h'', hslash⟩ => ⟨h, h', h'', hslash⟩, fun h => ⟨h.1, h.2, h.3, h.4⟩⟩

namespace Path

theorem same_iff {p q : Path} : p.same q ↔ p.components = q.components := beq_iff_eq

section Segments
variable {cs ds : List Char}

theorem segmentsOf_ne_nil (cs : List Char) : segmentsOf cs ≠ [] := by
  cases cs with
  | nil => simp [segmentsOf]
  | cons c cs =>
    unfold segmentsOf
    split
    · simp
    · split <;> simp

theorem segmentsOf_append : segmentsOf (cs ++ '/' :: ds) = segmentsOf cs ++ segmentsOf ds := by
  induction cs with
  | nil => simp [segmentsOf]
  | cons c cs ih =>
    obtain ⟨s, ss, hs⟩ := List.exists_cons_of_ne_nil (segmentsOf_ne_nil cs)
    by_cases hc : c = '/'
    · simp [segmentsOf, hc, ih]
    · simp [segmentsOf, hc, ih, hs]

theorem segmentsOf_of_not_mem (h : '/' ∉ cs) : segmentsOf cs = [cs] := by
  induction cs with
  | nil => rfl
  | cons c cs ih =>
    rw [List.mem_cons, not_or] at h
    rw [segmentsOf, if_neg (Ne.symm h.1), ih h.2]

end Segments

section Join
variable {p q : Path} {t : List Char} {name : String}

theorem componentOf_name (h : IsFileName name) : componentOf name = some (.name name) := by
  simp [componentOf, h.ne_empty, h.ne_current, h.ne_parent]

/-- What stands behind the last slash of a path is its last component. -/
theorem components_slash (h : IsFileName name) (hp : p.text.toList = t ++ ['/'])
    (hq : q.text.toList = t ++ '/' :: name.toList) : q.components = p.components ++ [.name name] := by
  have hpsegments : p.segments = (segmentsOf t).map String.ofList ++ [""] := by
    simp [segments, hp, segmentsOf_append, segmentsOf]
  have hqsegments : q.segments = (segmentsOf t).map String.ofList ++ [name] := by
    simp [segments, hq, segmentsOf_append, segmentsOf_of_not_mem h.no_slash]
  have hhead : q.segments.head? = p.segments.head? := by
    obtain ⟨s, ss, hs⟩ := List.exists_cons_of_ne_nil (segmentsOf_ne_nil t)
    simp [hpsegments, hqsegments, hs]
  have habsolute : q.isAbsolute = p.isAbsolute := by
    cases t <;> simp [isAbsolute, hp, hq]
  have hname : [name].filterMap componentOf = [.name name] :=
    List.filterMap_cons_some (componentOf_name h)
  have hempty : [""].filterMap componentOf = [] := rfl
  rw [components, components, hhead, habsolute, hpsegments, hqsegments, List.filterMap_append,
    List.filterMap_append, hname, hempty, List.append_nil, List.append_assoc]

/-- A slash at the end of a path does not count, unless it is the whole path. -/
theorem components_of_slash (ht : t ≠ []) (hp : p.text.toList = t) (hq : q.text.toList = t ++ ['/']) :
    q.components = p.components := by
  have hqsegments : q.segments = p.segments ++ [""] := by
    simp [segments, hp, hq, segmentsOf_append, segmentsOf]
  have hhead : q.segments.head? = p.segments.head? := by
    obtain ⟨s, ss, hs⟩ := List.exists_cons_of_ne_nil (segmentsOf_ne_nil t)
    rw [hqsegments, segments, hp, hs]
    rfl
  have habsolute : q.isAbsolute = p.isAbsolute := by
    obtain ⟨c, cs, rfl⟩ := List.exists_cons_of_ne_nil ht
    simp [isAbsolute, hp, hq]
  rw [components, components, hhead, habsolute, hqsegments]
  simp [componentOf]

theorem components_join (p : Path) (h : IsFileName name) :
    (p.join ⟨name⟩).components = p.components ++ [.name name] := by
  have hrelative : ¬ isAbsolute ⟨name⟩ := by
    intro habsolute
    exact h.no_slash (List.mem_of_mem_head? (beq_iff_eq.mp habsolute))
  by_cases hempty : p.text = ""
  · have hp : p = ⟨""⟩ := by
      cases p
      cases hempty
      rfl
    have hsegments : segments ⟨name⟩ = [name] := by
      simp [segments, segmentsOf_of_not_mem h.no_slash]
    have hcomponents : components ⟨name⟩ = [.name name] := by
      simp [components, hrelative, hsegments, h.ne_current, componentOf_name h]
    rw [join, if_neg hrelative, if_pos (.inl hempty), hp, String.empty_append, hcomponents]
    rfl
  · by_cases hlast : p.text.toList.getLast? = some '/'
    · obtain ⟨t, ht⟩ := List.getLast?_eq_some_iff.mp hlast
      refine components_slash h ht ?_
      simp [join, hrelative, ht]
    · have hq : (p.join ⟨name⟩).text.toList = p.text.toList ++ '/' :: name.toList := by
        simp [join, hrelative, hempty, hlast]
      have hslash : (String.ofList (p.text.toList ++ ['/'])).toList = p.text.toList ++ ['/'] :=
        String.toList_ofList
      rw [components_slash (p := ⟨_⟩) h hslash hq,
        components_of_slash (mt String.toList_eq_nil_iff.mp hempty) rfl hslash]

/-- What the names lead to from a path. -/
def within (p : Path) (names : List String) : Path := names.foldl (fun p name => p.join ⟨name⟩) p

theorem within_cons (p : Path) (name : String) (names : List String) :
    p.within (name :: names) = (p.join ⟨name⟩).within names := rfl

theorem components_within (p : Path) {names : List String} (h : ∀ name ∈ names, IsFileName name) :
    (p.within names).components = p.components ++ names.map .name := by
  induction names generalizing p with
  | nil => simp [within]
  | cons name names ih =>
    rw [List.forall_mem_cons] at h
    simp [within_cons, ih _ h.2, components_join p h.1]

theorem components_within_inj {names others : List String} (hnames : ∀ name ∈ names, IsFileName name)
    (hothers : ∀ name ∈ others, IsFileName name)
    (h : (p.within names).components = (p.within others).components) : names = others := by
  rw [components_within p hnames, components_within p hothers] at h
  exact (List.map_inj_right fun _ _ hname => Component.name.inj hname).mp (List.append_cancel_left h)

end Join

section Order
variable {a b c : Component} {as bs cs : List Component}

theorem Component.before_iff :
    a.before b ↔ a.rank < b.rank ∨ ∃ s t, a = .name s ∧ b = .name t ∧ s < t := by
  cases a with
  | name s =>
    cases b with
    | name t =>
      rw [before, decide_eq_true_iff]
      simp [rank]
    | _ => simp [before, rank]
  | _ => cases b <;> simp [before, rank]

theorem Component.before_trans (hab : a.before b) (hbc : b.before c) : a.before c := by
  rw [before_iff] at *
  rcases hab with hab | ⟨s, t, rfl, rfl, hst⟩
  · rcases hbc with hbc | ⟨t, u, rfl, rfl, -⟩
    · exact .inl (Nat.lt_trans hab hbc)
    · exact .inl hab
  · rcases hbc with hbc | ⟨_, u, ⟨⟩, rfl, htu⟩
    · exact .inl hbc
    · exact .inr ⟨s, u, rfl, rfl, String.lt_trans hst htu⟩

theorem Component.before_irrefl : ¬ a.before a := by
  rw [before_iff]
  rintro (h | ⟨s, _, rfl, ⟨⟩, h⟩)
  · exact Nat.lt_irrefl _ h
  · exact String.lt_irrefl s h

theorem Component.eq_or_names (h : a.rank = b.rank) : a = b ∨ ∃ s t, a = .name s ∧ b = .name t := by
  cases a <;> cases b <;> simp_all [rank]

theorem Component.before_or (a b : Component) : a.before b ∨ a = b ∨ b.before a := by
  rw [before_iff, before_iff]
  rcases Nat.lt_trichotomy a.rank b.rank with h | h | h
  · exact .inl (.inl h)
  · rcases eq_or_names h with rfl | ⟨s, t, rfl, rfl⟩
    · exact .inr (.inl rfl)
    · rcases Classical.em (s < t) with hst | hst
      · exact .inl (.inr ⟨s, t, rfl, rfl, hst⟩)
      · rcases Classical.em (s = t) with rfl | hne
        · exact .inr (.inl rfl)
        · have hts := Std.lt_of_le_of_ne (String.not_lt.mp hst) (Ne.symm hne)
          exact .inr (.inr (.inr ⟨t, s, rfl, rfl, hts⟩))
  · exact .inr (.inr (.inl h))

instance : Std.Asymm fun a b : Component => (a.before b : Prop) where
  asymm _ _ hab hba := Component.before_irrefl (Component.before_trans hab hba)

instance : Std.Trichotomous fun a b : Component => (a.before b : Prop) where
  trichotomous a b hab hba := ((Component.before_or a b).resolve_left hab).resolve_right hba

instance : IsOrderConnected Component fun a b => (a.before b : Prop) where
  conn a b c hac := by
    rcases Component.before_or a b with hab | rfl | hba
    · exact .inl hab
    · exact .inr hac
    · exact .inr (Component.before_trans hba hac)

theorem orderedComponents_iff :
    orderedComponents as bs ↔ as = bs ∨ List.Lex (fun a b => a.before b) as bs := by
  induction as generalizing bs with
  | nil =>
    cases bs with
    | nil => simp [orderedComponents]
    | cons b bs => exact iff_of_true rfl (.inr .nil)
  | cons a as ih =>
    cases bs with
    | nil => simp [orderedComponents]
    | cons b bs =>
      simp only [orderedComponents, Bool.or_eq_true, Bool.and_eq_true, beq_iff_eq, ih]
      constructor
      · rintro (hab | ⟨rfl, rfl | hlex⟩)
        · exact .inr (.rel hab)
        · exact .inl rfl
        · exact .inr (.cons hlex)
      · rintro (heq | hlex)
        · exact .inr ⟨(List.cons.inj heq).1, .inl (List.cons.inj heq).2⟩
        · cases hlex with
          | rel hab => exact .inl hab
          | cons hlex => exact .inr ⟨rfl, .inr hlex⟩

/-- The components of `p` come before those of `q`. -/
def Precedes (p q : Path) : Prop := List.Lex (fun a b => a.before b) p.components q.components

theorem ordered_iff {p q : Path} : p.ordered q ↔ p.components = q.components ∨ p.Precedes q :=
  orderedComponents_iff

theorem Precedes.trans {p q r : Path} (hpq : p.Precedes q) (hqr : q.Precedes r) : p.Precedes r :=
  (IsOrderConnected.conn _ r.components _ hpq).resolve_right fun hrq => asymm hrq hqr

theorem ordered_trans (p q r : Path) (hpq : p.ordered q) (hqr : q.ordered r) : p.ordered r := by
  rw [ordered_iff] at *
  rcases hpq with hpq | hpq
  · rwa [Precedes, hpq]
  · rcases hqr with hqr | hqr
    · rw [Precedes, ← hqr]
      exact .inr hpq
    · exact .inr (hpq.trans hqr)

theorem ordered_total (p q : Path) : p.ordered q || q.ordered p := by
  rw [Bool.or_eq_true, ordered_iff, ordered_iff]
  rcases trichotomous_of (List.Lex fun a b : Component => (a.before b : Prop)) p.components
    q.components with h | h | h
  · exact .inl (.inr h)
  · exact .inl (.inl h)
  · exact .inr (.inr h)

/-- Sorted paths increase strictly when no two of them are the same. -/
theorem pairwise_mergeSort {ps : List Path}
    (h : ps.Pairwise fun p q => p.components ≠ q.components) :
    (ps.mergeSort ordered).Pairwise Precedes := by
  have hne : (ps.mergeSort ordered).Pairwise fun p q => p.components ≠ q.components :=
    (List.mergeSort_perm ps ordered).symm.pairwise h Ne.symm
  refine ((List.pairwise_mergeSort ordered_trans ordered_total ps).and hne).imp ?_
  rintro p q ⟨hpq, hne⟩
  exact (ordered_iff.mp hpq).resolve_left hne

end Order

end Path

end PlsqlNav
