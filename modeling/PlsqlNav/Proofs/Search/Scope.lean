import PlsqlNav.Proofs.Outline.Ancestors
import PlsqlNav.Proofs.Search.Goto
import PlsqlNav.Search.Memory

/-! When going to a definition leaves the scopes around the cursor. Each of these scopes is searched with
everything inside it, so that a local of a routine beside the cursor can be found. That happens only from
the outermost scope, and only where the local comes before all that is visible under its name. -/
namespace PlsqlNav

namespace Outline

variable {o : Outline} {a e i r top v : o.Id} {word : String} {wanted : Flavour}

/-- A scope around `e`, or a symbol right inside such a scope. -/
def Visible (o : Outline) (e v : o.Id) : Prop :=
  v ∈ o.ancestors e ∨ ∃ a ∈ o.ancestors e, o.parent? v = some a

/-- A symbol right inside a routine that is not around `e`. -/
def Hidden (o : Outline) (e r : o.Id) : Prop :=
  ∃ p, o.parent? r = some p ∧ (o.get p).kind.isRoutine ∧ p ∉ o.ancestors e

/-- What has no flavours is found by its name alone. -/
theorem namedFrom?_of_resolveIn (h : o.resolveIn top word wanted = some i)
    (hi : (o.get i).kind.hasCounterpart = false) : o.namedFrom? [top] true word 0 = some i := by
  obtain ⟨first, hfirst, rfl | ⟨hwrong, hother⟩⟩ := resolveIn_cases h
  · exact hfirst
  · have hkind := (namedOf?_eq_some hother).2.2
    rw [hkind, Symbol.Kind.hasCounterpart_counterpart,
      Symbol.Kind.hasCounterpart_of_mismatches hwrong] at hi
    contradiction

section Rising
variable (rising : o.Rising)
include rising

theorem mem_ancestors_of_resolveIn (h : o.resolveIn top word wanted = some i) :
    top ∈ o.ancestors i := by
  rw [← mem_preorder_singleton rising]
  obtain ⟨first, hfirst, rfl | ⟨_, hi⟩⟩ := resolveIn_cases h
  · exact List.mem_of_find?_eq_some hfirst
  · exact (namedOf?_eq_some hi).1

theorem not_isNamed_of_resolveIn (h : o.resolveIn a word wanted = none) (hv : a ∈ o.ancestors v) :
    ¬ (o.get v).isNamed word := by
  rw [resolveIn_eq_none_iff, namedFrom?, List.find?_eq_none] at h
  rw [← mem_preorder_singleton rising] at hv
  simpa using h v hv

theorem namedFrom?_le (h : o.namedFrom? [top] true word 0 = some i) (hv : top ∈ o.ancestors v)
    (hnamed : (o.get v).isNamed word) : i ≤ v := by
  obtain ⟨_, before, after, hsplit, hbefore⟩ := List.find?_eq_some_iff_append.mp h
  have hascend := o.preorder_singleton_ascend rising top
  rw [← mem_preorder_singleton rising] at hv
  have hwalk : o.preorder [top] = before ++ i :: after := hsplit
  rw [hwalk] at hascend hv
  rcases List.mem_append.mp hv with hv | hv
  · have := hbefore v hv
    simp [hnamed] at this
  · rcases List.mem_cons.mp hv with rfl | hv
    · exact le_refl v
    · exact le_of_lt (List.rel_of_pairwise_cons (List.pairwise_append.mp hascend).2.1 hv)

theorem Visible.outermost_mem_ancestors (h : o.Visible e v) : o.outermost e ∈ o.ancestors v := by
  have hmem (a : o.Id) (ha : a ∈ o.ancestors e) : o.outermost e ∈ o.ancestors a := by
    rw [← outermost_of_mem_ancestors ha]
    exact Outline.outermost_mem_ancestors a
  rcases h with hv | ⟨a, ha, hparent⟩
  · exact hmem v hv
  · exact o.mem_ancestors_trans rising (hmem a ha) (mem_ancestors_of_parent? hparent)

namespace Hidden

theorem not_visible (h : o.Hidden e r) : ¬ o.Visible e r := by
  obtain ⟨p, hp, _, hpe⟩ := h
  rintro (hr | ⟨a, ha, hparent⟩)
  · exact hpe (o.mem_ancestors_trans rising (mem_ancestors_of_parent? hp) hr)
  · cases hp.symm.trans hparent
    exact hpe ha

theorem recordedDepth_lt_level (h : o.Hidden e r) (htop : o.outermost r = o.outermost e) :
    Scan.recordedDepth < (o.get r).level := by
  obtain ⟨p, hp, _, hpe⟩ := h
  have hinner : (o.get p).level ≠ 0 := by
    intro hzero
    rw [← o.parent?_eq_none_iff rising] at hzero
    rw [eq_outermost_of_mem_ancestors (mem_ancestors_of_parent? hp) hzero, htop] at hpe
    exact hpe (Outline.outermost_mem_ancestors e)
  rw [(parent?_eq_some_iff.mp hp).2.1, Scan.recordedDepth]
  omega

/-- Only a search from the top level reaches a hidden symbol: below, two levels are left at most. -/
theorem parent?_eq_none (h : o.Hidden e r) (hr : (o.get r).level ≤ 2) (ha : a ∈ o.ancestors e)
    (har : a ∈ o.ancestors r) : o.parent? a = none := by
  have hvisible := h.not_visible rising
  obtain ⟨p, hp, _, hpe⟩ := h
  rw [ancestors_of_parent? hp, List.mem_cons] at har
  rcases har with rfl | hap
  · exact absurd (.inl ha) hvisible
  · rcases (mem_ancestors_iff rising).mp hap with rfl | hap
    · exact absurd ha hpe
    · have hlevel := hap.2 p hap.1 (le_refl p)
      have hparent := (parent?_eq_some_iff.mp hp).2.1
      rw [o.parent?_eq_none_iff rising]
      omega

end Hidden

end Rising

end Outline

namespace Navigator
open Outline

variable {σ : Type} {o : Outline} {e r v : o.Id} {word : String} {wanted : Flavour}

/-- Where a hidden symbol is found, the scopes below the top level have none of that name. -/
theorem resolveHere_hidden (rising : o.Rising) (hlevel : (o.get r).level ≤ 2)
    (h : resolveHere o e "" word wanted = some r) (htop : o.outermost r = o.outermost e)
    (hhidden : o.Hidden e r) :
    o.resolveIn (o.outermost e) word wanted = some r ∧
      ∀ a ∈ o.ancestors e, a ≠ o.outermost e → o.resolveIn a word wanted = none := by
  obtain ⟨inner, hinner, hparent⟩ := o.ancestors_eq_append e
  have hmem {a : o.Id} (ha : a ∈ inner) : a ∈ o.ancestors e := by
    rw [hinner]
    exact List.mem_append_left _ ha
  rcases resolveHere_cases h with hscope | ⟨hne, hother⟩
  · have hall : ((o.ancestors e).filter fun a => "" == "" || (o.get a).isNamed "") =
        inner ++ [o.outermost e] := by
      rw [← hinner]
      exact List.filter_eq_self.mpr fun a _ => rfl
    rw [hall, List.findSome?_append, Option.or_eq_some_iff] at hscope
    rcases hscope with hin | ⟨hnone, hout⟩
    · obtain ⟨a, ha, har⟩ := List.exists_of_findSome?_eq_some hin
      exact absurd (hhidden.parent?_eq_none rising hlevel (hmem ha)
        (o.mem_ancestors_of_resolveIn rising har)) (hparent a ha)
    · rw [List.findSome?_singleton] at hout
      refine ⟨hout, fun a ha hne => ?_⟩
      rw [hinner, List.mem_append, List.mem_singleton] at ha
      exact List.findSome?_eq_none_iff.mp hnone a (ha.resolve_right hne)
  · obtain ⟨hunit, _⟩ := packageCounterpart_of_ne hne
    rw [topLevel_eq rising, List.mem_filter, Option.isNone_iff_eq_none] at hunit
    have hroot := eq_outermost_of_mem_ancestors (o.mem_ancestors_of_resolveIn rising hother) hunit.2
    exact absurd (hroot.trans htop) hne

/-- Visible declarations of the name lie right inside the outermost scope then, and after the hidden
symbol. -/
theorem visible_of_resolveHere_hidden (rising : o.Rising) (hlevel : (o.get r).level ≤ 2)
    (hfits : (o.get r).kind.Fits (o.get r).level) (h : resolveHere o e "" word wanted = some r)
    (htop : o.outermost r = o.outermost e) (hhidden : o.Hidden e r) :
    o.namedFrom? [o.outermost e] true word 0 = some r ∧
      ∀ v, o.Visible e v → (o.get v).isNamed word → o.parent? v = some (o.outermost e) ∧ r < v := by
  obtain ⟨hout, hin⟩ := resolveHere_hidden rising hlevel h htop hhidden
  have hfirst := namedFrom?_of_resolveIn hout
    (hfits.hasCounterpart_eq_false (hhidden.recordedDepth_lt_level rising htop))
  refine ⟨hfirst, fun v hvisible hnamed => ?_⟩
  have hle := o.namedFrom?_le rising hfirst (hvisible.outermost_mem_ancestors rising) hnamed
  have hlt : r < v := by
    refine lt_of_le_of_ne hle ?_
    rintro rfl
    exact hhidden.not_visible rising hvisible
  refine ⟨?_, hlt⟩
  rcases hvisible with hv | ⟨a, ha, hparent⟩
  · by_cases hvtop : v = o.outermost e
    · -- Nothing in a tree comes before its outermost symbol.
      have := o.le_of_mem_ancestors rising (o.mem_ancestors_of_resolveIn rising hout)
      exact absurd (hvtop ▸ this) (not_le_of_gt hlt)
    · exact absurd hnamed (o.not_isNamed_of_resolveIn rising (hin v hv hvtop) (self_mem_ancestors v))
  · by_cases hatop : a = o.outermost e
    · exact hatop ▸ hparent
    · exact absurd hnamed
        (o.not_isNamed_of_resolveIn rising (hin a ha hatop) (mem_ancestors_of_parent? hparent))

/-- Going to a definition without a qualifier finds a hidden local in the tree around the cursor only
where it is the first symbol of its name there, and all that is visible under that name comes later and
right inside the outermost scope. -/
theorem goto_hidden (n : Navigator σ) {s : σ} {file text : String} {offset : Nat} {cursor : Cursor}
    {wanted : Flavour} {e r : (Outline.ofText file text).Id} (hcall : cursor.isDeclaration = false)
    (hqualifier : n.qualifier cursor = "")
    (he : (Outline.ofText file text).enclosing? offset = some e)
    (hr : ((n.goto ⟨Outline.ofText file text, offset, cursor⟩ wanted).run.run s).1 =
      .ok (some (.here r)))
    (htop : (Outline.ofText file text).outermost r = (Outline.ofText file text).outermost e)
    (hhidden : (Outline.ofText file text).Hidden e r) :
    let o := Outline.ofText file text
    let top := o.outermost e
    o.namedFrom? [top] true cursor.currentWord 0 = some r ∧
      ∀ v, o.Visible e v → (o.get v).isNamed cursor.currentWord →
        o.parent? v = some top ∧ r < v := by
  intro o top
  have hfound : resolveHere o e "" cursor.currentWord wanted = some r := by
    obtain ⟨events, result, s', hrun, _, _, hfinds⟩ := goto_call n ⟨o, offset, cursor⟩ wanted hcall s []
    rw [hrun] at hr
    cases hfinds _ hr with
    | @here e' i he' hi =>
      cases he.symm.trans he'
      rwa [hqualifier] at hi
  exact visible_of_resolveHere_hidden (Outline.ofText_rising file text)
    (Outline.ofText_level_le file text r) (Outline.ofText_fits file text r) hfound htop hhidden

section Sibling

/-- The local variable of a procedure shares its name with a variable of the package behind it. -/
def siblingText : String :=
  "package body p is procedure a is x number; begin null; end; x number; procedure b is begin x := 1; end; end;"

abbrev siblingOutline : Outline := .ofText "p.pkb" siblingText

/-- On the use of the name in the other procedure. -/
def siblingSpot : Spot := ⟨siblingOutline, 91, ⟨none, "x", false⟩⟩

theorem siblingOutline_size : siblingOutline.symbols.size = 5 := by decide +kernel

def siblingScope : siblingOutline.Id := ⟨4, by rw [siblingOutline_size]; decide⟩

def packageVariable : siblingOutline.Id := ⟨3, by rw [siblingOutline_size]; decide⟩

def siblingLocal : siblingOutline.Id := ⟨2, by rw [siblingOutline_size]; decide⟩

def siblingProcedure : siblingOutline.Id := ⟨1, by rw [siblingOutline_size]; decide⟩

def noFiles : Navigator Unit := ⟨(MemoryFiles.mk []).source, id⟩

theorem siblingScope_encloses : siblingOutline.enclosing? 91 = some siblingScope ∧
    (siblingOutline.get siblingScope).kind = .procedure .body := by decide +kernel

theorem packageVariable_visible : siblingOutline.Visible siblingScope packageVariable ∧
    (siblingOutline.get packageVariable).isNamed "x" := by
  have hparent : siblingOutline.parent? packageVariable = some (siblingOutline.outermost siblingScope) ∧
      (siblingOutline.get packageVariable).isNamed "x" := by decide +kernel
  exact ⟨.inr ⟨_, outermost_mem_ancestors siblingScope, hparent.1⟩, hparent.2⟩

theorem siblingLocal_hidden : siblingOutline.Hidden siblingScope siblingLocal ∧
    siblingOutline.outermost siblingLocal = siblingOutline.outermost siblingScope := by
  have hparent : (siblingOutline.parent? siblingLocal = some siblingProcedure ∧
      (siblingOutline.get siblingProcedure).kind.isRoutine ∧
        siblingProcedure ∉ siblingOutline.ancestors siblingScope) ∧
      siblingOutline.outermost siblingLocal = siblingOutline.outermost siblingScope := by
    decide +kernel
  exact ⟨⟨siblingProcedure, hparent.1⟩, hparent.2⟩

theorem siblingLocal_found : ((noFiles.goto siblingSpot .body).run.run ()).1 =
    .ok (some (.here siblingLocal)) := by
  have hlocal : resolveHere siblingOutline siblingScope "" "x" .body = some siblingLocal := by
    decide +kernel
  have hspec : (siblingOutline.get siblingScope).kind ≠ .package .spec := by
    rw [siblingScope_encloses.2]
    decide
  have hgoto : noFiles.goto siblingSpot .body = pure (some (.here siblingLocal)) :=
    goto_here noFiles (by decide) (by decide) siblingScope_encloses.1 hspec hlocal
  rw [hgoto]
  rfl

theorem goto_hidden_sibling : siblingOutline.Hidden siblingScope siblingLocal ∧
    siblingOutline.parent? packageVariable = some (siblingOutline.outermost siblingScope) ∧
      siblingLocal < packageVariable :=
  ⟨siblingLocal_hidden.1,
    (goto_hidden noFiles (by decide) (by decide) siblingScope_encloses.1 siblingLocal_found
      siblingLocal_hidden.2 siblingLocal_hidden.1).2 packageVariable packageVariable_visible.1
        packageVariable_visible.2⟩

/-- The local of one procedure is found from the other one, where the variable of the package is
visible. -/
theorem goto_siblingLocal : siblingOutline.enclosing? siblingSpot.offset = some siblingScope ∧
    (siblingOutline.get siblingScope).kind = .procedure .body ∧
      siblingSpot.cursor.isDeclaration = false ∧ siblingSpot.cursor.previousDot = false ∧
        siblingOutline.Visible siblingScope packageVariable ∧
          (siblingOutline.get packageVariable).isNamed siblingSpot.cursor.currentWord ∧
            ((noFiles.goto siblingSpot .body).run.run ()).1 = .ok (some (.here siblingLocal)) ∧
              siblingOutline.outermost siblingLocal = siblingOutline.outermost siblingScope ∧
                siblingOutline.Hidden siblingScope siblingLocal :=
  ⟨siblingScope_encloses.1, siblingScope_encloses.2, by decide, by decide, packageVariable_visible.1,
    packageVariable_visible.2, siblingLocal_found, siblingLocal_hidden.2, siblingLocal_hidden.1⟩

end Sibling

end Navigator

end PlsqlNav
