import PlsqlNav.Proofs.Search.Pass

/-! The search for a definition in other files. A file is decisive when one of its units has the word in
the wanted flavour; the first decisive file ends the search, and the wrong flavour counts only when no
file is. A search that finds nothing in the packages of a name is made once more without it. -/
namespace PlsqlNav

namespace Outline
variable (qualifier word : String) (wanted : Flavour) (o : Outline)

/-- Units in which the word is looked for. -/
def Eligible (top : o.Id) : Prop :=
  qualifier = "" ∨ (o.get top).kind.isPackage ∧ (o.get top).isNamed qualifier

def Resolves (top i : o.Id) : Prop := o.Eligible qualifier top ∧ o.resolveIn top word wanted = some i

/-- The word is there in the wanted flavour. -/
def Decisive : Prop :=
  ∃ top ∈ o.topLevel, ∃ i, o.Resolves qualifier word wanted top i ∧
    (o.get i).kind.mismatches wanted = false

/-- The word is not there in any flavour. -/
def Silent : Prop := ∀ top ∈ o.topLevel, ∀ i, ¬ o.Resolves qualifier word wanted top i

/-- The first unit that has the word in the wanted flavour has it in `i`. -/
def Decides (i : o.Id) : Prop :=
  ∃ before top after, o.topLevel = before ++ top :: after ∧ o.Resolves qualifier word wanted top i ∧
    (o.get i).kind.mismatches wanted = false ∧
    ∀ t ∈ before, ∀ j, o.Resolves qualifier word wanted t j →
      (o.get j).kind.mismatches wanted = true

/-- The first unit that has the word in any flavour has it in `i`. -/
def Suggests (i : o.Id) : Prop :=
  ∃ before top after, o.topLevel = before ++ top :: after ∧ o.Resolves qualifier word wanted top i ∧
    ∀ t ∈ before, ∀ j, ¬ o.Resolves qualifier word wanted t j

end Outline

namespace Navigator
open CandidateSource

/-- One pass over the candidates for `hints`: what is recorded, and what comes out. -/
inductive Pass (hints : List String) (qualifier word : String) (wanted : Flavour) :
    List Event → Except SearchError (Option Hit) → Prop
  /-- The candidates cannot be listed. -/
  | unlisted {e} : Pass hints qualifier word wanted [.listed hints (.error e)] (.error e)
  /-- A candidate before the first decisive one cannot be loaded. -/
  | failed {files : List (Path × Outline)} {path rest e} :
      (∀ f ∈ files, ¬ f.2.Decisive qualifier word wanted) →
      Pass hints qualifier word wanted
        (.listed hints (.ok (files.map Prod.fst ++ path :: rest)) ::
          (loads files ++ [.loaded path (.error e)])) (.error e)
  /-- The first decisive file ends the pass. -/
  | decided {files : List (Path × Outline)} {path rest o i} :
      (∀ f ∈ files, ¬ f.2.Decisive qualifier word wanted) → o.Decides qualifier word wanted i →
      Pass hints qualifier word wanted
        (.listed hints (.ok (files.map Prod.fst ++ path :: rest)) ::
          (loads files ++ [.loaded path (.ok o)])) (.ok (some ⟨o, i⟩))
  /-- No file is decisive, and the first one that has the word in the wrong flavour stands. -/
  | suggested {before after : List (Path × Outline)} {path o i} :
      (∀ f ∈ before ++ (path, o) :: after, ¬ f.2.Decisive qualifier word wanted) →
      (∀ f ∈ before, f.2.Silent qualifier word wanted) → o.Suggests qualifier word wanted i →
      Pass hints qualifier word wanted
        (.listed hints (.ok ((before ++ (path, o) :: after).map Prod.fst)) ::
          loads (before ++ (path, o) :: after)) (.ok (some ⟨o, i⟩))
  /-- No file has the word. -/
  | silent {files : List (Path × Outline)} : (∀ f ∈ files, f.2.Silent qualifier word wanted) →
      Pass hints qualifier word wanted
        (.listed hints (.ok (files.map Prod.fst)) :: loads files) (.ok none)

/-- The whole search: one pass, or two when the first finds nothing in packages of a name. -/
inductive Protocol (qualifier word : String) (wanted : Flavour) :
    List Event → Except SearchError (Option Hit) → Prop
  | once {events result} : Pass [qualifier, word] qualifier word wanted events result →
      qualifier = "" ∨ result ≠ .ok none → Protocol qualifier word wanted events result
  | twice {events events' result} : qualifier ≠ "" →
      Pass [qualifier, word] qualifier word wanted events (.ok none) →
      Pass [word] "" word wanted events' result →
      Protocol qualifier word wanted (events ++ events') result

end Navigator

namespace Outline
variable {qualifier word : String} {wanted : Flavour} {o : Outline}

/-- What the search finds for the word in one unit. -/
def answer (qualifier word : String) (wanted : Flavour) (o : Outline) (top : o.Id) : Option o.Id :=
  if qualifier == "" || ((o.get top).kind.isPackage && (o.get top).isNamed qualifier) then
    o.resolveIn top word wanted
  else none

theorem answer_eq_some_iff {top i : o.Id} :
    o.answer qualifier word wanted top = some i ↔ o.Resolves qualifier word wanted top i := by
  have heligible : (qualifier == "" || ((o.get top).kind.isPackage && (o.get top).isNamed qualifier)) =
      true ↔ o.Eligible qualifier top := by
    rw [Bool.or_eq_true, beq_iff_eq, Bool.and_eq_true]
    rfl
  rw [answer, Resolves, ← heligible]
  split
  · next h => exact (and_iff_right h).symm
  · next h => simp [h]

/-- The first answer that passes a test, and the unit that gives it. -/
theorem exists_of_find?_answer {p : o.Id → Bool} {i : o.Id}
    (h : (o.topLevel.filterMap (o.answer qualifier word wanted)).find? p = some i) :
    ∃ before top after, o.topLevel = before ++ top :: after ∧
      o.Resolves qualifier word wanted top i ∧ p i = true ∧
        ∀ t ∈ before, ∀ j, o.Resolves qualifier word wanted t j → p j = false := by
  rw [List.find?_filterMap, Option.bind_eq_some_iff] at h
  obtain ⟨top, htop, hi⟩ := h
  rw [List.find?_eq_some_iff_append] at htop
  obtain ⟨hp, before, after, hsplit, hbefore⟩ := htop
  rw [hi, Option.any_some] at hp
  refine ⟨before, top, after, hsplit, answer_eq_some_iff.mp hi, hp, fun t ht j hj => ?_⟩
  have := hbefore t ht
  rwa [answer_eq_some_iff.mpr hj, Option.any_some, Bool.not_eq_true'] at this

/-- The verdict on a file, by what its units have. -/
theorem judge_cases (qualifier word : String) (wanted : Flavour) (o : Outline) :
    (∃ i, o.judge qualifier word wanted = .accept ⟨o, i⟩ ∧ o.Decides qualifier word wanted i) ∨
    (∃ i, o.judge qualifier word wanted = .tentative ⟨o, i⟩ ∧ ¬ o.Decisive qualifier word wanted ∧
      o.Suggests qualifier word wanted i) ∨
    (o.judge qualifier word wanted = .reject ∧ o.Silent qualifier word wanted) := by
  have hfound : (o.topLevel.filter fun i =>
      qualifier == "" || ((o.get i).kind.isPackage && (o.get i).isNamed qualifier)).filterMap
        (fun i => o.resolveIn i word wanted) =
      o.topLevel.filterMap (o.answer qualifier word wanted) := List.filterMap_filter
  have hmem {top i : o.Id} (htop : top ∈ o.topLevel) (hi : o.Resolves qualifier word wanted top i) :
      i ∈ o.topLevel.filterMap (o.answer qualifier word wanted) :=
    List.mem_filterMap.mpr ⟨top, htop, answer_eq_some_iff.mpr hi⟩
  rw [judge, hfound]
  cases hfind : (o.topLevel.filterMap (o.answer qualifier word wanted)).find?
      fun i => !(o.get i).kind.mismatches wanted with
  | some i =>
    left
    obtain ⟨before, top, after, hsplit, hi, hright, hbefore⟩ := exists_of_find?_answer hfind
    rw [Bool.not_eq_true'] at hright
    refine ⟨i, rfl, before, top, after, hsplit, hi, hright, fun t ht j hj => ?_⟩
    have := hbefore t ht j hj
    rwa [Bool.not_eq_false'] at this
  | none =>
    right
    rw [List.find?_eq_none] at hfind
    have hdecisive : ¬ o.Decisive qualifier word wanted := by
      rintro ⟨top, htop, i, hi, hright⟩
      apply hfind i (hmem htop hi)
      rw [hright]
      rfl
    cases hall : o.topLevel.filterMap (o.answer qualifier word wanted) with
    | nil =>
      right
      refine ⟨rfl, fun top htop i hi => ?_⟩
      have := hmem htop hi
      rw [hall] at this
      exact List.not_mem_nil this
    | cons i found =>
      left
      have hfirst : (o.topLevel.filterMap (o.answer qualifier word wanted)).find? (fun _ => true) =
          some i := by
        rw [hall]
        rfl
      obtain ⟨before, top, after, hsplit, hi, _, hbefore⟩ := exists_of_find?_answer hfirst
      refine ⟨i, rfl, hdecisive, before, top, after, hsplit, hi, fun t ht j hj => ?_⟩
      have := hbefore t ht j hj
      contradiction

theorem Silent.not_decisive (h : o.Silent qualifier word wanted) :
    ¬ o.Decisive qualifier word wanted := by
  rintro ⟨top, htop, i, hi, _⟩
  exact h top htop i hi

end Outline

namespace Navigator
open CandidateSource Outline
variable {σ : Type} {qualifier word : String} {wanted : Flavour} {hints : List String}

theorem not_decisive_of_isAccept {o : Outline}
    (h : (o.judge qualifier word wanted).isAccept = false) : ¬ o.Decisive qualifier word wanted := by
  rcases judge_cases qualifier word wanted o with ⟨i, hj, _⟩ | ⟨i, _, hnot, _⟩ | ⟨_, hsilent⟩
  · rw [hj] at h
    contradiction
  · exact hnot
  · exact hsilent.not_decisive

theorem decides_of_accept {o : Outline} {hit : Hit}
    (h : o.judge qualifier word wanted = .accept hit) :
    ∃ i, hit = ⟨o, i⟩ ∧ o.Decides qualifier word wanted i := by
  rcases judge_cases qualifier word wanted o with ⟨i, hj, hi⟩ | ⟨i, hj, _⟩ | ⟨hj, _⟩
  · rw [hj] at h
    cases h
    exact ⟨i, rfl, hi⟩
  · rw [hj] at h
    contradiction
  · rw [hj] at h
    contradiction

theorem suggests_of_tentative {o : Outline} {hit : Hit}
    (h : (o.judge qualifier word wanted).tentative? = some hit) :
    ∃ i, hit = ⟨o, i⟩ ∧ o.Suggests qualifier word wanted i := by
  rcases judge_cases qualifier word wanted o with ⟨i, hj, hi⟩ | ⟨i, hj, _, hi⟩ | ⟨hj, _⟩
  · rw [hj] at h
    contradiction
  · rw [hj] at h
    cases h
    exact ⟨i, rfl, hi⟩
  · rw [hj] at h
    contradiction

theorem silent_of_reject {o : Outline} (ha : (o.judge qualifier word wanted).isAccept = false)
    (ht : (o.judge qualifier word wanted).tentative? = none) : o.Silent qualifier word wanted := by
  rcases judge_cases qualifier word wanted o with ⟨i, hj, _⟩ | ⟨i, hj, _⟩ | ⟨_, hsilent⟩
  · rw [hj] at ha
    contradiction
  · rw [hj] at ht
    contradiction
  · exact hsilent

theorem pass_of_scanned {events : List Event} {result : Except SearchError (Option Hit)}
    (h : Scanned hints (Outline.judge qualifier word wanted) events result) :
    Pass hints qualifier word wanted events result := by
  cases h with
  | unlisted => exact .unlisted
  | listed h =>
    cases h with
    | failed hfiles => exact .failed fun f hf => not_decisive_of_isAccept (hfiles f hf)
    | accepted hfiles ha =>
      obtain ⟨i, rfl, hi⟩ := decides_of_accept ha
      exact .decided (fun f hf => not_decisive_of_isAccept (hfiles f hf)) hi
    | @exhausted files hfiles =>
      show Pass hints qualifier word wanted _
        (.ok (files.findSome? fun f => (f.2.judge qualifier word wanted).tentative?))
      cases hfirst : files.findSome? fun f => (f.2.judge qualifier word wanted).tentative? with
      | none =>
        rw [List.findSome?_eq_none_iff] at hfirst
        exact .silent fun f hf => silent_of_reject (hfiles f hf) (hfirst f hf)
      | some hit =>
        rw [List.findSome?_eq_some_iff] at hfirst
        obtain ⟨before, ⟨path, o⟩, after, rfl, hhit, hbefore⟩ := hfirst
        obtain ⟨i, rfl, hi⟩ := suggests_of_tentative hhit
        refine .suggested (fun f hf => not_decisive_of_isAccept (hfiles f hf)) (fun f hf => ?_) hi
        exact silent_of_reject (hfiles f (List.mem_append_left _ hf)) (hbefore f hf)

/-- The search for a definition follows its protocol, whatever the source lists, loads and fails. -/
theorem searchDefinition_protocol (n : Navigator σ) (qualifier word : String) (wanted : Flavour) :
    n.source.Records (n.searchDefinition qualifier word wanted)
      (n.recorded.searchDefinition qualifier word wanted) (Protocol qualifier word wanted) := by
  rw [searchDefinition, searchDefinition]
  refine (Records.bind (scan_records n [qualifier, word] _) (Q := fun found events result =>
    if found.isSome || qualifier == "" then events = [] ∧ result = .ok found
    else Scanned [word] (Outline.judge "" word wanted) events result) fun found => ?_).imp ?_
  · split
    · exact Records.pure found
    · exact scan_records n [word] _
  · intro events result h
    cases h with
    | failed h => exact .once (pass_of_scanned h) (.inr (by simp))
    | @next events events' found result h hrest =>
      have hpass := pass_of_scanned h
      split at hrest
      · next hdone =>
        obtain ⟨rfl, rfl⟩ := hrest
        rw [List.append_nil]
        refine .once hpass ?_
        rw [Bool.or_eq_true, beq_iff_eq] at hdone
        rcases hdone with hfound | hempty
        · right
          intro hnone
          cases hnone
          contradiction
        · exact .inl hempty
      · next hdone =>
        rw [Bool.or_eq_true, beq_iff_eq, not_or, Bool.not_eq_true, Option.isSome_eq_false_iff,
          Option.isNone_iff_eq_none] at hdone
        obtain ⟨rfl, hne⟩ := hdone
        exact .twice hne hpass (pass_of_scanned hrest)

end Navigator

end PlsqlNav
