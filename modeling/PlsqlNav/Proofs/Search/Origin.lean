import PlsqlNav.Proofs.Search.Definition
import PlsqlNav.Proofs.Search.Resolution

/-! Where the result of a search comes from. A symbol that a search finds lies in a file that the search
has listed and loaded, and in the last one of them unless it is of the wrong flavour. -/
namespace PlsqlNav

namespace CandidateSource

/-- A path was listed, and its outline loaded. -/
structure Loaded (events : List Event) (path : Path) (o : Outline) : Prop where
  listed : ∃ hints paths, Event.listed hints (.ok paths) ∈ events ∧ path ∈ paths
  loaded : Event.loaded path (.ok o) ∈ events

variable {σ α β : Type} {source : CandidateSource σ} {events events' : List Event} {path : Path}
  {o : Outline}

theorem Loaded.mono (h : Loaded events path o) (hsub : events ⊆ events') : Loaded events' path o := by
  obtain ⟨hints, paths, hlisted, hpath⟩ := h.listed
  exact ⟨⟨hints, paths, hsub hlisted, hpath⟩, hsub h.loaded⟩

/-- What is found, if anything, is as `P` says. -/
def Finds (P : List Event → α → Prop) (events : List Event) (result : Except SearchError (Option α)) :
    Prop := ∀ a, result = .ok (some a) → P events a

theorem Finds.imp {P Q : List Event → α → Prop} {result : Except SearchError (Option α)}
    (h : Finds P events result) (hPQ : ∀ a, P events a → Q events a) : Finds Q events result :=
  fun a ha => hPQ a (h a ha)

namespace Records

/-- An answer that needs no search. -/
theorem finds {P : List Event → α → Prop} (answer : Option α) (h : ∀ a, answer = some a → P [] a) :
    source.Records (Pure.pure answer) (Pure.pure answer) (Finds P) := by
  refine (Records.pure answer).imp fun events result hpure a ha => ?_
  obtain ⟨rfl, rfl⟩ := hpure
  exact h a (Except.ok.inj ha)

theorem finds_map {m : Search σ (Option α)} {m' : Search (σ × List Event) (Option α)}
    {P : List Event → α → Prop} (h : source.Records m m' (Finds P)) (f : α → β) :
    source.Records (m >>= fun answer => Pure.pure (answer.map f))
      (m' >>= fun answer => Pure.pure (answer.map f))
      (Finds fun events b => ∃ a, P events a ∧ b = f a) := by
  refine (Records.bind h fun answer => Records.pure (answer.map f)).imp ?_
  intro events result hthen b hb
  cases hthen with
  | failed => contradiction
  | @next events events' answer _ hP hrest =>
    obtain ⟨rfl, rfl⟩ := hrest
    obtain ⟨a, rfl, rfl⟩ := Option.map_eq_some_iff.mp (Except.ok.inj hb)
    rw [List.append_nil]
    exact ⟨a, hP a rfl, rfl⟩

end Records

end CandidateSource

namespace Outline
variable {o : Outline} {qualifier word : String} {wanted : Flavour} {hit : Hit}

theorem judge_accept (h : o.judge qualifier word wanted = .accept hit) :
    hit.outline = o ∧ hit.symbol.isNamed word ∧ hit.symbol.kind.mismatches wanted = false := by
  obtain ⟨i, rfl, _, _, _, _, hi, hright, _⟩ := Navigator.decides_of_accept h
  exact ⟨rfl, resolveIn_isNamed hi.2, hright⟩

theorem judge_tentative (h : (o.judge qualifier word wanted).tentative? = some hit) :
    hit.outline = o ∧ hit.symbol.isNamed word ∧ hit.symbol.kind.mismatches wanted = true := by
  rcases judge_cases qualifier word wanted o with ⟨i, hj, _⟩ | ⟨i, hj, hnot, hi⟩ | ⟨hj, _⟩
  · rw [hj] at h
    contradiction
  · rw [hj] at h
    cases h
    obtain ⟨before, top, after, hsplit, hi, _⟩ := hi
    refine ⟨rfl, resolveIn_isNamed hi.2, ?_⟩
    by_contra hright
    rw [Bool.not_eq_true] at hright
    exact hnot ⟨top, by rw [hsplit]; simp, i, hi, hright⟩
  · rw [hj] at h
    contradiction

end Outline

namespace Navigator
open CandidateSource
variable {σ α : Type} {judge : Outline → Verdict α} {hints : List String} {events : List Event}
  {result : Except SearchError (Option α)} {a : α}

/-- What a pass finds was found in one of its files: accepted in the last one, or set aside. -/
theorem Scanned.origin (h : Scanned hints judge events result) (ha : result = .ok (some a)) :
    ∃ path o, Loaded events path o ∧
      (judge o = .accept a ∧ events.getLast? = some (.loaded path (.ok o)) ∨
        (judge o).tentative? = some a) := by
  cases h with
  | unlisted => contradiction
  | @listed paths events _ h =>
    cases h with
    | failed => contradiction
    | @accepted files path rest o a' _ hjudge =>
      cases ha
      refine ⟨path, o, ⟨⟨hints, _, List.mem_cons_self, by simp⟩, by simp⟩, .inl ⟨hjudge, ?_⟩⟩
      rw [← List.cons_append, List.getLast?_concat]
    | @exhausted files =>
      have hfirst : (files.findSome? fun f => (judge f.2).tentative?) = some a := by
        injection ha
      obtain ⟨⟨path, o⟩, hmem, hjudge⟩ := List.exists_of_findSome?_eq_some hfirst
      refine ⟨path, o, ⟨⟨hints, _, List.mem_cons_self, List.mem_map_of_mem hmem⟩, ?_⟩, .inr hjudge⟩
      exact List.mem_cons_of_mem _ (List.mem_map_of_mem hmem)

theorem Scanned.definition {qualifier word : String} {wanted : Flavour} {hit : Hit}
    (h : Scanned hints (Outline.judge qualifier word wanted) events (.ok (some hit))) :
    hit.symbol.isNamed word ∧ ∃ path, Loaded events path hit.outline ∧
      (hit.symbol.kind.mismatches wanted = false →
        events.getLast? = some (.loaded path (.ok hit.outline))) := by
  obtain ⟨path, o, hloaded, ⟨hjudge, hlast⟩ | hjudge⟩ := h.origin rfl
  · obtain ⟨rfl, hnamed, _⟩ := Outline.judge_accept hjudge
    exact ⟨hnamed, path, hloaded, fun _ => hlast⟩
  · obtain ⟨rfl, hnamed, hwrong⟩ := Outline.judge_tentative hjudge
    refine ⟨hnamed, path, hloaded, fun hright => ?_⟩
    rw [hwrong] at hright
    contradiction

/-- A hit that comes out of a search for the definition of `word`. -/
inductive FromSearch (qualifier word : String) (wanted : Flavour) : List Event → Hit → Prop
  | once {events hit} :
      Scanned [qualifier, word] (Outline.judge qualifier word wanted) events (.ok (some hit)) →
      FromSearch qualifier word wanted events hit
  | twice {events events' hit} : qualifier ≠ "" →
      Scanned [qualifier, word] (Outline.judge qualifier word wanted) events (.ok none) →
      Scanned [word] (Outline.judge "" word wanted) events' (.ok (some hit)) →
      FromSearch qualifier word wanted (events ++ events') hit

namespace FromSearch
variable {qualifier word : String} {wanted : Flavour} {hit : Hit}

theorem protocol (h : FromSearch qualifier word wanted events hit) :
    Protocol qualifier word wanted events (.ok (some hit)) := by
  cases h with
  | once h => exact .once (pass_of_scanned h) (.inr (by simp))
  | twice hne hnone h => exact .twice hne (pass_of_scanned hnone) (pass_of_scanned h)

theorem origin (h : FromSearch qualifier word wanted events hit) : hit.symbol.isNamed word ∧
    ∃ path, Loaded events path hit.outline ∧ (hit.symbol.kind.mismatches wanted = false →
      events.getLast? = some (.loaded path (.ok hit.outline))) := by
  cases h with
  | once h => exact h.definition
  | twice _ _ h =>
    obtain ⟨hnamed, path, hloaded, hlast⟩ := h.definition
    refine ⟨hnamed, path, hloaded.mono (List.subset_append_right _ _), fun hright => ?_⟩
    rw [List.getLast?_append, hlast hright, Option.some_or]

end FromSearch

theorem searchDefinition_finds (n : Navigator σ) (qualifier word : String) (wanted : Flavour) :
    n.source.Records (n.searchDefinition qualifier word wanted)
      (n.recorded.searchDefinition qualifier word wanted)
      (Finds (FromSearch qualifier word wanted)) := by
  rw [searchDefinition, searchDefinition]
  refine (Records.bind (scan_records n [qualifier, word] _) (Q := fun found events result =>
    events = [] ∧ result = .ok found ∨ found = none ∧ qualifier ≠ "" ∧
      Scanned [word] (Outline.judge "" word wanted) events result) fun found => ?_).imp ?_
  · split
    · exact (Records.pure found).imp fun _ _ => .inl
    · next hagain =>
      rw [Bool.or_eq_true, not_or, Option.not_isSome_iff_eq_none, beq_iff_eq] at hagain
      exact (scan_records n [word] _).imp fun _ _ h => .inr ⟨hagain.1, hagain.2, h⟩
  · rintro events _ h hit rfl
    cases h with
    | next h hrest =>
      rcases hrest with ⟨rfl, hfound⟩ | ⟨rfl, hne, hrest⟩
      · cases hfound
        rw [List.append_nil]
        exact .once h
      · exact .twice hne h hrest

theorem searchElsewhere_finds (n : Navigator σ) (edited : Outline) (qualifier word : String)
    (wanted : Flavour) : n.source.Records (n.searchElsewhere edited qualifier word wanted)
      (n.recorded.searchElsewhere edited qualifier word wanted)
      (Finds fun events found => ∃ hit, FromSearch qualifier word wanted events hit ∧
        found = .elsewhere hit) :=
  Records.finds_map (searchDefinition_finds n qualifier word wanted) Found.elsewhere

end Navigator

end PlsqlNav
