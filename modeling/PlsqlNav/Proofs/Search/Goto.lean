import PlsqlNav.Proofs.Search.Counterpart

/-! What going to a definition finds, and where. The symbol has the name under the cursor. It lies in the
edited file, and then the source was not used, or in a file that was loaded for it. -/
namespace PlsqlNav

/-- The flavour that is preferred in other files. The header of a routine asks for its counterpart. -/
def Spot.sought (spot : Spot) (wanted : Flavour) : Flavour :=
  if spot.cursor.isDeclaration then
    spot.target.elim wanted fun s => (spot.outline.get s).kind.sought
  else wanted

namespace Navigator
open CandidateSource

variable {σ : Type}

section Here
variable {o : Outline} {e i : o.Id} {qualifier word : String} {wanted : Flavour}

/-- What is found in the edited file is found in a scope around, or in the other part of the package. -/
theorem resolveHere_cases (h : resolveHere o e qualifier word wanted = some i) :
    ((o.ancestors e).filter fun a => qualifier == "" || (o.get a).isNamed qualifier).findSome?
        (fun a => o.resolveIn a word wanted) = some i ∨
      o.packageCounterpart (o.outermost e) ≠ o.outermost e ∧
        o.resolveIn (o.packageCounterpart (o.outermost e)) word wanted = some i := by
  have hacross {other top : o.Id} {p : Bool}
      (h : (if other ≠ top ∧ p then o.resolveIn other word wanted else none) = some i) :
      other ≠ top ∧ o.resolveIn other word wanted = some i := by
    split at h
    · next hother => exact ⟨hother.1, h⟩
    · contradiction
  rw [resolveHere] at h
  dsimp only at h
  split at h
  · next j hj =>
    split at h
    · rw [Option.orElse_eq_orElse, Option.orElse_eq_or, Option.or_eq_some_iff] at h
      rcases h with hother | ⟨_, hij⟩
      · exact .inr (hacross hother)
      · exact .inl (hj.trans hij)
    · exact .inl (hj.trans h)
  · exact .inr (hacross h)

theorem resolveHere_isNamed (h : resolveHere o e qualifier word wanted = some i) :
    (o.get i).isNamed word := by
  rcases resolveHere_cases h with hscope | ⟨_, hother⟩
  · obtain ⟨a, _, ha⟩ := List.exists_of_findSome?_eq_some hscope
    exact Outline.resolveIn_isNamed ha
  · exact Outline.resolveIn_isNamed hother

end Here

/-- The package that the word before the cursor names, or nothing without a dot between them. -/
def qualifier (n : Navigator σ) (cursor : Cursor) : String :=
  if cursor.previousDot then (cursor.previousWord.map n.translate).getD "" else ""

/-- An answer in call mode. -/
inductive DefinitionFound (spot : Spot) (qualifier : String) (wanted : Flavour) :
    List Event → Found spot.outline → Prop
  | here {e i} : spot.outline.enclosing? spot.offset = some e →
      resolveHere spot.outline e qualifier spot.cursor.currentWord wanted = some i →
      DefinitionFound spot qualifier wanted [] (.here i)
  | elsewhere {events package hit} :
      FromSearch package spot.cursor.currentWord wanted events hit →
      DefinitionFound spot qualifier wanted events (.elsewhere hit)

theorem gotoCall_finds (n : Navigator σ) (spot : Spot) (wanted : Flavour) :
    n.source.Records (n.gotoCall spot wanted) (n.recorded.gotoCall spot wanted)
      (Finds (DefinitionFound spot (n.qualifier spot.cursor) wanted)) := by
  have hsearch (package : String) : n.source.Records
      (n.searchElsewhere spot.outline package spot.cursor.currentWord wanted)
      (n.recorded.searchElsewhere spot.outline package spot.cursor.currentWord wanted)
      (Finds (DefinitionFound spot (n.qualifier spot.cursor) wanted)) := by
    refine (searchElsewhere_finds n spot.outline package _ wanted).imp fun events result h => ?_
    refine h.imp ?_
    rintro _ ⟨hit, hhit, rfl⟩
    exact .elsewhere hhit
  rw [gotoCall, gotoCall]
  dsimp only [recorded_translate]
  split
  · exact hsearch _
  · next e he =>
    split
    · exact Records.finds none fun found hfound => by contradiction
    · split
      · next i hi =>
        refine Records.finds _ fun found hfound => ?_
        cases hfound
        exact .here he hi
      · exact hsearch _

theorem goto_call (n : Navigator σ) (spot : Spot) (wanted : Flavour)
    (h : spot.cursor.isDeclaration = false) :
    n.source.Records (n.goto spot wanted) (n.recorded.goto spot wanted)
      (Finds (DefinitionFound spot (n.qualifier spot.cursor) wanted)) := by
  rw [goto, goto, h]
  split
  · exact Records.finds none fun found hfound => by contradiction
  · exact gotoCall_finds n spot wanted

/-- A definition in the edited file needs no search. -/
theorem goto_here (n : Navigator σ) {spot : Spot} {wanted : Flavour} {e i : spot.outline.Id}
    (hword : spot.cursor.currentWord ≠ "") (hcall : spot.cursor.isDeclaration = false)
    (he : spot.outline.enclosing? spot.offset = some e)
    (hspec : (spot.outline.get e).kind ≠ .package .spec)
    (hi : resolveHere spot.outline e (n.qualifier spot.cursor) spot.cursor.currentWord wanted =
      some i) : n.goto spot wanted = pure (some (.here i)) := by
  rw [qualifier] at hi
  rw [goto, if_neg hword, hcall, if_neg (by decide), gotoCall]
  dsimp only
  rw [he]
  dsimp only
  rw [if_neg hspec, hi]

/-- What is found is called like the word under the cursor, and lies in the edited file or in a file that
was listed and loaded: the last one, unless it has the wrong flavour. -/
structure Justified (spot : Spot) (wanted : Flavour) (events : List Event)
    (found : Found spot.outline) : Prop where
  named : found.hit.symbol.isNamed spot.cursor.currentWord
  here : ∀ i, found = .here i → events = []
  elsewhere : ∀ hit, found = .elsewhere hit → ∃ path, Loaded events path hit.outline ∧
    (hit.symbol.kind.mismatches (spot.sought wanted) = false →
      events.getLast? = some (.loaded path (.ok hit.outline)))

namespace Justified
variable {spot : Spot} {wanted : Flavour} {events : List Event}

theorem of_here {i : spot.outline.Id} (h : (spot.outline.get i).isNamed spot.cursor.currentWord) :
    Justified spot wanted [] (.here i) :=
  ⟨h, fun _ _ => rfl, fun hit hhit => by contradiction⟩

theorem of_elsewhere {hit : Hit} (h : hit.symbol.isNamed spot.cursor.currentWord)
    (horigin : ∃ path, Loaded events path hit.outline ∧
      (hit.symbol.kind.mismatches (spot.sought wanted) = false →
        events.getLast? = some (.loaded path (.ok hit.outline)))) :
    Justified spot wanted events (.elsewhere hit) := by
  refine ⟨h, fun i hi => by contradiction, fun other hother => ?_⟩
  cases hother
  exact horigin

end Justified

theorem DefinitionFound.justified {spot : Spot} {qualifier : String} {wanted : Flavour}
    {events : List Event} {found : Found spot.outline}
    (h : DefinitionFound spot qualifier wanted events found)
    (hcall : spot.cursor.isDeclaration = false) : Justified spot wanted events found := by
  have hsought : spot.sought wanted = wanted := by
    rw [Spot.sought, hcall]
    rfl
  cases h with
  | here _ hi => exact .of_here (resolveHere_isNamed hi)
  | elsewhere hsearch =>
    obtain ⟨hnamed, horigin⟩ := hsearch.origin
    rw [← hsought] at horigin
    exact .of_elsewhere hnamed horigin

theorem CounterpartFound.justified {spot : Spot} {s : spot.outline.Id} {events : List Event}
    {found : Found spot.outline} (h : CounterpartFound spot.outline s events found)
    (hheader : spot.cursor.isDeclaration = true) (hs : spot.target = some s) (wanted : Flavour) :
    Justified spot wanted events found := by
  have hword : (spot.outline.get s).isNamed spot.cursor.currentWord := by
    rw [Spot.target, if_pos hheader] at hs
    exact (Outline.declarationAt?_eq_some hs).2
  have hsought : spot.sought wanted = (spot.outline.get s).kind.sought := by
    rw [Spot.sought, if_pos hheader, hs]
    rfl
  cases h with
  | here hnamed _ => exact .of_here (Symbol.isNamed_trans hnamed hword)
  | package _ hnamed _ hloaded hlast =>
    exact .of_elsewhere (Symbol.isNamed_trans hnamed hword) ⟨_, hloaded, fun _ => hlast⟩
  | member _ hsearch =>
    obtain ⟨hnamed, horigin⟩ := hsearch.origin
    rw [← hsought] at horigin
    exact .of_elsewhere (Symbol.isNamed_trans hnamed hword) horigin

/-- Whatever the source, going to a definition finds what is asked for, and finds nothing without a
word. -/
theorem goto_justified (n : Navigator σ) (spot : Spot) (wanted : Flavour) :
    n.source.Records (n.goto spot wanted) (n.recorded.goto spot wanted) fun events result =>
      Finds (Justified spot wanted) events result ∧
        (spot.cursor.currentWord = "" → events = [] ∧ result = .ok none) := by
  by_cases hword : spot.cursor.currentWord = ""
  · rw [goto, goto, if_pos hword, if_pos hword]
    refine (Records.pure none).imp fun events result h => ⟨fun found hfound => ?_, fun _ => h⟩
    rw [h.2] at hfound
    cases hfound
  · have hfinds : n.source.Records (n.goto spot wanted) (n.recorded.goto spot wanted)
        (Finds (Justified spot wanted)) := by
      cases hheader : spot.cursor.isDeclaration with
      | true =>
        refine (goto_declaration n spot wanted hheader).imp fun events result h => h.imp ?_
        rintro found ⟨s, hs, hfound⟩
        exact hfound.justified hheader hs wanted
      | false =>
        refine (goto_call n spot wanted hheader).imp fun events result h => h.imp ?_
        exact fun found hfound => hfound.justified hheader
    exact hfinds.imp fun events result h => ⟨h, fun hempty => absurd hempty hword⟩

end Navigator

end PlsqlNav
