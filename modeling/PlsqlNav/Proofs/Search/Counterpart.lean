import PlsqlNav.Proofs.Outline.Kinds
import PlsqlNav.Proofs.Search.Origin
import PlsqlNav.Search.Memory

/-! Jumping between specification and body. In the edited file, and from a package anywhere, a jump lands
on the counterpart of where it starts. From a routine to another file it lands where the search for a
definition ends, which prefers the flavour of the counterpart. -/
namespace PlsqlNav

/-- The flavour that is looked for where a declaration of this kind is left for its counterpart. -/
def Symbol.Kind.sought (k : Symbol.Kind) : Flavour := if k.counterpart.isSpec then .spec else .body

/-- The package or routine that a jump starts from. -/
def Spot.target (spot : Spot) : Option spot.outline.Id :=
  if spot.cursor.isDeclaration then
    spot.outline.declarationAt? spot.cursor.currentWord spot.offset
  else spot.outline.enclosing? spot.offset

theorem Spot.target_hasCounterpart {spot : Spot} {s : spot.outline.Id} (h : spot.target = some s) :
    (spot.outline.get s).kind.hasCounterpart := by
  rw [target] at h
  split at h
  · exact Symbol.Kind.hasCounterpart_of_declared (Outline.declarationAt?_eq_some h).1
  · exact Symbol.Kind.hasCounterpart_of_isBlock (Outline.enclosing?_isBlock h)

namespace Navigator
open CandidateSource

variable {σ : Type}

/-- An answer to the question for the counterpart of `s`. -/
inductive CounterpartFound (o : Outline) (s : o.Id) : List Event → Found o → Prop
  | here {i} : (o.get i).isNamed (o.get s).name → (o.get i).kind = (o.get s).kind.counterpart →
      CounterpartFound o s [] (.here i)
  | package {events hit path} : (o.get s).kind.isPackage → hit.symbol.isNamed (o.get s).name →
      hit.symbol.kind = (o.get s).kind.counterpart → Loaded events path hit.outline →
      events.getLast? = some (.loaded path (.ok hit.outline)) →
      CounterpartFound o s events (.elsewhere hit)
  | member {events parent hit} : o.parent? s = some parent →
      FromSearch (o.get parent).name (o.get s).name (o.get s).kind.sought events hit →
      CounterpartFound o s events (.elsewhere hit)

theorem counterpartOf_finds (n : Navigator σ) (o : Outline) (s : o.Id) (wanted : Flavour) :
    n.source.Records (n.counterpartOf o s wanted) (n.recorded.counterpartOf o s wanted)
      (Finds (CounterpartFound o s)) := by
  have hnone : n.source.Records (pure none) (pure none) (Finds (CounterpartFound o s)) :=
    Records.finds none fun found hfound => by contradiction
  rw [counterpartOf, counterpartOf]
  dsimp only
  cases hparent : o.parent? s with
  | none => exact hnone
  | some parent =>
    dsimp only
    split
    · exact hnone
    · split
      · next i hi =>
        refine Records.finds _ fun found hfound => ?_
        cases hfound
        split at hi
        · contradiction
        · have hbeside := List.find?_some hi
          rw [Bool.and_eq_true, Bool.and_eq_true, beq_iff_eq] at hbeside
          exact .here hbeside.2 hbeside.1.2
      · split
        · refine Records.finds _ fun found hfound => ?_
          obtain ⟨i, hi, rfl⟩ := Option.map_eq_some_iff.mp hfound
          obtain ⟨_, hnamed, hkind⟩ := Outline.namedOf?_eq_some hi
          exact .here hnamed hkind
        · split
          · exact hnone
          · refine (searchElsewhere_finds n o _ _ _).imp fun events result h => h.imp ?_
            rintro _ ⟨hit, hsearch, rfl⟩
            exact .member hparent hsearch

/-- The other part of a package is looked for by its name and kind. -/
theorem Scanned.package {o : Outline} {s : o.Id} {hints : List String} {events : List Event}
    {hit : Hit} (hs : (o.get s).kind.isPackage)
    (h : Scanned hints (fun c => match c.namedOf? c.topLevel false (o.get s).name
        [(o.get s).kind.counterpart] with
      | some found => .accept (Hit.mk c found)
      | none => .reject) events (.ok (some hit))) :
    CounterpartFound o s events (.elsewhere hit) := by
  obtain ⟨path, c, hloaded, ⟨hjudge, hlast⟩ | hjudge⟩ := h.origin rfl
  · split at hjudge
    · next i hi =>
      cases hjudge
      obtain ⟨_, hnamed, hkind⟩ := Outline.namedOf?_eq_some hi
      exact .package hs hnamed hkind hloaded hlast
    · contradiction
  · split at hjudge <;> contradiction

theorem switch_finds (n : Navigator σ) (spot : Spot) :
    n.source.Records (n.switch spot) (n.recorded.switch spot)
      (Finds fun events found => ∃ s, spot.target = some s ∧
        CounterpartFound spot.outline s events found) := by
  rw [switch, switch]
  dsimp only
  split
  · exact Records.finds none fun found hfound => by contradiction
  · next s htarget =>
    have htarget : spot.target = some s := htarget
    split
    · refine (counterpartOf_finds n spot.outline s _).imp fun events result h => h.imp ?_
      exact fun found hfound => ⟨s, htarget, hfound⟩
    · next hkind =>
      rw [Bool.not_eq_true', Bool.not_eq_false] at hkind
      split
      · next hother =>
        refine Records.finds _ fun found hfound => ⟨s, htarget, ?_⟩
        cases hfound
        obtain ⟨_, hnamed, hcounterpart⟩ := Outline.packageCounterpart_of_ne hother
        exact .here hnamed hcounterpart
      · refine (Records.finds_map ((scan_records n _ _).imp (Q := Finds fun events hit =>
          CounterpartFound spot.outline s events (.elsewhere hit)) ?_) _).imp ?_
        · rintro events _ hscanned hit rfl
          exact hscanned.package hkind
        · intro events result h
          refine h.imp ?_
          rintro _ ⟨hit, hfound, rfl⟩
          exact ⟨s, htarget, hfound⟩

theorem goto_declaration (n : Navigator σ) (spot : Spot) (wanted : Flavour)
    (h : spot.cursor.isDeclaration = true) :
    n.source.Records (n.goto spot wanted) (n.recorded.goto spot wanted)
      (Finds fun events found => ∃ s, spot.target = some s ∧
        CounterpartFound spot.outline s events found) := by
  rw [goto, goto, if_pos h, if_pos h]
  split
  · exact Records.finds none fun found hfound => by contradiction
  · split
    · exact Records.finds none fun found hfound => by contradiction
    · next s hs =>
      have htarget : spot.target = some s := by rw [Spot.target, if_pos h, hs]
      refine (counterpartOf_finds n spot.outline s wanted).imp fun events result hresult => ?_
      exact hresult.imp fun found hfound => ⟨s, htarget, hfound⟩

/-- Where a jump from `s` lands. -/
structure Landing (o : Outline) (s : o.Id) (events : List Event) (found : Found o) : Prop where
  named : found.hit.symbol.isNamed (o.get s).name
  here : ∀ i, found = .here i →
    i ≠ s ∧ (o.get i).kind = (o.get s).kind.counterpart ∧ events = []
  elsewhere : ∀ hit, found = .elsewhere hit → ∃ path, Loaded events path hit.outline
  package : (o.get s).kind.isPackage → found.hit.symbol.kind = (o.get s).kind.counterpart
  /-- From a routine to another file, the jump goes where the search for its name in its package ends. -/
  routine : ∀ hit, found = .elsewhere hit → (o.get s).kind.isPackage = false →
    ∃ parent, o.parent? s = some parent ∧
      Protocol (o.get parent).name (o.get s).name (o.get s).kind.sought events (.ok (some hit))

theorem CounterpartFound.landing {o : Outline} {s : o.Id} {events : List Event} {found : Found o}
    (h : CounterpartFound o s events found) (hs : (o.get s).kind.hasCounterpart)
    (hpackage : (o.get s).kind.isPackage → o.parent? s = none) : Landing o s events found := by
  cases h with
  | @here i hnamed hkind =>
    refine ⟨hnamed, fun j hj => ?_, fun hit hhit => by contradiction, fun _ => hkind,
      fun hit hhit => by contradiction⟩
    cases hj
    refine ⟨?_, hkind, rfl⟩
    rintro rfl
    exact (o.get i).kind.counterpart_ne_iff.mpr hs hkind.symm
  | @package events hit path hs hnamed hkind hloaded _ =>
    refine ⟨hnamed, fun i hi => by contradiction, fun other hother => ?_, fun _ => hkind,
      fun other _ hroutine => ?_⟩
    · cases hother
      exact ⟨path, hloaded⟩
    · rw [hs] at hroutine
      contradiction
  | @member events parent hit hparent hsearch =>
    obtain ⟨hnamed, path, hloaded, _⟩ := hsearch.origin
    refine ⟨hnamed, fun i hi => by contradiction, fun other hother => ?_, fun hs => ?_,
      fun other hother _ => ?_⟩
    · cases hother
      exact ⟨path, hloaded⟩
    · rw [hpackage hs] at hparent
      contradiction
    · cases hother
      exact ⟨parent, hparent, hsearch.protocol⟩

/-- Switching, or going from the header of a routine, lands on a symbol of the same name. It is the
counterpart where it lies in the edited file, and from a package anywhere. -/
theorem jump_landing (n : Navigator σ) (file text : String) (offset : Nat) (cursor : Cursor)
    (wanted : Flavour) :
    let spot : Spot := ⟨.ofText file text, offset, cursor⟩
    let lands := Finds fun events found =>
      ∃ s, spot.target = some s ∧ Landing spot.outline s events found
    n.source.Records (n.switch spot) (n.recorded.switch spot) lands ∧
      (cursor.isDeclaration = true →
        n.source.Records (n.goto spot wanted) (n.recorded.goto spot wanted) lands) := by
  intro spot lands
  have hlands (events : List Event) (result : Except SearchError (Option (Found spot.outline)))
      (h : Finds (fun events found => ∃ s, spot.target = some s ∧
        CounterpartFound spot.outline s events found) events result) : lands events result := by
    refine h.imp ?_
    rintro found ⟨s, htarget, hfound⟩
    exact ⟨s, htarget, hfound.landing (Spot.target_hasCounterpart htarget)
      (Outline.ofText_package file text)⟩
  constructor
  · exact (switch_finds n spot).imp hlands
  · intro hdeclaration
    exact (goto_declaration n spot wanted hdeclaration).imp hlands

section Saved

/-- The body of a package, which is also among the files as it was saved. -/
def savedBody : String := "package body p is procedure x is begin null; end x; end p;"

def savedSpot : Spot := ⟨.ofText "p.pkb" savedBody, 18, ⟨some "procedure", "x", false⟩⟩

def savedFiles : Navigator Unit := ⟨(MemoryFiles.mk [(⟨"p.pkb"⟩, savedBody)]).source, id⟩

theorem ok_of_toOption_join {ε α : Type} {x : Except ε (Option α)} {a : α}
    (h : x.toOption.join = some a) : x = .ok (some a) := by
  cases x with
  | error => contradiction
  | ok answer => exact congrArg Except.ok h

theorem goto_savedBody : savedSpot.cursor.isDeclaration = true ∧
    ∃ s events found, savedSpot.target = some s ∧ Landing savedSpot.outline s events found := by
  have hheader : savedSpot.cursor.isDeclaration = true := by decide
  have hfound : ((savedFiles.goto savedSpot .body).run.run ()).1.toOption.join.isSome := by
    decide +kernel
  obtain ⟨found, hok⟩ := Option.isSome_iff_exists.mp hfound
  obtain ⟨events, result, _, hrun, _, _, hlands⟩ :=
    (jump_landing savedFiles "p.pkb" savedBody 18 savedSpot.cursor .body).2 hheader () []
  have hresult : result = .ok (some found) :=
    (congrArg Prod.fst hrun).symm.trans (ok_of_toOption_join hok)
  obtain ⟨s, htarget, hlanding⟩ := hlands found hresult
  exact ⟨hheader, s, events, found, htarget, hlanding⟩

/-- With no specification in any file, a switch from the procedure lands on its saved copy. -/
theorem switch_savedBody : ∃ s found, savedSpot.target = some s ∧
    ((savedFiles.switch savedSpot).run.run ()).1 = .ok (some found) ∧
      (savedSpot.outline.get s).kind = .procedure .body ∧
        found.hit.symbol.kind = .procedure .body := by
  have htarget : (savedSpot.target.map fun s => (savedSpot.outline.get s).kind) =
      some (.procedure .body) := by decide +kernel
  have hfound : (((savedFiles.switch savedSpot).run.run ()).1.toOption.join.map
      fun found => found.hit.symbol.kind) = some (.procedure .body) := by decide +kernel
  obtain ⟨s, hs, hkind⟩ := Option.map_eq_some_iff.mp htarget
  obtain ⟨found, hf, hsame⟩ := Option.map_eq_some_iff.mp hfound
  exact ⟨s, found, hs, ok_of_toOption_join hf, hkind, hsame⟩

end Saved

end Navigator

end PlsqlNav
