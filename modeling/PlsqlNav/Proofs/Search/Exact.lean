import PlsqlNav.Proofs.Outline.Switching
import PlsqlNav.Proofs.Search.Counterpart

/-! Searches that take an exact answer or none: the members of a package, and the other part of one. The
first file with an answer ends the search, and nothing less is looked for when no file has one. -/
namespace PlsqlNav

variable {σ α β : Type}

namespace Navigator
open CandidateSource

/-- One pass over the candidates for `hints`, which stops at the first file that has an answer or fails
to load: what is recorded, and what comes out. -/
inductive ExactPass (hints : List String) (Answer : Outline → α → Prop) :
    List Event → Except SearchError (Option α) → Prop
  | unlisted {e} : ExactPass hints Answer [.listed hints (.error e)] (.error e)
  | failed {files : List (Path × Outline)} {path rest e} : (∀ f ∈ files, ∀ a, ¬ Answer f.2 a) →
      ExactPass hints Answer
        (.listed hints (.ok (files.map Prod.fst ++ path :: rest)) ::
          (loads files ++ [.loaded path (.error e)])) (.error e)
  | answered {files : List (Path × Outline)} {path rest o a} : (∀ f ∈ files, ∀ a, ¬ Answer f.2 a) →
      Answer o a →
      ExactPass hints Answer
        (.listed hints (.ok (files.map Prod.fst ++ path :: rest)) ::
          (loads files ++ [.loaded path (.ok o)])) (.ok (some a))
  | unanswered {files : List (Path × Outline)} : (∀ f ∈ files, ∀ a, ¬ Answer f.2 a) →
      ExactPass hints Answer (.listed hints (.ok (files.map Prod.fst)) :: loads files) (.ok none)

section Pass
variable {hints : List String} {Answer : Outline → α → Prop} {judge : Outline → Verdict α}
  {events : List Event} {result : Except SearchError (Option α)}

/-- The test accepts what answers, and sets nothing aside. -/
def Exact (judge : Outline → Verdict α) (Answer : Outline → α → Prop) : Prop :=
  ∀ o, (∃ a, judge o = .accept a ∧ Answer o a) ∨ judge o = .reject ∧ ∀ a, ¬ Answer o a

theorem Exact.answer_of_accept (h : Exact judge Answer) {o : Outline} {a : α}
    (ha : judge o = .accept a) : Answer o a := by
  rcases h o with ⟨b, hb, hanswer⟩ | ⟨hreject, _⟩
  · rw [ha] at hb
    cases hb
    exact hanswer
  · rw [ha] at hreject
    contradiction

theorem Exact.reject_of_isAccept (h : Exact judge Answer) {o : Outline}
    (ho : (judge o).isAccept = false) : judge o = .reject ∧ ∀ a, ¬ Answer o a := by
  rcases h o with ⟨a, ha, _⟩ | hreject
  · rw [ha] at ho
    contradiction
  · exact hreject

theorem Scanned.exactPass (h : Scanned hints judge events result) (exact : Exact judge Answer) :
    ExactPass hints Answer events result := by
  have hnone {files : List (Path × Outline)} (hfiles : ∀ f ∈ files, (judge f.2).isAccept = false) :
      ∀ f ∈ files, ∀ a, ¬ Answer f.2 a :=
    fun f hf => (exact.reject_of_isAccept (hfiles f hf)).2
  cases h with
  | unlisted => exact .unlisted
  | listed h =>
    cases h with
    | failed hfiles => exact .failed (hnone hfiles)
    | accepted hfiles ha => exact .answered (hnone hfiles) (exact.answer_of_accept ha)
    | @exhausted files hfiles =>
      have hrejected : (files.findSome? fun f => (judge f.2).tentative?) = none := by
        rw [List.findSome?_eq_none_iff]
        intro f hf
        rw [(exact.reject_of_isAccept (hfiles f hf)).1]
        rfl
      rw [hrejected]
      exact .unanswered (hnone hfiles)

theorem ExactPass.map (h : ExactPass hints Answer events result) {f : α → β}
    {Answer' : Outline → β → Prop} (hiff : ∀ o b, Answer' o b ↔ ∃ a, Answer o a ∧ b = f a) :
    ExactPass hints Answer' events (result.map (Option.map f)) := by
  have hnone {files : List (Path × Outline)} (hfiles : ∀ f ∈ files, ∀ a, ¬ Answer f.2 a) :
      ∀ f ∈ files, ∀ b, ¬ Answer' f.2 b := by
    intro f hf b hb
    obtain ⟨a, ha, _⟩ := (hiff f.2 b).mp hb
    exact hfiles f hf a ha
  cases h with
  | unlisted => exact .unlisted
  | failed hfiles => exact .failed (hnone hfiles)
  | answered hfiles ha => exact .answered (hnone hfiles) ((hiff _ _).mpr ⟨_, ha, rfl⟩)
  | unanswered hfiles => exact .unanswered (hnone hfiles)

/-- Every candidate loads, and none has an answer. -/
def Exhausts (hints : List String) (Answer : Outline → α → Prop) (events : List Event) : Prop :=
  ∃ files, events = .listed hints (.ok (files.map Prod.fst)) :: loads files ∧
    ∀ f ∈ files, ∀ a, ¬ Answer f.2 a

theorem mem_loads {files : List (Path × Outline)} {path : Path} {answer : Except SearchError Outline} :
    Event.loaded path answer ∈ loads files ↔ ∃ o, answer = .ok o ∧ (path, o) ∈ files := by
  rw [loads, List.mem_map]
  constructor
  · rintro ⟨⟨path, o⟩, hf, heq⟩
    cases heq
    exact ⟨o, rfl, hf⟩
  · rintro ⟨o, rfl, hf⟩
    exact ⟨(path, o), hf, rfl⟩

theorem ExactPass.eq_none_iff (h : ExactPass hints Answer events result) :
    result = .ok none ↔ Exhausts hints Answer events := by
  constructor
  · rintro rfl
    cases h with
    | unanswered hfiles => exact ⟨_, rfl, hfiles⟩
  · rintro ⟨files, hevents, hfiles⟩
    have hlast {path : Path} {answer : Except SearchError Outline} {before : List Event}
        (h : before ++ [.loaded path answer] = loads files) :
        ∃ o, answer = .ok o ∧ (path, o) ∈ files := by
      apply mem_loads.mp
      rw [← h]
      exact List.mem_append_right before List.mem_cons_self
    cases h with
    | unlisted => cases hevents
    | failed =>
      obtain ⟨o, ho, _⟩ := hlast (List.cons.inj hevents).2
      contradiction
    | answered _ ha =>
      obtain ⟨o, ho, hmem⟩ := hlast (List.cons.inj hevents).2
      cases ho
      exact absurd ha (hfiles _ hmem _)
    | unanswered => rfl

end Pass

end Navigator

namespace Outline

/-- The members of the first specification of the package, in text order. -/
def Members (package : String) (o : Outline) (hits : List Hit) : Prop :=
  ∃ i, (o.FirstUnit package (.package .spec) i ∧ (o.children i).Pairwise (· < ·)) ∧
    hits = (o.children i).map (Hit.mk o)

/-- The first unit of the name and kind in another file than the edited one. -/
def OtherPart (edited : Outline) (name : String) (kind : Symbol.Kind) (o : Outline)
    (found : Found edited) : Prop :=
  ∃ i, o.FirstUnit name kind i ∧ found = .elsewhere ⟨o, i⟩

end Outline

namespace Navigator
open CandidateSource Outline

/-- Any search for one symbol makes an exact test. -/
theorem exact_find {find : (o : Outline) → Option o.Id} {First : (o : Outline) → o.Id → Prop}
    (h : ∀ o i, find o = some i ↔ First o i) (answer : (o : Outline) → o.Id → α) :
    Exact (fun o => match find o with
      | some i => .accept (answer o i)
      | none => .reject) (fun o a => ∃ i, First o i ∧ a = answer o i) := by
  intro o
  dsimp only
  cases hfound : find o with
  | some i => exact .inl ⟨_, rfl, i, (h o i).mp hfound, rfl⟩
  | none =>
    refine .inr ⟨rfl, ?_⟩
    rintro a ⟨i, hi, _⟩
    rw [(h o i).mpr hi] at hfound
    contradiction

theorem find?_specification_eq_some_iff (package : String) (o : Outline) (i : o.Id) :
    (o.topLevel.find? fun i => (o.get i).kind == .package .spec && (o.get i).isNamed package) = some i ↔
      o.FirstUnit package (.package .spec) i ∧ (o.children i).Pairwise (· < ·) := by
  rw [find?_topLevel_eq_some_iff, and_iff_left (children_ascend i), FirstUnit]
  simp only [HasUnit, Bool.and_eq_true, beq_iff_eq, and_comm]

theorem complete_exactPass (n : Navigator σ) {cursor : Cursor} {previous : String}
    (h : cursor.previousWord = some previous) :
    n.source.Records (n.complete cursor) (n.recorded.complete cursor)
      (ExactPass [n.translate previous, cursor.currentWord] (Members (n.translate previous))) := by
  rw [complete, complete, h]
  refine (scan_records n _ _).imp fun events result hscanned => hscanned.exactPass ?_
  exact exact_find (find?_specification_eq_some_iff _) fun o i => (o.children i).map (Hit.mk o)

/-- A switch from a package whose other part is not in the edited file. -/
theorem switch_exactPass (n : Navigator σ) {spot : Spot} {s : spot.outline.Id}
    (htarget : spot.target = some s) (hs : (spot.outline.get s).kind.isPackage)
    (halone : spot.outline.packageCounterpart s = s) :
    n.source.Records (n.switch spot) (n.recorded.switch spot)
      (ExactPass [(spot.outline.get s).name] (spot.outline.OtherPart (spot.outline.get s).name
        (spot.outline.get s).kind.counterpart)) := by
  have hmatch : (if spot.cursor.isDeclaration then
      spot.outline.declarationAt? spot.cursor.currentWord spot.offset
    else spot.outline.enclosing? spot.offset) = some s := htarget
  have hscan (events : List Event) (result : Except SearchError (Option Hit))
      (h : Scanned [(spot.outline.get s).name] (fun o => match o.namedOf? o.topLevel false
          (spot.outline.get s).name [(spot.outline.get s).kind.counterpart] with
        | some i => .accept (Hit.mk o i)
        | none => .reject) events result) :
      ExactPass [(spot.outline.get s).name] (spot.outline.OtherPart (spot.outline.get s).name
        (spot.outline.get s).kind.counterpart) events (result.map (Option.map Found.elsewhere)) := by
    refine (h.exactPass (exact_find (fun o i => namedOf?_topLevel_eq_some_iff) Hit.mk)).map ?_
    intro o found
    constructor
    · rintro ⟨i, hi, rfl⟩
      exact ⟨_, ⟨i, hi, rfl⟩, rfl⟩
    · rintro ⟨_, ⟨i, hi, rfl⟩, rfl⟩
      exact ⟨i, hi, rfl⟩
  rw [switch, switch]
  simp only [hmatch, hs, halone, Bool.not_true, Bool.false_eq_true, if_false, ne_eq, not_true]
  refine (Records.bind (scan_records n _ _) fun hit => Records.pure (hit.map Found.elsewhere)).imp ?_
  intro events result h
  cases h with
  | failed h => exact hscan _ _ h
  | next h hrest =>
    obtain ⟨rfl, rfl⟩ := hrest
    rw [List.append_nil]
    exact hscan _ _ h

/-- Completing the members of a package, and switching from a package whose other part is in no unit of
the edited file, each take one pass for an exact answer. -/
theorem exact_passes (n : Navigator σ) :
    (∀ cursor : Cursor, n.source.Records (n.complete cursor) (n.recorded.complete cursor)
      fun events result => match cursor.previousWord with
        | none => events = [] ∧ result = .ok none
        | some previous =>
          let hints := [n.translate previous, cursor.currentWord]
          ExactPass hints (Members (n.translate previous)) events result ∧
            (result = .ok none ↔ Exhausts hints (Members (n.translate previous)) events)) ∧
    ∀ (spot : Spot) (s : spot.outline.Id), spot.target = some s →
      (spot.outline.get s).kind.isPackage →
      (∀ t, ¬ spot.outline.HasUnit (spot.outline.get s).name (spot.outline.get s).kind.counterpart t) →
      n.source.Records (n.switch spot) (n.recorded.switch spot) fun events result =>
        let Answer := spot.outline.OtherPart (spot.outline.get s).name
          (spot.outline.get s).kind.counterpart
        ExactPass [(spot.outline.get s).name] Answer events result ∧
          (result = .ok none ↔ Exhausts [(spot.outline.get s).name] Answer events) := by
  constructor
  · intro cursor
    cases hprevious : cursor.previousWord with
    | none =>
      rw [complete, complete, hprevious]
      exact Records.pure none
    | some previous =>
      exact (complete_exactPass n hprevious).imp fun events result h => ⟨h, h.eq_none_iff⟩
  · intro spot s htarget hs hnone
    have halone : spot.outline.packageCounterpart s = s :=
      packageCounterpart_eq_self_iff.mpr fun ⟨_, t, ht⟩ => hnone t ht
    exact (switch_exactPass n htarget hs halone).imp fun events result h => ⟨h, h.eq_none_iff⟩

section Saved

/-- A specification in one file, whose body is in another one. -/
def specSpot : Spot := ⟨.ofText "p.pks" "package p is procedure x; end p;", 14, ⟨none, "x", false⟩⟩

def specFiles : Navigator Unit :=
  let files := [(⟨"old_p.pks"⟩, "package p is end;"), (⟨"p.pkb"⟩, "package body P is end;")]
  ⟨(MemoryFiles.mk files).source, id⟩

theorem exact_passes_body : ∃ s, specSpot.target = some s ∧
    (specSpot.outline.get s).kind.isPackage ∧
    (∀ t, ¬ specSpot.outline.HasUnit (specSpot.outline.get s).name
      (specSpot.outline.get s).kind.counterpart t) ∧
    ∃ events found, found.hit.outline.file = "p.pkb" ∧ ExactPass [(specSpot.outline.get s).name]
      (specSpot.outline.OtherPart (specSpot.outline.get s).name
        (specSpot.outline.get s).kind.counterpart) events (.ok (some found)) := by
  have htarget : (specSpot.target.map fun s => ((specSpot.outline.get s).kind.isPackage,
      specSpot.outline.namedOf? specSpot.outline.topLevel false (specSpot.outline.get s).name
        [(specSpot.outline.get s).kind.counterpart])) = some (true, none) := by decide +kernel
  obtain ⟨s, hs, hkind⟩ := Option.map_eq_some_iff.mp htarget
  obtain ⟨hpackage, hnone⟩ := Prod.mk.inj hkind
  rw [namedOf?_topLevel_eq_none_iff] at hnone
  have hfound : ((specFiles.switch specSpot).run.run ()).1.toOption.join.map
      (fun found => found.hit.outline.file) = some "p.pkb" := by decide +kernel
  obtain ⟨found, hok, hfile⟩ := Option.map_eq_some_iff.mp hfound
  obtain ⟨events, result, _, hrun, _, _, hpass, _⟩ :=
    (exact_passes specFiles).2 specSpot s hs hpackage hnone () []
  have hresult : result = .ok (some found) :=
    (congrArg Prod.fst hrun).symm.trans (ok_of_toOption_join hok)
  exact ⟨s, hs, hpackage, hnone, events, found, hfile, hresult ▸ hpass⟩

end Saved

end Navigator

end PlsqlNav
