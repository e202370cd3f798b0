import PlsqlNav.Proofs.Search.Pass
import PlsqlNav.Search.Memory
import PlsqlNav.Search.Synonyms

/-! Letter case makes no difference to a search. Two runs whose words differ only in the case of their
letters ask their source alike, read the same files and come to the same result. -/
namespace PlsqlNav

theorem Text.lower_eq_empty (a : String) : lower a = "" ↔ a = "" := by
  rw [lower, ← String.toList_inj, String.toList_ofList, ← String.toList_inj]
  exact List.map_eq_nil_iff

/-- Words with the same letters, perhaps in another case. -/
structure Cursor.Alike (c c' : Cursor) : Prop where
  current : Text.sameName c.currentWord c'.currentWord
  previous : c.previousWord.map Text.lower = c'.previousWord.map Text.lower
  dot : c.previousDot = c'.previousDot

section Names
variable {o : Outline} {a b q r : String} (h : Text.sameName a b) (hq : Text.sameName q r)

section
include h

theorem Text.sameName_congr (x : String) : sameName x a = sameName x b := by
  rw [sameName, sameName, (sameName_iff a b).mp h]

theorem Text.eq_empty_congr : a = "" ↔ b = "" := by
  rw [← lower_eq_empty a, (sameName_iff a b).mp h, lower_eq_empty]

theorem Text.isEmpty_congr : (a == "") = (b == "") := by
  rw [Bool.eq_iff_iff, beq_iff_eq, beq_iff_eq, eq_empty_congr h]

theorem Symbol.isNamed_congr (x : Symbol) : x.isNamed a = x.isNamed b :=
  Text.sameName_congr h x.name

theorem Outline.namedFrom?_congr (scope : List o.Id) (deep : Bool) (offset : Nat) :
    o.namedFrom? scope deep a offset = o.namedFrom? scope deep b offset := by
  simp only [namedFrom?, Symbol.isNamed_congr h]

theorem Outline.namedOf?_congr (scope : List o.Id) (deep : Bool) (kinds : List Symbol.Kind) :
    o.namedOf? scope deep a kinds = o.namedOf? scope deep b kinds := by
  simp only [namedOf?, Symbol.isNamed_congr h]

theorem Outline.declarationAt?_congr (offset : Nat) :
    o.declarationAt? a offset = o.declarationAt? b offset := by
  simp only [declarationAt?, Symbol.isNamed_congr h]

theorem Outline.resolveIn_congr (scope : o.Id) (wanted : Flavour) :
    o.resolveIn scope a wanted = o.resolveIn scope b wanted := by
  simp only [resolveIn, namedFrom?_congr h, namedOf?_congr h]

end

include h hq

theorem Outline.judge_congr (wanted : Flavour) : judge q a wanted = judge r b wanted := by
  funext o
  simp only [judge, Text.isEmpty_congr hq, Symbol.isNamed_congr hq, resolveIn_congr h]

theorem Navigator.resolveHere_congr (e : o.Id) (wanted : Flavour) :
    resolveHere o e q a wanted = resolveHere o e r b wanted := by
  simp only [resolveHere, Text.isEmpty_congr hq, Symbol.isNamed_congr hq, Outline.resolveIn_congr h]

end Names

theorem Cursor.Alike.previousWord {c c' : Cursor} (h : c.Alike c') :
    (c.previousWord = none ∧ c'.previousWord = none) ∨
      ∃ a b, c.previousWord = some a ∧ c'.previousWord = some b ∧ Text.sameName a b := by
  have hprevious := h.previous
  cases hc : c.previousWord with
  | none =>
    rw [hc, Option.map_none, eq_comm, Option.map_eq_none_iff] at hprevious
    exact .inl ⟨rfl, hprevious⟩
  | some a =>
    rw [hc, Option.map_some, eq_comm, Option.map_eq_some_iff] at hprevious
    obtain ⟨b, hb, hlower⟩ := hprevious
    exact .inr ⟨a, b, rfl, hb, (Text.sameName_iff a b).mpr hlower.symm⟩

theorem Cursor.Alike.isDeclaration {c c' : Cursor} (h : c.Alike c') :
    c.isDeclaration = c'.isDeclaration := by
  rw [Cursor.isDeclaration, Cursor.isDeclaration]
  obtain ⟨hnone, hnone'⟩ | ⟨a, b, hsome, hsome', hab⟩ := h.previousWord
  · rw [hnone, hnone']
  · rw [hsome, hsome', Option.any_some, Option.any_some, isRoutineKeyword, isRoutineKeyword,
      Text.sameName, Text.sameName, Text.sameName, Text.sameName, (Text.sameName_iff a b).mp hab]

/-- In states that `R` relates, two searches come to the same result, and to states that `R` relates. -/
def Search.Agrees {σ α : Type} (R : σ → σ → Prop) (m m' : Search σ α) : Prop :=
  ∀ s s', R s s' → (m.run.run s).1 = (m'.run.run s').1 ∧ R (m.run.run s).2 (m'.run.run s').2

section Agrees
variable {σ α β : Type} {R : σ → σ → Prop}

theorem Search.Agrees.pure (a : α) : Search.Agrees R (Pure.pure a) (Pure.pure a) :=
  fun _ _ h => ⟨rfl, h⟩

theorem Search.Agrees.bind {m m' : Search σ α} {k k' : α → Search σ β} (h : Search.Agrees R m m')
    (hk : ∀ a, Search.Agrees R (k a) (k' a)) : Search.Agrees R (m >>= k) (m' >>= k') := by
  intro s s' hs
  have hm := h s s' hs
  rw [Search.run_bind, Search.run_bind]
  cases hrun : m.run.run s with
  | mk result t =>
    cases hrun' : m'.run.run s' with
    | mk result' t' =>
      rw [hrun, hrun'] at hm
      obtain ⟨rfl, ht⟩ := hm
      cases result with
      | error e => exact ⟨rfl, ht⟩
      | ok a => exact hk a t t' ht

end Agrees

namespace Navigator
variable {σ : Type}

/-- A navigator whose source answers alike to hints that are alike, and whose translation keeps names
alike. -/
structure IgnoresCase (n : Navigator σ) (R : σ → σ → Prop) : Prop where
  translate : ∀ {a b}, Text.sameName a b → Text.sameName (n.translate a) (n.translate b)
  candidates : ∀ {hints hints' : List String}, hints.map Text.lower = hints'.map Text.lower →
    Search.Agrees R (n.source.candidates hints) (n.source.candidates hints')
  load : ∀ path, Search.Agrees R (n.source.load path) (n.source.load path)

namespace IgnoresCase
variable {n : Navigator σ} {R : σ → σ → Prop} (h : n.IgnoresCase R) {α : Type}
include h

theorem tryEach (judge : Outline → Verdict α) (fallback : Option α) (paths : List Path) :
    Search.Agrees R (n.tryEach judge fallback paths) (n.tryEach judge fallback paths) := by
  induction paths generalizing fallback with
  | nil => exact .pure fallback
  | cons path paths ih =>
    rw [Navigator.tryEach]
    refine (h.load path).bind fun o => ?_
    split
    · exact .pure _
    · exact ih _
    · exact ih _

theorem scan {hints hints' : List String} (hhints : hints.map Text.lower = hints'.map Text.lower)
    (judge : Outline → Verdict α) : Search.Agrees R (n.scan hints judge) (n.scan hints' judge) :=
  (h.candidates hhints).bind fun paths => h.tryEach judge none paths

variable {qualifier qualifier' word word' : String}

theorem searchDefinition (hq : Text.sameName qualifier qualifier') (hw : Text.sameName word word')
    (wanted : Flavour) : Search.Agrees R (n.searchDefinition qualifier word wanted)
      (n.searchDefinition qualifier' word' wanted) := by
  have hq' := (Text.sameName_iff _ _).mp hq
  have hw' := (Text.sameName_iff _ _).mp hw
  rw [Navigator.searchDefinition, Navigator.searchDefinition, Outline.judge_congr hw hq,
    Outline.judge_congr hw (Text.sameName_refl "")]
  refine (h.scan (by simp only [List.map_cons, hq', hw']) _).bind fun found => ?_
  rw [Text.isEmpty_congr hq]
  split
  · exact .pure found
  · exact h.scan (by simp only [List.map_cons, hw']) _

theorem searchElsewhere (edited : Outline) (hq : Text.sameName qualifier qualifier')
    (hw : Text.sameName word word') (wanted : Flavour) :
    Search.Agrees R (n.searchElsewhere edited qualifier word wanted)
      (n.searchElsewhere edited qualifier' word' wanted) :=
  (h.searchDefinition hq hw wanted).bind fun _ => .pure _

theorem counterpartOf (o : Outline) (i : o.Id) (wanted : Flavour) :
    Search.Agrees R (n.counterpartOf o i wanted) (n.counterpartOf o i wanted) := by
  rw [Navigator.counterpartOf]
  dsimp only
  cases o.parent? i with
  | none => exact .pure none
  | some parent =>
    dsimp only
    split
    · exact .pure none
    · split
      · exact .pure _
      · split
        · exact .pure _
        · split
          · exact .pure none
          · exact h.searchElsewhere o (Text.sameName_refl _) (Text.sameName_refl _) _

section Cursors
variable {c c' : Cursor} (hc : c.Alike c') (o : Outline) (offset : Nat)
include hc

/-- What stands before a point is translated alike. -/
theorem qualifier_alike : Text.sameName
    (if c.previousDot then (c.previousWord.map n.translate).getD "" else "")
    (if c'.previousDot then (c'.previousWord.map n.translate).getD "" else "") := by
  rw [hc.dot]
  split
  · obtain ⟨hnone, hnone'⟩ | ⟨a, b, hsome, hsome', hab⟩ := hc.previousWord
    · rw [hnone, hnone']
      exact Text.sameName_refl ""
    · rw [hsome, hsome']
      exact h.translate hab
  · exact Text.sameName_refl ""

theorem gotoCall (wanted : Flavour) : Search.Agrees R (n.gotoCall ⟨o, offset, c⟩ wanted)
    (n.gotoCall ⟨o, offset, c'⟩ wanted) := by
  have hq := h.qualifier_alike hc
  rw [Navigator.gotoCall, Navigator.gotoCall]
  dsimp only
  generalize (if c.previousDot then (c.previousWord.map n.translate).getD "" else "") = q at hq ⊢
  generalize (if c'.previousDot then (c'.previousWord.map n.translate).getD "" else "") = q' at hq ⊢
  cases o.enclosing? offset with
  | none => exact h.searchElsewhere o hq hc.current wanted
  | some e =>
    dsimp only
    split
    · exact .pure none
    · rw [resolveHere_congr hc.current hq]
      cases resolveHere o e q' c'.currentWord wanted with
      | some i => exact .pure _
      | none =>
        refine h.searchElsewhere o ?_ hc.current wanted
        simp only [Text.eq_empty_congr hq]
        split
        · exact Text.sameName_refl _
        · exact hq

theorem goto (wanted : Flavour) : Search.Agrees R (n.goto ⟨o, offset, c⟩ wanted)
    (n.goto ⟨o, offset, c'⟩ wanted) := by
  rw [Navigator.goto, Navigator.goto]
  dsimp only
  simp only [hc.isDeclaration, Outline.declarationAt?_congr hc.current, Text.eq_empty_congr hc.current]
  split
  · exact .pure none
  · split
    · cases o.declarationAt? c'.currentWord offset with
      | none => exact .pure none
      | some i => exact h.counterpartOf o i wanted
    · exact h.gotoCall hc o offset wanted

theorem switch : Search.Agrees R (n.switch ⟨o, offset, c⟩) (n.switch ⟨o, offset, c'⟩) := by
  rw [Navigator.switch, Navigator.switch]
  dsimp only
  rw [hc.isDeclaration, Outline.declarationAt?_congr hc.current]
  generalize (if c'.isDeclaration then o.declarationAt? c'.currentWord offset
    else o.enclosing? offset) = target
  cases target with
  | none => exact .pure none
  | some i =>
    dsimp only
    split
    · exact h.counterpartOf o i _
    · split
      · exact .pure _
      · exact (h.scan rfl _).bind fun hit => .pure _

omit o offset in
theorem complete : Search.Agrees R (n.complete c) (n.complete c') := by
  rw [Navigator.complete, Navigator.complete]
  obtain ⟨hnone, hnone'⟩ | ⟨a, b, hsome, hsome', hab⟩ := hc.previousWord
  · rw [hnone, hnone']
    exact .pure none
  · rw [hsome, hsome']
    have hq := h.translate hab
    simp only [Symbol.isNamed_congr hq]
    refine h.scan ?_ _
    simp only [List.map_cons, (Text.sameName_iff _ _).mp hq, (Text.sameName_iff _ _).mp hc.current]

end Cursors

end IgnoresCase

end Navigator

section Runs
variable {σ α : Type}

/-- The files that a search reads, in order. -/
def CandidateSource.filesRead (events : List CandidateSource.Event) : List Path :=
  events.filterMap fun event =>
    match event with
    | .listed _ _ => none
    | .loaded path _ => some path

/-- Two queries have the same result, failures included, and read the same files in the same order. -/
def Navigator.SameRun (n : Navigator σ) (s : σ)
    (query query' : ∀ {τ : Type}, Navigator τ → Search τ α) : Prop :=
  (query n).run.run s = (query' n).run.run s ∧
    CandidateSource.filesRead ((query n.recorded).run.run (s, [])).2.2 =
      CandidateSource.filesRead ((query' n.recorded).run.run (s, [])).2.2

/-- The same state of the source, and the same files read. -/
def CandidateSource.SameReads (s s' : σ × List CandidateSource.Event) : Prop :=
  s.1 = s'.1 ∧ filesRead s.2 = filesRead s'.2

open CandidateSource

theorem Navigator.IgnoresCase.recorded {n : Navigator σ} (h : n.IgnoresCase Eq) :
    n.recorded.IgnoresCase SameReads where
  translate := h.translate
  candidates := by
    rintro hints hints' hhints ⟨s, events⟩ ⟨_, events'⟩ ⟨rfl, hreads⟩
    obtain ⟨hresult, hstate⟩ := h.candidates hhints s s rfl
    refine ⟨hresult, hstate, ?_⟩
    show filesRead (events ++ [.listed _ _]) = filesRead (events' ++ [.listed _ _])
    rw [filesRead, List.filterMap_append, filesRead, List.filterMap_append]
    exact congrArg (· ++ []) hreads
  load path := by
    rintro ⟨s, events⟩ ⟨_, events'⟩ ⟨rfl, hreads⟩
    obtain ⟨hresult, hstate⟩ := h.load path s s rfl
    refine ⟨hresult, hstate, ?_⟩
    show filesRead (events ++ [.loaded _ _]) = filesRead (events' ++ [.loaded _ _])
    rw [filesRead, List.filterMap_append, filesRead, List.filterMap_append]
    exact congrArg (· ++ [path]) hreads

theorem Navigator.sameRun_of_agrees {n : Navigator σ} (s : σ)
    {query query' : ∀ {τ : Type}, Navigator τ → Search τ α}
    (h : Search.Agrees Eq (query n) (query' n))
    (hrecorded : Search.Agrees SameReads (query n.recorded) (query' n.recorded)) :
    n.SameRun s query query' := by
  obtain ⟨hresult, hstate⟩ := h s s rfl
  exact ⟨Prod.ext hresult hstate, (hrecorded (s, []) (s, []) ⟨rfl, rfl⟩).2.2⟩

end Runs

namespace MemoryFiles

/-- Only the letters of a hint count. -/
theorem matchesHint_eq (hints : List String) (path : Path) : matchesHint hints path =
    (hints.map Text.lower).any fun l =>
      l ≠ "" && occurs l.toList (Text.lower (path.fileName?.getD "")).toList := by
  rw [matchesHint, List.any_map]
  refine congrArg hints.any (funext fun h => ?_)
  simp only [Function.comp, ne_eq, Text.lower_eq_empty]

theorem ignoresCase (m : MemoryFiles) {translate : String → String}
    (ht : translate = id ∨ ∃ table, translate = Synonyms.translate table) :
    Navigator.IgnoresCase ⟨m.source, translate⟩ Eq where
  translate {a b} h := by
    obtain rfl | ⟨table, rfl⟩ := ht
    · exact h
    · show Text.sameName (Synonyms.translate table a) (Synonyms.translate table b)
      simp only [Synonyms.translate, Text.sameName_congr h]
      split
      · exact Text.sameName_refl _
      · exact h
  candidates {hints hints'} h := by
    have hhint : matchesHint hints = matchesHint hints' := by
      funext path
      rw [matchesHint_eq, matchesHint_eq, h]
    have hlisted : m.candidates hints = m.candidates hints' := by
      rw [MemoryFiles.candidates, MemoryFiles.candidates, hhint]
    rintro s _ rfl
    exact ⟨congrArg Except.ok hlisted, rfl⟩
  load path := by
    rintro s _ rfl
    exact ⟨rfl, rfl⟩

/-- Going to definitions, switching and completing do not depend on letter case. -/
theorem navigation_ignores_case (m : MemoryFiles) {translate : String → String}
    (ht : translate = id ∨ ∃ table, translate = Synonyms.translate table) (o : Outline) (offset : Nat)
    (wanted : Flavour) {c c' : Cursor} (hc : c.Alike c') :
    Navigator.SameRun ⟨m.source, translate⟩ ()
        (fun n => n.goto ⟨o, offset, c⟩ wanted) (fun n => n.goto ⟨o, offset, c'⟩ wanted) ∧
      Navigator.SameRun ⟨m.source, translate⟩ ()
        (fun n => n.switch ⟨o, offset, c⟩) (fun n => n.switch ⟨o, offset, c'⟩) ∧
      Navigator.SameRun ⟨m.source, translate⟩ () (fun n => n.complete c) (fun n => n.complete c') := by
  have h := m.ignoresCase ht
  refine ⟨?_, ?_, ?_⟩
  · exact Navigator.sameRun_of_agrees () (h.goto hc o offset wanted) (h.recorded.goto hc o offset wanted)
  · exact Navigator.sameRun_of_agrees () (h.switch hc o offset) (h.recorded.switch hc o offset)
  · exact Navigator.sameRun_of_agrees () (h.complete hc) (h.recorded.complete hc)

theorem navigation_ignores_case_synonym :
    (Synonyms.translate [("HR", "payroll")] = id ∨
        ∃ table, Synonyms.translate [("HR", "payroll")] = Synonyms.translate table) ∧
      Cursor.Alike ⟨some "hr", "Raise", true⟩ ⟨some "Hr", "rAISE", true⟩ ∧
      Navigator.SameRun ⟨source ⟨[(⟨"Payroll.pks"⟩, "package PayRoll is procedure raise; end;")]⟩,
          Synonyms.translate [("HR", "payroll")]⟩ ()
        (fun n => n.goto ⟨Outline.ofText "a.sql" "", 0, ⟨some "hr", "Raise", true⟩⟩ .spec)
        (fun n => n.goto ⟨Outline.ofText "a.sql" "", 0, ⟨some "Hr", "rAISE", true⟩⟩ .spec) := by
  have hc : Cursor.Alike ⟨some "hr", "Raise", true⟩ ⟨some "Hr", "rAISE", true⟩ :=
    ⟨by decide +kernel, by decide +kernel, rfl⟩
  refine ⟨.inr ⟨_, rfl⟩, hc, ?_⟩
  exact (navigation_ignores_case _ (.inr ⟨_, rfl⟩) _ 0 .spec hc).1

end MemoryFiles

end PlsqlNav
