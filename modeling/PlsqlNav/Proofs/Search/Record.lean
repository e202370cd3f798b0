import PlsqlNav.Search.Navigator

/-! The record of a search: which uses it makes of its source, in which order, and what the source
answers. A search on a recorded source takes the same course as without the record. -/
namespace PlsqlNav

/-- A search goes on where the one before it has left its source, unless that one failed. -/
theorem Search.run_bind {σ α β : Type} (m : Search σ α) (k : α → Search σ β) (s : σ) :
    (m >>= k).run.run s = match m.run.run s with
      | (.ok a, s') => (k a).run.run s'
      | (.error e, s') => (.error e, s') := by
  rw [ExceptT.run_bind, StateT.run_bind]
  cases m.run.run s with
  | mk result s' => cases result <;> rfl

namespace CandidateSource
variable {σ α β : Type} (source : CandidateSource σ) {s s' s'' : σ} {events events' : List Event}

/-- In the state `s`, the source answers as the events say when it is used for them in order, and is
then in the last state. -/
inductive Answers : σ → List Event → σ → Prop
  | nil (s : σ) : Answers s [] s
  | listed {s s' s'' hints answer events} : (source.candidates hints).run.run s = (answer, s') →
      Answers s' events s'' → Answers s (.listed hints answer :: events) s''
  | loaded {s s' s'' path answer events} : (source.load path).run.run s = (answer, s') →
      Answers s' events s'' → Answers s (.loaded path answer :: events) s''

variable {source}

theorem Answers.append (h : source.Answers s events s') (h' : source.Answers s' events' s'') :
    source.Answers s (events ++ events') s'' := by
  induction h with
  | nil => exact h'
  | listed hanswer _ ih => exact .listed hanswer (ih h')
  | loaded hanswer _ ih => exact .loaded hanswer (ih h')

variable (source)

/-- The search `m`, which is `m'` on the recorded source: whatever the state, its record tells what the
source answered, and `P` holds of the record and the result. -/
def Records (m : Search σ α) (m' : Search (σ × List Event) α)
    (P : List Event → Except SearchError α → Prop) : Prop :=
  ∀ s past, ∃ events result s', m.run.run s = (result, s') ∧
    m'.run.run (s, past) = (result, s', past ++ events) ∧ source.Answers s events s' ∧
      P events result

namespace Records
variable {source} {m : Search σ α} {m' : Search (σ × List Event) α}
  {P : List Event → Except SearchError α → Prop}

theorem pure (a : α) :
    source.Records (Pure.pure a) (Pure.pure a) fun events result => events = [] ∧ result = .ok a :=
  fun s past => ⟨[], .ok a, s, rfl, by rw [List.append_nil]; rfl, .nil s, rfl, rfl⟩

theorem candidates (hints : List String) :
    source.Records (source.candidates hints) (source.recording.candidates hints)
      fun events result => events = [.listed hints result] :=
  fun _ _ => ⟨_, _, _, rfl, rfl, .listed rfl (.nil _), rfl⟩

theorem load (path : Path) :
    source.Records (source.load path) (source.recording.load path)
      fun events result => events = [.loaded path result] :=
  fun _ _ => ⟨_, _, _, rfl, rfl, .loaded rfl (.nil _), rfl⟩

/-- What a search and the search after it record, unless the first fails. -/
inductive Then (P : List Event → Except SearchError α → Prop)
    (Q : α → List Event → Except SearchError β → Prop) : List Event → Except SearchError β → Prop
  | failed {events e} : P events (.error e) → Then P Q events (.error e)
  | next {events events' a result} : P events (.ok a) → Q a events' result →
      Then P Q (events ++ events') result

theorem bind {k : α → Search σ β} {k' : α → Search (σ × List Event) β}
    {Q : α → List Event → Except SearchError β → Prop} (h : source.Records m m' P)
    (hk : ∀ a, source.Records (k a) (k' a) (Q a)) :
    source.Records (m >>= k) (m' >>= k') (Then P Q) := by
  intro s past
  obtain ⟨events, result, s', hm, hm', hanswers, hP⟩ := h s past
  have hrun := Search.run_bind m k s
  have hrun' := Search.run_bind m' k' (s, past)
  rw [hm] at hrun
  rw [hm'] at hrun'
  cases result with
  | error e => exact ⟨events, .error e, s', hrun, hrun', hanswers, .failed hP⟩
  | ok a =>
    obtain ⟨events', result, s'', hn, hn', hanswers', hQ⟩ := hk a s' (past ++ events)
    refine ⟨events ++ events', result, s'', hrun.trans hn, ?_, hanswers.append hanswers',
      .next hP hQ⟩
    rw [← List.append_assoc]
    exact hrun'.trans hn'

theorem imp {Q : List Event → Except SearchError α → Prop} (h : source.Records m m' P)
    (hPQ : ∀ events result, P events result → Q events result) : source.Records m m' Q := by
  intro s past
  obtain ⟨events, result, s', hm, hm', hanswers, hP⟩ := h s past
  exact ⟨events, result, s', hm, hm', hanswers, hPQ events result hP⟩

end Records

end CandidateSource

end PlsqlNav
