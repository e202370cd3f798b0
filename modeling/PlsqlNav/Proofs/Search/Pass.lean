import PlsqlNav.Proofs.Search.Record

/-! One pass over the candidates of a source. Files are loaded in the order in which they are listed, up
to the first that fails to load or is accepted; without either, the first tentative verdict stands. -/
namespace PlsqlNav

variable {σ α : Type}

def Verdict.isAccept : Verdict α → Bool
  | accept _ => true
  | tentative _ | reject => false

def Verdict.tentative? : Verdict α → Option α
  | tentative a => some a
  | accept _ | reject => none

namespace Navigator
open CandidateSource

/-- The same navigator on the recorded source. -/
def recorded (n : Navigator σ) : Navigator (σ × List Event) := ⟨n.source.recording, n.translate⟩

@[simp] theorem recorded_translate (n : Navigator σ) : n.recorded.translate = n.translate := rfl

/-- The record of loading these files, one after another. -/
def loads (files : List (Path × Outline)) : List Event :=
  files.map fun f => .loaded f.1 (.ok f.2)

/-- What is recorded while the paths are tried, and what comes out. -/
inductive Tried (judge : Outline → Verdict α) (fallback : Option α) :
    List Path → List Event → Except SearchError (Option α) → Prop
  | failed {files : List (Path × Outline)} {path rest e} :
      (∀ f ∈ files, (judge f.2).isAccept = false) →
      Tried judge fallback (files.map Prod.fst ++ path :: rest)
        (loads files ++ [.loaded path (.error e)]) (.error e)
  | accepted {files : List (Path × Outline)} {path rest o a} :
      (∀ f ∈ files, (judge f.2).isAccept = false) → judge o = .accept a →
      Tried judge fallback (files.map Prod.fst ++ path :: rest)
        (loads files ++ [.loaded path (.ok o)]) (.ok (some a))
  | exhausted {files : List (Path × Outline)} : (∀ f ∈ files, (judge f.2).isAccept = false) →
      Tried judge fallback (files.map Prod.fst) (loads files)
        (.ok (fallback <|> files.findSome? fun f => (judge f.2).tentative?))

/-- What is recorded in one pass, and what comes out. -/
inductive Scanned (hints : List String) (judge : Outline → Verdict α) :
    List Event → Except SearchError (Option α) → Prop
  | unlisted {e} : Scanned hints judge [.listed hints (.error e)] (.error e)
  | listed {paths events result} : Tried judge none paths events result →
      Scanned hints judge (.listed hints (.ok paths) :: events) result

variable {judge : Outline → Verdict α} {fallback : Option α} {path : Path} {paths : List Path}
  {events : List Event} {result : Except SearchError (Option α)} {o : Outline}

theorem forall_nil_isAccept : ∀ f ∈ ([] : List (Path × Outline)), (judge f.2).isAccept = false :=
  fun _ hf => absurd hf List.not_mem_nil

theorem Tried.cons (ho : (judge o).isAccept = false)
    (h : Tried judge (fallback <|> (judge o).tentative?) paths events result) :
    Tried judge fallback (path :: paths) (.loaded path (.ok o) :: events) result := by
  have hall {files : List (Path × Outline)} (h : ∀ f ∈ files, (judge f.2).isAccept = false) :
      ∀ f ∈ (path, o) :: files, (judge f.2).isAccept = false := by
    intro f hf
    rcases List.mem_cons.mp hf with rfl | hf
    · exact ho
    · exact h f hf
  cases h with
  | failed hfiles => exact .failed (hall hfiles)
  | accepted hfiles ha => exact .accepted (hall hfiles) ha
  | @exhausted files hfiles =>
    have hfirst : ((fallback <|> (judge o).tentative?) <|>
        files.findSome? fun f => (judge f.2).tentative?) =
          (fallback <|> ((path, o) :: files).findSome? fun f => (judge f.2).tentative?) := by
      rw [List.findSome?_cons]
      cases fallback with
      | some a => rfl
      | none => cases (judge o).tentative? <;> rfl
    rw [hfirst]
    exact .exhausted (hall hfiles)

theorem tryEach_records (n : Navigator σ) (judge : Outline → Verdict α) (paths : List Path)
    (fallback : Option α) :
    n.source.Records (n.tryEach judge fallback paths) (n.recorded.tryEach judge fallback paths)
      (Tried judge fallback paths) := by
  induction paths generalizing fallback with
  | nil =>
    refine (Records.pure fallback).imp fun events result h => ?_
    obtain ⟨rfl, rfl⟩ := h
    have hexhausted : Tried judge fallback [] [] (.ok (fallback <|> none)) :=
      .exhausted forall_nil_isAccept
    cases fallback <;> exact hexhausted
  | cons path paths ih =>
    rw [tryEach, tryEach]
    refine (Records.bind (Records.load path) (Q := fun o events result =>
      Tried judge fallback (path :: paths) (.loaded path (.ok o) :: events) result) fun o => ?_).imp ?_
    · cases hj : judge o with
      | accept a =>
        refine (Records.pure (some a)).imp fun events result h => ?_
        obtain ⟨rfl, rfl⟩ := h
        exact .accepted forall_nil_isAccept hj
      | tentative a =>
        refine (ih (fallback <|> some a)).imp fun events result h => Tried.cons ?_ ?_
        · rw [hj]
          rfl
        · rw [hj]
          exact h
      | reject =>
        refine (ih fallback).imp fun events result h => Tried.cons ?_ ?_
        · rw [hj]
          rfl
        · rw [hj]
          cases fallback <;> exact h
    · intro events result h
      cases h with
      | failed h =>
        subst h
        exact .failed forall_nil_isAccept
      | next h hrest =>
        subst h
        exact hrest

theorem scan_records (n : Navigator σ) (hints : List String) (judge : Outline → Verdict α) :
    n.source.Records (n.scan hints judge) (n.recorded.scan hints judge) (Scanned hints judge) := by
  rw [scan, scan]
  refine (Records.bind (Records.candidates hints) fun paths =>
    tryEach_records n judge paths none).imp fun events result h => ?_
  cases h with
  | failed h =>
    subst h
    exact .unlisted
  | next h hrest =>
    subst h
    exact .listed hrest

end Navigator

end PlsqlNav
