import PlsqlNav.Proofs.Outline.Embedding
import PlsqlNav.Proofs.Outline.WellFormed
import PlsqlNav.Proofs.Scan.Append
import PlsqlNav.Proofs.Scan.Correspondence

/-! Two texts in one file. Where the first is complete and the tokens of the two do not run into each
other, the outline of the file is that of the first, followed by that of the second. -/
namespace PlsqlNav

section Shift
variable (n : Nat)

def Token.shift (t : Token) : Token :=
  { t with start := t.start + n, doc := t.doc.map fun c => { c with start := c.start + n } }

def Symbol.shift (x : Symbol) : Symbol :=
  { x with start := x.start + n, stop := x.stop.map (· + n) }

def Issue.shift (i : Issue) : Issue := { i with offset := i.offset + n }

end Shift

namespace Text
variable (front back : List Char)

theorem dropBytes_append_add (n : Nat) :
    dropBytes (n + byteLength front) (front ++ back) = dropBytes n back := by
  induction front with
  | nil => rfl
  | cons c front ih =>
    have hpos := c.utf8Size_pos
    obtain ⟨m, hm⟩ : ∃ m, n + byteLength (c :: front) = m + 1 :=
      ⟨n + byteLength (c :: front) - 1, by rw [byteLength]; omega⟩
    have hrest : m + 1 - c.utf8Size = n + byteLength front := by
      rw [← hm, byteLength]
      omega
    rw [hm, List.cons_append, dropBytes, hrest, ih]

/-- What stands in a text stands that much later behind another text. -/
theorem slice_behind (start stop : Nat) :
    slice (start + byteLength front) (stop + byteLength front) (front ++ back) =
      slice start stop back := by
  rw [slice, slice, dropBytes_append_add, Nat.add_sub_add_right]

end Text

theorem Scan.startOf_shift {front back : List Char} {ts us : List Token}
    (h : List.Forall₂ (fun t u => u = t.shift (Text.byteLength front)) ts us) :
    startOf (front ++ back) us = startOf back ts + Text.byteLength front := by
  cases h with
  | nil => rw [startOf, startOf, Text.byteLength_append, Nat.add_comm]
  | cons htu _ =>
    subst htu
    rfl

namespace Correspondence

/-- A text by itself, and behind another one. -/
def behindText (front back : List Char) : Correspondence back (front ++ back) where
  token t u := u = t.shift (Text.byteLength front)
  position p q := q = p + Text.byteLength front
  name n m := m = n
  symbol x y := y = x.shift (Text.byteLength front)
  alike h := by
    subst h
    exact ⟨rfl, Text.sameName_refl _⟩
  names h := by
    subst h
    rfl
  starts h := by
    subst h
    rfl
  stops h := by
    subst h
    exact Nat.add_right_comm _ _ _
  ends := by rw [Text.byteLength_append, Nat.add_comm]
  declared kind htu hts hname hlevel := by
    subst htu hname
    have hdoc (doc : Option Comment) : (doc.map fun c => { c with
        start := c.start + Text.byteLength front }).map Comment.text = doc.map Comment.text :=
      Option.map_map ..
    rw [Scan.symbolOf, Scan.symbolOf, Symbol.shift, hlevel, Scan.definition, Scan.definition,
      Scan.startOf_shift hts, Token.shift, Text.slice_behind, hdoc]
    rfl
  stopped hxy hpq := by
    subst hxy hpq
    rfl

end Correspondence

namespace Outline

/-- The tree of `part` is found in `o`, with each symbol `n` places later. -/
def Keeps (o part : Outline) (n : Nat) : Prop :=
  ∀ (i : part.Id) (j : o.Id), j.val = n + i.val →
    (o.parent? j).map Fin.val = (part.parent? i).map (fun p => n + p.val) ∧
      (o.children j).map Fin.val = (part.children i).map fun c => n + c.val

/-- An outline is that of one text, followed by that of another which starts `n` bytes later. -/
structure Concatenates (o o₁ o₂ : Outline) (n : Nat) : Prop where
  symbols : o.symbols = o₁.symbols ++ o₂.symbols.map (Symbol.shift n)
  issues : o.issues = o₁.issues ++ o₂.issues.map (Issue.shift n)
  topLevel : o.topLevel.map Fin.val =
    o₁.topLevel.map Fin.val ++ o₂.topLevel.map fun i => o₁.symbols.size + i.val
  inFirst : o.Keeps o₁ 0
  inSecond : o.Keeps o₂ o₁.symbols.size

variable {o o₁ o₂ : Outline} {n : Nat}

theorem Contains.keeps (h : o.Contains o₁ n) (rising : o.Rising) (rising₁ : o₁.Rising) :
    o.Keeps o₁ n := by
  intro i j hj
  have hji : j = h.embed i := Fin.ext hj
  rw [hji, h.parent?_embed rising₁, h.children_embed rising rising₁, Option.map_map, List.map_map]
  exact ⟨rfl, rfl⟩

theorem level_zero_of_rising (rising : o.Rising) {i : o.Id} (hi : i.val = 0) :
    (o.get i).level = 0 := by
  by_contra hl
  obtain ⟨j, hj, _⟩ := rising i hl
  omega

theorem mem_topLevel {i : o.Id} : i ∈ o.topLevel ↔ (o.get i).level = 0 := by
  rw [topLevel, List.mem_filter, decide_eq_true_eq]
  exact and_iff_right (List.mem_finRange i)

section Symbols
variable (hsymbols : o.symbols = o₁.symbols ++ o₂.symbols.map (Symbol.shift n))
include hsymbols

theorem get_first (i : o₁.Id) (j : o.Id) (hj : j.val = i.val) : o.get j = o₁.get i := by
  apply get_eq_of_getElem? hj
  rw [hsymbols, Array.getElem?_append_left i.isLt]
  exact getElem?_symbols i

theorem get_second (i : o₂.Id) (j : o.Id) (hj : j.val = o₁.symbols.size + i.val) :
    o.get j = (o₂.get i).shift n := by
  apply get_eq_of_getElem? hj
  rw [hsymbols, Array.getElem?_append_right (Nat.le_add_right _ _), Nat.add_sub_cancel_left,
    Array.getElem?_map, getElem?_symbols i, Option.map_some]

theorem size_concatenation : o.symbols.size = o₁.symbols.size + o₂.symbols.size := by
  rw [hsymbols, Array.size_append, Array.size_map]

theorem contains_first (rising₂ : o₂.Rising) : o.Contains o₁ 0 := by
  have hsize := size_concatenation hsymbols
  refine ⟨by omega, fun i j hj => ?_, fun j hj => ?_⟩
  · rw [get_first hsymbols i j (by omega)]
  · -- The second text starts with a declaration of the top level.
    have hlt : 0 < o₂.symbols.size := by
      have := j.isLt
      omega
    rw [get_second hsymbols ⟨0, hlt⟩ j (by simp only; omega)]
    exact level_zero_of_rising rising₂ rfl

theorem contains_second : o.Contains o₂ o₁.symbols.size := by
  have hsize := size_concatenation hsymbols
  refine ⟨by omega, fun i j hj => ?_, fun j hj => ?_⟩
  · rw [get_second hsymbols i j hj]
    rfl
  · have := j.isLt
    omega

theorem topLevel_concatenation (rising₂ : o₂.Rising) : o.topLevel.map Fin.val =
    o₁.topLevel.map Fin.val ++ o₂.topLevel.map fun i => o₁.symbols.size + i.val := by
  have hfirst := contains_first hsymbols rising₂
  have hsecond := contains_second hsymbols
  have hasc : (o.topLevel.map Fin.val).Pairwise (· < ·) := topLevel_ascend.map _ fun _ _ h => h
  have hasc' : (o₁.topLevel.map Fin.val ++
      o₂.topLevel.map fun i => o₁.symbols.size + i.val).Pairwise (· < ·) := by
    rw [List.pairwise_append]
    refine ⟨topLevel_ascend.map _ fun _ _ h => h,
      topLevel_ascend.map _ fun _ _ h => Nat.add_lt_add_left h _, ?_⟩
    intro a ha b hb
    obtain ⟨i, _, rfl⟩ := List.mem_map.mp ha
    obtain ⟨j, _, rfl⟩ := List.mem_map.mp hb
    have := i.isLt
    omega
  refine List.Pairwise.eq_of_mem_iff hasc hasc' fun a => ?_
  rw [List.mem_append, List.mem_map, List.mem_map, List.mem_map]
  constructor
  · rintro ⟨j, hj, rfl⟩
    rw [mem_topLevel] at hj
    by_cases hlt : j.val < o₁.symbols.size
    · left
      refine ⟨⟨j.val, hlt⟩, ?_, rfl⟩
      rw [mem_topLevel, ← hfirst.level ⟨j.val, hlt⟩ j (Nat.zero_add _).symm, hj]
    · right
      have hsize := size_concatenation hsymbols
      have := j.isLt
      refine ⟨⟨j.val - o₁.symbols.size, by omega⟩, ?_, by simp only; omega⟩
      rw [mem_topLevel, ← hsecond.level ⟨j.val - o₁.symbols.size, by omega⟩ j (by simp only; omega),
        hj]
  · rintro (⟨i, hi, rfl⟩ | ⟨i, hi, rfl⟩)
    · refine ⟨hfirst.embed i, ?_, Nat.zero_add _⟩
      rw [mem_topLevel, hfirst.level_embed, mem_topLevel.mp hi]
    · refine ⟨hsecond.embed i, ?_, rfl⟩
      rw [mem_topLevel, hsecond.level_embed, mem_topLevel.mp hi]

end Symbols

theorem concatenates_of_symbols (rising : o.Rising) (rising₁ : o₁.Rising) (rising₂ : o₂.Rising)
    (hsymbols : o.symbols = o₁.symbols ++ o₂.symbols.map (Symbol.shift n))
    (hissues : o.issues = o₁.issues ++ o₂.issues.map (Issue.shift n)) : o.Concatenates o₁ o₂ n where
  symbols := hsymbols
  issues := hissues
  topLevel := topLevel_concatenation hsymbols rising₂
  inFirst := (contains_first hsymbols rising₂).keeps rising rising₁
  inSecond := (contains_second hsymbols).keeps rising rising₂

theorem unexpected_of_complete {kind : Issue.Kind} (h : kind ≠ .missingBody ∧ kind ≠ .unclosedBlock) :
    kind = .unexpectedToken := by
  cases kind with
  | missingBody => exact absurd rfl h.1
  | unclosedBlock => exact absurd rfl h.2
  | unexpectedToken => rfl

theorem eq_map_of_forall₂ {α β : Type} {f : α → β} {xs : List α} {ys : List β}
    (h : List.Forall₂ (fun x y => y = f x) xs ys) : ys = xs.map f := by
  induction h with
  | nil => rfl
  | cons hxy _ ih => rw [hxy, ih, List.map_cons]

/-- A scan that has nothing left to read of the first text reads the second as if it stood alone. -/
theorem run_behind (front back : List Char) {s : Scan} (hrest : s.rest = [])
    (hscopes : s.scopes = []) (ts : List Token) :
    ((s.before (ts.map (Token.shift (Text.byteLength front)))).run (front ++ back)).symbols =
        s.symbols ++ ((Scan.ofTokens ts).run back).symbols.map
          (Symbol.shift (Text.byteLength front)) ∧
      ((s.before (ts.map (Token.shift (Text.byteLength front)))).run (front ++ back)).issues =
        s.issues ++ ((Scan.ofTokens ts).run back).issues.map
          (Issue.shift (Text.byteLength front)) := by
  have hstart : (Correspondence.behindText front back).Related s.symbols.toList s.issues.toList
      (Scan.ofTokens ts) (s.before (ts.map (Token.shift (Text.byteLength front)))) := by
    refine ⟨?_, fun h => absurd rfl h, ?_, ⟨[], ?_, .nil⟩, ⟨[], ?_, .nil⟩⟩
    · rw [Scan.before_rest, hrest, List.nil_append, List.forall₂_map_right_iff]
      exact List.forall₂_same.mpr fun t _ => rfl
    · rw [Scan.before_scopes, hscopes]
      rfl
    · rw [Scan.before_symbols, List.append_nil]
    · rw [List.append_nil]
      rfl
  obtain ⟨ys, hys, hxys⟩ := hstart.run.symbols
  obtain ⟨js, hjs, hijs⟩ := hstart.run.issues
  have hissue : List.Forall₂ (fun i j => j = Issue.shift (Text.byteLength front) i)
      ((Scan.ofTokens ts).run back).issues.toList js := by
    refine hijs.imp fun i j hij => ?_
    obtain ⟨hkind, hoffset⟩ := hij
    cases j with
    | mk offset kind =>
      rw [Issue.shift, ← hoffset, hkind]
  constructor
  · apply Array.toList_inj.mp
    rw [hys, Array.toList_append, Array.toList_map, eq_map_of_forall₂ hxys]
  · apply Array.toList_inj.mp
    rw [hjs, Array.toList_append, Array.toList_map, eq_map_of_forall₂ hissue]

/-- Complete units of a file are read independently of what comes after them, and what comes after is
read as if it stood alone. -/
theorem ofText_append (file a b : String)
    (hlast : (Token.ofText a).getLast?.any (·.isPunct ';'))
    (htokens : Token.ofText (a ++ b) = Token.ofText a ++
      (Token.ofText b).map (Token.shift (Text.byteLength a.toList)))
    (hissues : ∀ i ∈ (Outline.ofText file a).issues,
      i.kind ≠ .missingBody ∧ i.kind ≠ .unclosedBlock) :
    (Outline.ofText file (a ++ b)).Concatenates (Outline.ofText file a) (Outline.ofText file b)
      (Text.byteLength a.toList) := by
  have hcomplete : Scan.Complete a.toList (Scan.ofTokens (Token.ofText a)).rest := by
    refine ⟨fun t ht => ?_, Token.ofText_boundary a⟩
    have ht : (Token.ofText a).getLast? = some t := ht
    rwa [ht] at hlast
  have hok : ∀ i ∈ ((Scan.ofTokens (Token.ofText a)).run a.toList).issues,
      i.kind = .unexpectedToken :=
    fun i hi => unexpected_of_complete (hissues i (Array.mem_toList_iff.mpr hi))
  have hdone := Scan.run_isDone a.toList (Scan.ofTokens (Token.ofText a))
  rw [Scan.isDone, Bool.and_eq_true, List.isEmpty_iff, List.isEmpty_iff] at hdone
  have hrun : (Scan.ofTokens (Token.ofText (a ++ b))).run (a ++ b).toList =
      (((Scan.ofTokens (Token.ofText a)).run a.toList).before
        ((Token.ofText b).map (Token.shift (Text.byteLength a.toList)))).run
          (a.toList ++ b.toList) := by
    rw [htokens, String.toList_append]
    exact Scan.run_before b.toList _ hcomplete hok
  obtain ⟨hsymbols, hshifted⟩ := run_behind a.toList b.toList hdone.1 hdone.2
    (Token.ofText b)
  apply concatenates_of_symbols (ofText_rising file _) (ofText_rising file a) (ofText_rising file b)
  · show ((Scan.ofTokens (Token.ofText (a ++ b))).run (a ++ b).toList).symbols = _
    rw [hrun, hsymbols]
    rfl
  · show ((Scan.ofTokens (Token.ofText (a ++ b))).run (a ++ b).toList).issues.toList = _
    rw [hrun, hshifted, Array.toList_append, Array.toList_map]
    rfl

/-- A complete package, before a procedure that is none. -/
theorem ofText_append_package :
    (Outline.ofText "p.sql" ("package p is n number; end p; " ++ "procedure q is begin")).Concatenates
      (Outline.ofText "p.sql" "package p is n number; end p; ")
      (Outline.ofText "p.sql" "procedure q is begin") 30 := by
  refine ofText_append "p.sql" "package p is n number; end p; " "procedure q is begin" ?_ ?_ ?_
  · decide +kernel
  · decide +kernel
  · decide +kernel

end Outline

end PlsqlNav
