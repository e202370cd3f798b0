import PlsqlNav.Proofs.Outline.Enclosing
import PlsqlNav.Proofs.Scan.Headed

/-! Units without a body. A unit whose header ends with its own semicolon has no scope, and is taken for
the enclosing symbol of everything up to the next symbol. -/
namespace PlsqlNav

/-- The header of the top-level symbol `x` ends with the semicolon `semicolon`. -/
def Symbol.EndsWith (text : String) (x : Symbol) (semicolon : Token) : Prop :=
  x.level = 0 ∧ ∃ us h rest, us <:+ Token.ofText text ∧ Header.ofUnit? us = some h ∧
    h.first.start = x.start ∧ Header.findEnd 0 false h.rest = .semicolon (semicolon :: rest)

namespace Outline

variable {file text : String}

/-- A unit whose header ends with a semicolon is a block without a scope. -/
theorem ofText_bodiless {i : (Outline.ofText file text).Id} {semicolon : Token}
    (h : ((Outline.ofText file text).get i).EndsWith text semicolon) :
    ((Outline.ofText file text).get i).kind.isBlock ∧
      ((Outline.ofText file text).get i).stop = none := by
  obtain ⟨hlevel, us, hd, rest, hus, hread, hstart, hend⟩ := h
  have hheader := Symbol.header?_eq (Token.ofText_laid text) hus hread hstart.symm
  obtain ⟨hd', hheaded⟩ := (ofText_headed file text).headers i.val _ (getElem?_symbols i) (.inl hlevel)
  have hsame : some hd' = some hd := hheaded.headed.read.symm.trans hheader
  cases hsame
  obtain ⟨hblock, _⟩ := Header.ofUnit?_eq_some hread
  have hbodiless : ¬ hd.HasBody := by
    rintro ⟨ts, hbody⟩
    rw [hend] at hbody
    contradiction
  have hnone := mt hheaded.scope.mp fun hbody => hbodiless hbody.2
  rw [not_or, Option.not_isSome_iff_eq_none] at hnone
  exact ⟨hheaded.headed.kind hlevel ▸ hblock, hnone.1⟩

/-- A unit whose header ends with a semicolon encloses just the positions to which no later symbol is
nearer, those behind its semicolon among them. -/
theorem ofText_enclosing_bodiless {i : (Outline.ofText file text).Id} {semicolon : Token}
    (h : ((Outline.ofText file text).get i).EndsWith text semicolon) (offset : Nat) :
    (Outline.ofText file text).enclosing? offset = some i ↔
      (Outline.ofText file text).NearestBefore offset i := by
  obtain ⟨_, _, hrec⟩ := ofText_recorded file text
  obtain ⟨hblock, hstop⟩ := ofText_bodiless h
  rw [enclosing?_eq_some_iff hrec]
  constructor
  · rintro ⟨near, hnear, hfind⟩
    rcases (mem_ancestors_iff (rising_of_recorded hrec)).mp (List.mem_of_find?_eq_some hfind) with
      rfl | hin
    · exact hnear
    · have hclosed := stop_isSome_of_within hrec hin
      rw [hstop] at hclosed
      contradiction
  · intro hnear
    have hopen : (Outline.ofText file text).isOpenAt offset i := by
      rw [isOpenAt, hblock, hstop]
      rfl
    refine ⟨i, hnear, ?_⟩
    cases hp : (Outline.ofText file text).parent? i with
    | none => rw [ancestors_of_none hp, List.find?_cons_of_pos hopen]
    | some p => rw [ancestors_of_parent? hp, List.find?_cons_of_pos hopen]

section Dropped

/-- A statement with a package header in it, and another one. -/
def droppedText : String := "drop package p; commit;"

abbrev droppedOutline : Outline := .ofText "p.sql" droppedText

def droppedPackage : droppedOutline.Id := ⟨0, by decide +kernel⟩

def droppedKeyword : Token := ⟨.word, 5, "package", none⟩

def droppedSemicolon : Token := ⟨.punct ';', 14, ";", none⟩

def committing : List Token := [⟨.word, 16, "commit", none⟩, ⟨.punct ';', 22, ";", none⟩]

theorem droppedPackage_endsWith :
    (droppedOutline.get droppedPackage).EndsWith droppedText droppedSemicolon := by
  have htokens : Token.ofText droppedText = ⟨.word, 0, "drop", none⟩ :: droppedKeyword ::
      ⟨.word, 13, "p", none⟩ :: droppedSemicolon :: committing := by decide +kernel
  have hread : Header.ofUnit? (droppedKeyword :: ⟨.word, 13, "p", none⟩ :: droppedSemicolon ::
      committing) = some ⟨droppedKeyword, .package .spec, "p", droppedSemicolon :: committing⟩ := rfl
  refine ⟨by decide +kernel, _, _, committing, ?_, hread, by decide +kernel, rfl⟩
  rw [htokens]
  exact List.suffix_cons _ _

theorem ofText_enclosing_dropped :
    (droppedOutline.get droppedPackage).EndsWith droppedText droppedSemicolon ∧
      droppedOutline.NearestBefore 18 droppedPackage :=
  ⟨droppedPackage_endsWith,
    (ofText_enclosing_bodiless droppedPackage_endsWith 18).mp (by decide +kernel)⟩

/-- A header that its own semicolon ends may enclose what comes after it. -/
theorem not_encloses_nothing : ¬ ∀ (file text : String) (i : (Outline.ofText file text).Id)
    (semicolon : Token) (offset : Nat), ((Outline.ofText file text).get i).EndsWith text semicolon →
      semicolon.stop ≤ offset → (Outline.ofText file text).enclosing? offset ≠ some i := by
  intro h
  exact h "p.sql" droppedText droppedPackage droppedSemicolon 18 droppedPackage_endsWith (by decide)
    (by decide +kernel)

end Dropped

end Outline

end PlsqlNav
