import PlsqlNav.Proofs.Glob.Matching
import PlsqlNav.Search.Workspace

/-! Reading patterns that are made of literal text and stars. Text stands for itself when the characters
that have a meaning are escaped; a comma needs no escape outside groups. -/
namespace PlsqlNav.Glob

def escape (c : Char) : List Char := if Workspace.hasMeaning c then ['\\', c] else [c]

theorem literally_toList (text : String) :
    (Workspace.literally text).toList = text.toList.flatMap escape := String.toList_ofList

theorem flatMap_escape {cs : List Char} (h : ∀ c ∈ cs, ¬ Workspace.hasMeaning c) :
    cs.flatMap escape = cs := by
  induction cs with
  | nil => rfl
  | cons c cs ih =>
    rw [List.forall_mem_cons] at h
    rw [List.flatMap_cons, ih h.2, escape, if_neg h.1]
    rfl

theorem mem_flatMap_escape {c : Char} {cs : List Char} (h : c ∈ cs.flatMap escape) :
    c ∈ cs ∨ c = '\\' := by
  obtain ⟨d, hd, hc⟩ := List.mem_flatMap.mp h
  rw [escape] at hc
  split at hc
  · rcases List.mem_cons.mp hc with rfl | hc
    · exact .inr rfl
    · exact .inl (List.mem_singleton.mp hc ▸ hd)
  · exact .inl (List.mem_singleton.mp hc ▸ hd)

theorem escape_ne_star (c : Char) (cs : List Char) : (escape c ++ cs).head? ≠ some '*' := by
  rw [escape]
  split
  · simp
  · next h =>
    intro heq
    cases Option.some.inj heq
    exact h rfl

section Read
variable {lenient classes : Bool} {before : Option Char} {ps : List Part} {cs : List Char}

theorem readParts_nil {d : Draft} : readParts lenient before d [] = .ok d := by
  rw [readParts]

theorem readParts_front :
    readParts lenient before ⟨[], [], classes⟩ ('*' :: '*' :: '/' :: cs) =
      readParts lenient '/' ⟨[.front], [], classes⟩ cs := by
  rw [readParts]
  simp [Draft.push]

theorem readParts_star (h : cs.head? ≠ some '*') :
    readParts lenient before ⟨ps, [], classes⟩ ('*' :: cs) =
      readParts lenient '*' ⟨.star :: ps, [], classes⟩ cs := by
  rw [readParts.eq_def]
  dsimp only
  rw [if_neg (by decide), if_pos rfl]
  split
  · contradiction
  · rfl

theorem readParts_plain {c : Char} (h : ¬ Workspace.hasMeaning c) :
    readParts lenient before ⟨ps, [], classes⟩ (c :: cs) =
      readParts lenient c ⟨.literal c :: ps, [], classes⟩ cs := by
  have hne (d : Char) (hd : Workspace.hasMeaning d) : c ≠ d := by
    rintro rfl
    exact h hd
  rw [readParts.eq_def]
  dsimp only
  rw [if_neg (hne '?' rfl), if_neg (hne '*' rfl), if_neg fun hc => hne '[' rfl hc.1,
    if_neg (hne '\x7b' rfl), if_neg (hne '\x7d' rfl), if_neg (hne '\\' rfl)]
  split
  · next hc =>
    rw [hc]
    rfl
  · rfl

theorem readParts_escaped {c : Char} :
    readParts lenient before ⟨ps, [], classes⟩ ('\\' :: c :: cs) =
      readParts lenient c ⟨.literal c :: ps, [], classes⟩ cs := by
  rw [readParts.eq_def]
  rfl

theorem readParts_escape (c : Char) :
    readParts lenient before ⟨ps, [], classes⟩ (escape c ++ cs) =
      readParts lenient c ⟨.literal c :: ps, [], classes⟩ cs := by
  rw [escape]
  split
  · exact readParts_escaped
  · next h => exact readParts_plain h

theorem readParts_literals (text : List Char) : ∃ last,
    readParts lenient before ⟨ps, [], classes⟩ (text.flatMap escape ++ cs) =
      readParts lenient last ⟨(text.map .literal).reverse ++ ps, [], classes⟩ cs := by
  induction text generalizing before ps with
  | nil => exact ⟨before, rfl⟩
  | cons c text ih =>
    obtain ⟨last, h⟩ := @ih (some c) (.literal c :: ps)
    refine ⟨last, ?_⟩
    rw [List.flatMap_cons, List.append_assoc, readParts_escape, h, List.map_cons, List.reverse_cons,
      List.append_assoc]
    rfl

end Read

section Anywhere
variable {lenient anyCase : Bool}

theorem ofText_name (d : List Char) :
    ofText lenient anyCase ('*' :: '*' :: '/' :: d.flatMap escape) =
      .ok ⟨.front :: d.map .literal, anyCase⟩ := by
  obtain ⟨last, h⟩ := @readParts_literals lenient true (some '/') [.front] [] d
  rw [List.append_nil] at h
  rw [ofText, readParts_front, h, readParts_nil]
  simp

theorem ofText_hint {hint : String} (hhint : hint ≠ "") {extension : String}
    (hextension : ∀ c ∈ extension.toList, ¬ Workspace.hasMeaning c) :
    ofText lenient anyCase ('*' :: '*' :: '/' ::
        ("*" ++ Workspace.literally hint ++ "*." ++ extension).toList) =
      .ok ⟨.front :: hintParts hint extension, anyCase⟩ := by
  have htext : ("*" ++ Workspace.literally hint ++ "*." ++ extension).toList =
      '*' :: (hint.toList.flatMap escape ++ '*' :: ('.' :: extension.toList).flatMap escape) := by
    have hpoint : ∀ c ∈ '.' :: extension.toList, ¬ Workspace.hasMeaning c :=
      List.forall_mem_cons.mpr ⟨by decide, hextension⟩
    rw [flatMap_escape hpoint, ← literally_toList]
    simp
  have hdot : (('.' :: extension.toList).flatMap escape).head? ≠ some '*' := escape_ne_star '.' _
  have hstar : (hint.toList.flatMap escape ++ '*' :: ('.' :: extension.toList).flatMap escape).head? ≠
      some '*' := by
    obtain ⟨c, cs, hcs⟩ := List.exists_cons_of_ne_nil (mt String.toList_eq_nil_iff.mp hhint)
    rw [hcs, List.flatMap_cons, List.append_assoc]
    exact escape_ne_star c _
  obtain ⟨last, h⟩ := @readParts_literals lenient true (some '*') [.star, .front]
    ('*' :: ('.' :: extension.toList).flatMap escape) hint.toList
  obtain ⟨last', h'⟩ := @readParts_literals lenient true (some '*')
    (.star :: ((hint.toList.map .literal).reverse ++ [.star, .front])) [] ('.' :: extension.toList)
  rw [List.append_nil] at h'
  rw [ofText, readParts_front, htext, readParts_star hstar, h,
    readParts_star hdot, h', readParts_nil]
  simp [hintParts]

end Anywhere

end PlsqlNav.Glob
