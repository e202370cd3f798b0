import PlsqlNav.Proofs.Glob.Reading

/-! Rules as lines write them. -/
namespace PlsqlNav

namespace Rule

section Lines
variable {c : Char}

theorem dropBlanks_append (hc : ¬ Text.isBlank c) (cs : List Char) :
    dropBlanks (cs ++ [c]) = cs ++ [c] := by
  rw [dropBlanks, Text.trimEnd_append hc, ite_self]

theorem dropBlanks_cons (hc : ¬ Text.isBlank c) (cs : List Char) :
    ∃ rest, dropBlanks (c :: cs) = c :: rest := by
  rw [dropBlanks]
  split
  · exact ⟨cs, rfl⟩
  · obtain ⟨blanks, hcs, hblanks⟩ := Text.trimEnd_append_blanks (c :: cs)
    cases hline : Text.trimEnd (c :: cs) with
    | nil =>
      rw [hline, List.nil_append] at hcs
      exact absurd (hblanks c (hcs ▸ List.mem_cons_self)) hc
    | cons d rest =>
      rw [hline, List.cons_append] at hcs
      exact ⟨rest, by rw [(List.cons.inj hcs).1]⟩

theorem dropSlash_append (hc : c ≠ '/') (cs : List Char) :
    dropSlash (cs ++ [c]) = (cs ++ [c], false) := by
  rw [dropSlash, List.reverse_concat]
  split
  · next h => exact absurd (List.cons.inj h).1 hc
  · next h => exact absurd (List.cons.inj h).1 hc
  · rfl

theorem dropSlash_slash (hc : c ≠ '\\') (cs : List Char) :
    dropSlash (cs ++ [c] ++ ['/']) = (cs ++ [c], true) := by
  rw [dropSlash, List.reverse_concat, List.reverse_concat]
  split
  · next h => exact absurd (List.cons.inj (List.cons.inj h).2).1 hc
  · next h =>
    rw [← (List.cons.inj h).2, List.reverse_cons, List.reverse_reverse]
  · next h => exact absurd rfl (h _)

theorem insideOnly_append (hc : c ≠ '*') (cs : List Char) : insideOnly (cs ++ [c]) = cs ++ [c] := by
  rw [insideOnly, if_neg]
  rw [List.isSuffixOf_iff_suffix]
  rintro ⟨before, h⟩
  have hlast : (before ++ ['/', '*']) ++ ['*'] = cs ++ [c] := (List.append_assoc _ _ _).trans h
  exact hc (List.singleton_inj.mp (List.append_inj' hlast rfl).2).symm

theorem insideOnly_anchor {cs : List Char} (hslash : '/' ∉ cs ++ [c]) (hc : c ≠ '*') :
    insideOnly (anchor false (cs ++ [c])) = '*' :: '*' :: '/' :: (cs ++ [c]) := by
  rw [anchor, if_neg]
  · exact insideOnly_append hc ('*' :: '*' :: '/' :: cs)
  · rintro (h | h | h)
    · contradiction
    · exact hslash h
    · have hlast : cs ++ [c] = ['*'] ++ ['*'] := h
      exact hc (List.singleton_inj.mp (List.append_inj' hlast rfl).2)

theorem marks_negated (cs : List Char) : (marks ('!' :: cs)).1 = true := by
  cases cs with
  | nil => rfl
  | cons d cs =>
    rw [marks.eq_def]
    split <;> simp_all

theorem marks_exclamation {cs : List Char} (h : cs.head? ≠ some '/') :
    marks ('!' :: cs) = (true, false, cs) := by
  rw [marks.eq_def]
  split <;> simp_all

theorem marks_star (cs : List Char) : marks ('*' :: cs) = (false, false, '*' :: cs) := rfl

theorem ofLine_eq {line kept : List Char} (lenient anyCase : Bool) (hcomment : line.head? ≠ some '#')
    (hblanks : dropBlanks line = kept) (hkept : kept ≠ []) :
    ofLine lenient anyCase line =
      (Glob.ofText lenient anyCase
        (insideOnly (anchor (marks kept).2.1 (dropSlash (marks kept).2.2).1))).map fun glob =>
          some ⟨glob, (marks kept).1, (dropSlash (marks kept).2.2).2⟩ := by
  have hempty : ¬ kept.isEmpty = true := mt List.isEmpty_iff.mp hkept
  rw [ofLine, if_neg hcomment, hblanks]
  dsimp only
  rw [if_neg hempty]
  cases Glob.ofText lenient anyCase (insideOnly (anchor (marks kept).2.1 (dropSlash (marks kept).2.2).1)) <;>
    rfl

end Lines

/-- A line behind an exclamation mark holds a negated rule, whatever it starts with itself. -/
theorem negated_of_ofLine {lenient anyCase : Bool} {pattern : List Char} {rule : Option Rule}
    (h : ofLine lenient anyCase ('!' :: pattern) = .ok rule) : ∀ r ∈ rule, r.negated := by
  obtain ⟨rest, hrest⟩ := dropBlanks_cons (c := '!') (by decide) pattern
  rw [ofLine_eq lenient anyCase (by simp) hrest (List.cons_ne_nil _ _)] at h
  cases hglob : Glob.ofText lenient anyCase
      (insideOnly (anchor (marks ('!' :: rest)).2.1 (dropSlash (marks ('!' :: rest)).2.2).1)) with
  | error e =>
    rw [hglob] at h
    contradiction
  | ok glob =>
    rw [hglob] at h
    cases h
    rintro r ⟨⟩
    exact marks_negated rest

/-- The rule for a directory by its name, wherever it is. -/
def excluding (d : String) : Rule := ⟨⟨.front :: d.toList.map .literal, true⟩, true, true⟩

theorem ofLine_excluding {lenient : Bool} {d : String} (hd : d ≠ "")
    (hplain : ∀ c ∈ d.toList, c ≠ '/' ∧ ¬ Workspace.hasMeaning c) :
    ofLine lenient true ("!" ++ (d ++ "/")).toList = .ok (some (excluding d)) := by
  have hline : ("!" ++ (d ++ "/")).toList = '!' :: (d.toList ++ ['/']) := by simp
  have hslash : '/' ∉ d.toList := fun h => (hplain '/' h).1 rfl
  have hblanks : dropBlanks ('!' :: (d.toList ++ ['/'])) = '!' :: (d.toList ++ ['/']) :=
    dropBlanks_append (c := '/') (by decide) ('!' :: d.toList)
  have hmarks : marks ('!' :: (d.toList ++ ['/'])) = (true, false, d.toList ++ ['/']) := by
    refine marks_exclamation ?_
    obtain ⟨e, es, hes⟩ := List.exists_cons_of_ne_nil (mt String.toList_eq_nil_iff.mp hd)
    rw [hes] at hslash ⊢
    rw [List.cons_append, List.head?_cons, Ne, Option.some_inj]
    rintro rfl
    exact hslash List.mem_cons_self
  obtain ⟨cs, c, hcs⟩ := (List.eq_nil_or_concat d.toList).resolve_left
    (mt String.toList_eq_nil_iff.mp hd)
  rw [List.concat_eq_append] at hcs
  have hne (e : Char) (he : Workspace.hasMeaning e) : c ≠ e := by
    rintro rfl
    exact (hplain c (hcs ▸ List.mem_append_right cs (List.mem_singleton_self c))).2 he
  have hpattern : insideOnly (anchor false d.toList) = '*' :: '*' :: '/' :: d.toList := by
    rw [hcs] at hslash ⊢
    exact insideOnly_anchor hslash (hne '*' rfl)
  have hdrop : dropSlash (d.toList ++ ['/']) = (d.toList, true) := by
    rw [hcs]
    exact dropSlash_slash (hne '\\' rfl) cs
  rw [hline, ofLine_eq lenient true (by simp) hblanks (List.cons_ne_nil _ _), hmarks]
  dsimp only
  rw [hdrop]
  dsimp only
  rw [hpattern, ← Glob.flatMap_escape fun c hc => (hplain c hc).2, Glob.ofText_name]
  rfl

/-- The rule for files by a hint and an extension. -/
def including (hint extension : String) : Rule :=
  ⟨⟨.front :: Glob.hintParts hint extension, true⟩, false, false⟩

theorem plain_of_isAlphanum {c : Char} (h : c.isAlphanum) :
    ¬ Text.isBlank c ∧ c ≠ '/' ∧ ¬ Workspace.hasMeaning c := by
  refine ⟨Text.not_isBlank_of_isAlphanum h, ?_, ?_⟩
  · rintro rfl
    contradiction
  · intro hmeaning
    have hall : ['*', '?', '[', ']', '\x7b', '\x7d', '\\', '!'].all (!·.isAlphanum) := by decide
    have hnone := List.all_eq_true.mp hall c (List.contains_iff_mem.mp hmeaning)
    simp [h] at hnone

theorem ofLine_including {lenient : Bool} {hint extension : String} (hhint : hint ≠ "")
    (hslash : '/' ∉ hint.toList) (hextension : ∀ c ∈ extension.toList, c.isAlphanum) :
    ofLine lenient true ("*" ++ Workspace.literally hint ++ "*." ++ extension).toList =
      .ok (some (including hint extension)) := by
  have hplain : ∀ c ∈ '.' :: extension.toList,
      ¬ Text.isBlank c ∧ c ≠ '/' ∧ ¬ Workspace.hasMeaning c :=
    List.forall_mem_cons.mpr ⟨by decide, fun c hc => plain_of_isAlphanum (hextension c hc)⟩
  have hslash' : '/' ∉ ("*" ++ Workspace.literally hint ++ "*." ++ extension).toList := by
    simp only [String.toList_append, List.mem_append, not_or, Glob.literally_toList]
    exact ⟨⟨⟨by decide, fun h => (Glob.mem_flatMap_escape h).elim hslash (by decide)⟩, by decide⟩,
      fun h => (hplain '/' (List.mem_cons_of_mem '.' h)).2.1 rfl⟩
  obtain ⟨es, c, hes⟩ := (List.eq_nil_or_concat ('.' :: extension.toList)).resolve_left
    (List.cons_ne_nil _ _)
  rw [List.concat_eq_append] at hes
  obtain ⟨hblank, hc, hmeaning⟩ := hplain c (hes ▸ List.mem_append_right es (List.mem_singleton_self c))
  have hline : ("*" ++ Workspace.literally hint ++ "*." ++ extension).toList =
      '*' :: ((Workspace.literally hint).toList ++ '*' :: es) ++ [c] := by
    rw [List.cons_append, List.append_assoc, List.cons_append, ← hes]
    simp
  have hmarks := marks_star ((Workspace.literally hint).toList ++ '*' :: es ++ [c])
  rw [← List.cons_append, ← hline] at hmarks
  have hpattern : insideOnly (anchor false ("*" ++ Workspace.literally hint ++ "*." ++ extension).toList) =
      '*' :: '*' :: '/' :: ("*" ++ Workspace.literally hint ++ "*." ++ extension).toList := by
    rw [hline] at hslash' ⊢
    refine insideOnly_anchor hslash' ?_
    rintro rfl
    exact hmeaning rfl
  rw [ofLine_eq lenient true (by simp) (hline ▸ dropBlanks_append hblank _) (by simp), hmarks]
  dsimp only
  rw [hline, dropSlash_append hc, ← hline]
  dsimp only
  rw [hpattern, Glob.ofText_hint hhint fun c hc => (hplain c (List.mem_cons_of_mem '.' hc)).2.2]
  rfl

theorem applies_excluding {d : String} (hd : d ≠ "") (hslash : '/' ∉ d.toList)
    (names : List String) {name : String} (hname : '/' ∉ name.toList) (isDirectory : Bool) :
    (excluding d).applies (String.intercalate "/" (names ++ [name])) isDirectory ↔
      isDirectory ∧ Text.sameName name d := by
  rw [applies, Bool.and_eq_true, excluding, Glob.accepts_name hd hslash names hname, Bool.not_true,
    Bool.false_or]

theorem applies_including {hint extension : String} (hhint : hint ≠ "") (hslash : '/' ∉ hint.toList)
    (hextension : '/' ∉ extension.toList) (names : List String) {name : String}
    (hname : '/' ∉ name.toList) (isDirectory : Bool) :
    (including hint extension).applies (String.intercalate "/" (names ++ [name])) isDirectory ↔
      Glob.Holds hint extension name := by
  rw [applies, Bool.and_eq_true, including, Glob.accepts_hint hhint hslash hextension names hname,
    Bool.not_false, Bool.true_or]
  exact and_iff_right rfl

theorem last?_append (rules more : List Rule) (path : String) (isDirectory : Bool) :
    last? (rules ++ more) path isDirectory =
      (last? more path isDirectory).or (last? rules path isDirectory) := by
  rw [last?, List.reverse_append, List.find?_append]
  rfl

theorem last?_eq_none {rules : List Rule} {path : String} {isDirectory : Bool} :
    last? rules path isDirectory = none ↔ ∀ r ∈ rules, ¬ r.applies path isDirectory := by
  simp only [last?, List.find?_eq_none, List.mem_reverse]

theorem of_last?_eq_some {rules : List Rule} {path : String} {isDirectory : Bool} {r : Rule}
    (h : last? rules path isDirectory = some r) : r ∈ rules ∧ r.applies path isDirectory := by
  unfold last? at h
  have happlies := List.find?_some h
  exact ⟨List.mem_reverse.mp (List.mem_of_find?_eq_some h), happlies⟩

end Rule

end PlsqlNav
