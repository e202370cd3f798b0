import PlsqlNav.Proofs.Files.Rule

/-! What selections choose. The last rule that applies decides, and excluded patterns are rules behind
all others that only leave out. -/
namespace PlsqlNav

namespace Selection

section Rules
variable {includes excludes lines more : List String} {rules : List Rule} {s : Selection}

theorem readRules_cons {line : String} : readRules (line :: lines) = .ok rules ↔
    ∃ rule found, Rule.ofLine false true line.toList = .ok rule ∧ readRules lines = .ok found ∧
      rules = rule.toList ++ found := by
  rw [readRules]
  cases Rule.ofLine false true line.toList with
  | error e => simp
  | ok rule => cases readRules lines <;> simp [eq_comm]

theorem readRules_append : readRules (lines ++ more) = .ok rules ↔
    ∃ front back, readRules lines = .ok front ∧ readRules more = .ok back ∧ rules = front ++ back := by
  induction lines generalizing rules with
  | nil => simp [readRules]
  | cons line lines ih =>
    simp only [List.cons_append, readRules_cons, ih]
    constructor
    · rintro ⟨rule, _, hrule, ⟨front, back, hfront, hback, rfl⟩, rfl⟩
      exact ⟨rule.toList ++ front, back, ⟨rule, front, hrule, hfront, rfl⟩, hback,
        (List.append_assoc _ _ _).symm⟩
    · rintro ⟨_, back, ⟨rule, front, hrule, hfront, rfl⟩, hback, rfl⟩
      exact ⟨rule, front ++ back, hrule, ⟨front, back, hfront, hback, rfl⟩, List.append_assoc _ _ _⟩

theorem readRules_map {α : Type} {text : α → String} {rule : α → Rule} {as : List α}
    (h : ∀ a ∈ as, Rule.ofLine false true (text a).toList = .ok (some (rule a))) :
    readRules (as.map text) = .ok (as.map rule) := by
  induction as with
  | nil => rfl
  | cons a as ih =>
    rw [List.forall_mem_cons] at h
    rw [List.map_cons, readRules, h.1]
    dsimp only
    rw [ih h.2]
    rfl

theorem negated_of_readRules (h : readRules (lines.map ("!" ++ ·)) = .ok rules) :
    ∀ r ∈ rules, r.negated := by
  induction lines generalizing rules with
  | nil =>
    cases h
    exact List.forall_mem_nil _
  | cons line lines ih =>
    obtain ⟨rule, found, hrule, hfound, rfl⟩ := readRules_cons.mp h
    have hline : ("!" ++ line).toList = '!' :: line.toList := by simp
    rw [hline] at hrule
    intro r hr
    rcases List.mem_append.mp hr with hr | hr
    · exact Rule.negated_of_ofLine hrule r (Option.mem_toList.mp hr)
    · exact ih hfound r hr

theorem excludedDirectories_plain : ∀ d ∈ excludedDirectories,
    d ≠ "" ∧ ∀ c ∈ d.toList, c ≠ '/' ∧ ¬ Workspace.hasMeaning c := by
  have hall : excludedDirectories.all fun d =>
      d != "" && d.toList.all fun c => c != '/' && !Workspace.hasMeaning c := by decide
  simpa using hall

theorem readRules_excludedDirectories :
    readRules (excludedDirectories.map fun d => "!" ++ (d ++ "/")) =
      .ok (excludedDirectories.map Rule.excluding) :=
  readRules_map fun d hd =>
    have hplain := excludedDirectories_plain d hd
    Rule.ofLine_excluding hplain.1 hplain.2

/-- The rules of a selection: those of what it includes, then those of the excluded directories, then
those of what it excludes. -/
theorem ofPatterns_eq_ok : ofPatterns includes excludes = .ok s ↔
    ∃ base more, readRules includes = .ok base ∧ readRules (excludes.map ("!" ++ ·)) = .ok more ∧
      s = ⟨base ++ excludedDirectories.map Rule.excluding ++ more⟩ := by
  have hmap : ofPatterns includes excludes = .ok s ↔
      readRules (includes ++ (excludedDirectories.map fun d => "!" ++ (d ++ "/")) ++
        excludes.map ("!" ++ ·)) = .ok s.rules := by
    rw [ofPatterns]
    dsimp only
    cases readRules (includes ++ (excludedDirectories.map fun d => "!" ++ (d ++ "/")) ++
        excludes.map ("!" ++ ·)) with
    | error e => simp [Except.map]
    | ok rules =>
      rw [Except.map, Except.ok.injEq, Except.ok.injEq]
      constructor
      · rintro rfl
        rfl
      · rintro rfl
        rfl
  rw [hmap, readRules_append]
  simp only [readRules_append, readRules_excludedDirectories, Except.ok.injEq]
  constructor
  · rintro ⟨_, more, ⟨base, _, hbase, rfl, rfl⟩, hmore, hrules⟩
    exact ⟨base, more, hbase, hmore, congrArg Selection.mk hrules⟩
  · rintro ⟨base, more, hbase, hmore, rfl⟩
    exact ⟨_, more, ⟨base, _, hbase, rfl, rfl⟩, hmore, rfl⟩

end Rules

section Choose
variable {base more : List Rule} {path : String} {isDirectory : Bool}

/-- Negated rules at the end leave out what they apply to, and say nothing about the rest. -/
theorem choose_append_negated (hmore : ∀ r ∈ more, r.negated) :
    choose ⟨base ++ more⟩ path isDirectory =
      if more.any (·.applies path isDirectory) then .leaveOut
      else choose ⟨base⟩ path isDirectory := by
  have hnone : more.any (!·.negated) = false :=
    List.any_eq_false.mpr fun r hr => by simp [hmore r hr]
  rw [choose, Rule.last?_append]
  dsimp only
  rw [List.any_append, hnone, Bool.or_false]
  cases hlast : Rule.last? more path isDirectory with
  | none =>
    have hany : ¬ more.any (·.applies path isDirectory) := by
      rw [List.any_eq_true]
      rintro ⟨r, hr, happlies⟩
      exact Rule.last?_eq_none.mp hlast r hr happlies
    rw [Option.none_or, if_neg hany]
    rfl
  | some r =>
    obtain ⟨hr, happlies⟩ := Rule.of_last?_eq_some hlast
    rw [if_pos (List.any_eq_true.mpr ⟨r, hr, happlies⟩), Option.some_or]
    dsimp only
    rw [if_pos (hmore r hr)]

/-- Rules that are not negated choose among files; a directory is at worst undecided. -/
theorem choose_included (hbase : ∀ r ∈ base, ¬ r.negated) (hne : base ≠ []) (path : String)
    (isDirectory : Bool) :
    choose ⟨base⟩ path isDirectory ≠ .leaveOut ↔
      isDirectory ∨ ∃ r ∈ base, r.applies path isDirectory := by
  have hany : base.any (!·.negated) := by
    obtain ⟨r, rules, rfl⟩ := List.exists_cons_of_ne_nil hne
    simp [hbase r List.mem_cons_self]
  unfold choose
  cases hlast : Rule.last? base path isDirectory with
  | none =>
    have hnone := Rule.last?_eq_none.mp hlast
    cases isDirectory <;> simp_all
  | some r =>
    obtain ⟨hr, happlies⟩ := Rule.of_last?_eq_some hlast
    have hex : ∃ r ∈ base, r.applies path isDirectory := ⟨r, hr, happlies⟩
    simp [hbase r hr, hex]

theorem negated_excluding : ∀ r ∈ excludedDirectories.map Rule.excluding, r.negated := by
  simp only [List.mem_map, forall_exists_index, and_imp, forall_apply_eq_imp_iff₂]
  exact fun d _ => rfl

theorem any_excluding (names : List String) {name : String} (hname : '/' ∉ name.toList)
    (isDirectory : Bool) :
    (excludedDirectories.map Rule.excluding).any
        (·.applies (String.intercalate "/" (names ++ [name])) isDirectory) ↔
      isDirectory ∧ ∃ d ∈ excludedDirectories, Text.sameName name d := by
  have happlies (d : String) (hd : d ∈ excludedDirectories) :
      (Rule.excluding d).applies (String.intercalate "/" (names ++ [name])) isDirectory ↔
        isDirectory ∧ Text.sameName name d :=
    have hplain := excludedDirectories_plain d hd
    Rule.applies_excluding hplain.1 (fun h => (hplain.2 '/' h).1 rfl) names hname isDirectory
  rw [List.any_map, List.any_eq_true]
  constructor
  · rintro ⟨d, hd, h⟩
    obtain ⟨hdirectory, hsame⟩ := (happlies d hd).mp h
    exact ⟨hdirectory, d, hd, hsame⟩
  · rintro ⟨hdirectory, d, hd, hsame⟩
    exact ⟨d, hd, (happlies d hd).mpr ⟨hdirectory, hsame⟩⟩

/-- Directories with an excluded name are left out, whatever else is chosen. -/
theorem choose_excludedDirectory {includes excludes : List String} {s : Selection}
    (hs : ofPatterns includes excludes = .ok s) (names : List String) {name d : String}
    (hname : '/' ∉ name.toList) (hd : d ∈ excludedDirectories) (hsame : Text.sameName name d) :
    s.choose (String.intercalate "/" (names ++ [name])) true = .leaveOut := by
  obtain ⟨base, more, -, hmore, rfl⟩ := ofPatterns_eq_ok.mp hs
  have hnegated : ∀ r ∈ excludedDirectories.map Rule.excluding ++ more, r.negated := by
    rw [List.forall_mem_append]
    exact ⟨negated_excluding, negated_of_readRules hmore⟩
  rw [List.append_assoc, choose_append_negated hnegated, if_pos]
  rw [List.any_append, (any_excluding names hname true).mpr ⟨rfl, d, hd, hsame⟩, Bool.true_or]

/-- A pattern that is excluded can only leave out more, also when it starts with an exclamation mark
itself. -/
theorem choose_exclude {includes before after : List String} {pattern : String} {s : Selection}
    (hs : ofPatterns includes (before ++ pattern :: after) = .ok s) :
    ∃ t, ofPatterns includes (before ++ after) = .ok t ∧ ∀ path isDirectory,
      s.choose path isDirectory = .leaveOut ∨
      s.choose path isDirectory = t.choose path isDirectory := by
  obtain ⟨base, more, hbase, hmore, rfl⟩ := ofPatterns_eq_ok.mp hs
  have hnegated := negated_of_readRules hmore
  rw [List.map_append, List.map_cons] at hmore
  obtain ⟨front, _, hfront, hrest, rfl⟩ := readRules_append.mp hmore
  obtain ⟨rule, back, -, hback, rfl⟩ := readRules_cons.mp hrest
  have hless : readRules ((before ++ after).map ("!" ++ ·)) = .ok (front ++ back) := by
    rw [List.map_append]
    exact readRules_append.mpr ⟨front, back, hfront, hback, rfl⟩
  refine ⟨_, ofPatterns_eq_ok.mpr ⟨base, front ++ back, hbase, hless, rfl⟩, fun path isDirectory => ?_⟩
  rw [choose_append_negated hnegated, choose_append_negated (negated_of_readRules hless)]
  by_cases happlies : (front ++ (rule.toList ++ back)).any (·.applies path isDirectory)
  · exact .inl (if_pos happlies)
  · have hfewer : ¬ (front ++ back).any (·.applies path isDirectory) := by
      simp only [List.any_append, Bool.or_eq_true, not_or] at happlies ⊢
      exact ⟨happlies.1, happlies.2.2⟩
    rw [if_neg happlies, if_neg hfewer]
    exact .inr rfl

end Choose

end Selection

end PlsqlNav
