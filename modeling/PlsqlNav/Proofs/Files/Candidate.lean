import Mathlib.Data.List.ProdSigma
import PlsqlNav.Proofs.Files.Walk

/-! The files that hints point to. Where no ignore file has a rule, a walk finds them all, and nothing
else. -/
namespace PlsqlNav

namespace IgnoreLevel

/-- Without rules. -/
def IsSilent (l : IgnoreLevel) : Prop := l.general = [] ∧ l.git = [] ∧ l.gitExclude = []

theorem deciding?_eq_none {rules : IgnoreLevel → List Rule} {levels : List IgnoreLevel}
    (h : ∀ l ∈ levels, rules l = []) (names : List String) (isDirectory : Bool) :
    deciding? rules levels names isDirectory = none := by
  rw [deciding?, List.findSome?_eq_none_iff]
  intro l hl
  simp [h l hl, Rule.last?]

theorem insideRepository_subset (levels : List IgnoreLevel) : insideRepository levels ⊆ levels := by
  induction levels with
  | nil => simp [insideRepository]
  | cons l ls ih =>
    unfold insideRepository
    split
    · simp
    · split
      · simp
      · exact List.cons_subset_cons l ih

theorem not_ignores {levels : List IgnoreLevel} (h : ∀ l ∈ levels, l.IsSilent) (names : List String)
    (isDirectory : Bool) : ¬ ignores levels names isDirectory := by
  have hinside (l : IgnoreLevel) (hl : l ∈ insideRepository levels) : l.IsSilent :=
    h l (insideRepository_subset levels hl)
  simp only [ignores, deciding?_eq_none fun l hl => (h l hl).1,
    deciding?_eq_none fun l hl => (hinside l hl).2.1, deciding?_eq_none fun l hl => (hinside l hl).2.2]
  simp

end IgnoreLevel

/-- No ignore file of a directory has a rule. -/
def Disk.RuleFree (disk : Disk) (directory : FileTree) : Prop :=
  (IgnoreLevel.ofDirectory disk 0 directory).IsSilent

theorem Disk.RuleFree.isSilent {disk : Disk} {directory : FileTree} (h : disk.RuleFree directory)
    (depth : Nat) : (IgnoreLevel.ofDirectory disk depth directory).IsSilent := h

/-- Hints that are parts of names, and extensions of letters and digits. -/
structure PlainHints (hints extensions : List String) : Prop where
  no_slash : ∀ hint ∈ hints, '/' ∉ hint.toList
  alphanumeric : ∀ e ∈ extensions, ∀ c ∈ e.toList, c.isAlphanum

instance (hints extensions : List String) : Decidable (PlainHints hints extensions) :=
  decidable_of_iff
    (hints.all (!·.toList.contains '/') && extensions.all (·.toList.all Char.isAlphanum)) (by
      rw [Bool.and_eq_true, List.all_eq_true, List.all_eq_true]
      constructor
      · rintro ⟨hhints, hextensions⟩
        exact ⟨by simpa using hhints, fun e he => List.all_eq_true.mp (hextensions e he)⟩
      · rintro ⟨hhints, hextensions⟩
        exact ⟨by simpa using hhints, fun e he => List.all_eq_true.mpr (hextensions e he)⟩)

/-- Some hint points to the name: it holds the hint before one of the extensions. -/
def Points (hints extensions : List String) (name : String) : Prop :=
  ∃ hint ∈ hints, hint ≠ "" ∧ ∃ extension ∈ extensions, Glob.Holds hint extension name

/-- Names that lead to a file that hints point to. -/
structure IsCandidate (hints extensions names : List String) : Prop where
  shown : Walk.Shown names
  points : ∃ name ∈ names.getLast?, Points hints extensions name

namespace Selection

section Pointing
variable {hints extensions : List String}

/-- The rules for hints. -/
def including (hints extensions : List String) : List Rule :=
  ((hints.filter (· ≠ "")).product extensions).map fun p => Rule.including p.1 p.2

theorem dropPoints_eq {extension : String} (h : ∀ c ∈ extension.toList, c.isAlphanum) :
    Settings.dropPoints extension = extension := by
  rw [← String.toList_inj, Settings.dropPoints, String.toList_ofList]
  cases hchars : extension.toList with
  | nil => rfl
  | cons c cs =>
    refine List.dropWhile_cons_of_neg ?_
    rw [beq_iff_eq]
    rintro rfl
    exact absurd (h '.' (hchars ▸ List.mem_cons_self)) (by decide)

theorem readRules_patterns (hplain : PlainHints hints extensions) :
    readRules (Workspace.patterns hints extensions) = .ok (including hints extensions) := by
  have hpatterns : Workspace.patterns hints extensions =
      ((hints.filter (· ≠ "")).product extensions).map fun p =>
        "*" ++ Workspace.literally p.1 ++ "*." ++ Settings.dropPoints p.2 := by
    simp [Workspace.patterns, List.product, List.map_flatMap, Function.comp_def]
  rw [hpatterns]
  apply readRules_map
  rintro ⟨hint, e⟩ hp
  obtain ⟨hhint, he⟩ := List.mem_product.mp hp
  rw [List.mem_filter, decide_eq_true_eq] at hhint
  dsimp only
  rw [dropPoints_eq (hplain.alphanumeric e he)]
  exact Rule.ofLine_including hhint.2 (hplain.no_slash hint hhint.1) (hplain.alphanumeric e he)

theorem mem_including {r : Rule} : r ∈ including hints extensions ↔
    ∃ hint ∈ hints, hint ≠ "" ∧ ∃ extension ∈ extensions, Rule.including hint extension = r := by
  simp [including, and_assoc]

/-- The selection of the files that hints point to. -/
def pointing (hints extensions : List String) : Selection :=
  ⟨including hints extensions ++ excludedDirectories.map Rule.excluding⟩

theorem ofPatterns_patterns (hplain : PlainHints hints extensions) :
    ofPatterns (Workspace.patterns hints extensions) [] = .ok (pointing hints extensions) :=
  ofPatterns_eq_ok.mpr ⟨_, [], readRules_patterns hplain, rfl,
    congrArg Selection.mk (List.append_nil _).symm⟩

theorem exists_including (hplain : PlainHints hints extensions) (names : List String)
    {name : String} (hname : '/' ∉ name.toList) (isDirectory : Bool) :
    (∃ r ∈ including hints extensions,
        r.applies (String.intercalate "/" (names ++ [name])) isDirectory) ↔
      Points hints extensions name := by
  have happlies {hint e : String} (hhint : hint ∈ hints) (hne : hint ≠ "") (he : e ∈ extensions) :
      (Rule.including hint e).applies (String.intercalate "/" (names ++ [name])) isDirectory ↔
        Glob.Holds hint e name :=
    Rule.applies_including hne (hplain.no_slash hint hhint)
      (fun h => absurd (hplain.alphanumeric e he '/' h) (by decide)) names hname isDirectory
  constructor
  · rintro ⟨r, hr, h⟩
    obtain ⟨hint, hhint, hne, e, he, rfl⟩ := mem_including.mp hr
    exact ⟨hint, hhint, hne, e, he, (happlies hhint hne he).mp h⟩
  · rintro ⟨hint, hhint, hne, e, he, hholds⟩
    exact ⟨_, mem_including.mpr ⟨hint, hhint, hne, e, he, rfl⟩, (happlies hhint hne he).mpr hholds⟩

/-- Directories are left out by their names, files where no hint points to them. -/
theorem choose_pointing (hplain : PlainHints hints extensions)
    (hsome : including hints extensions ≠ []) (names : List String) {name : String}
    (hname : '/' ∉ name.toList) (isDirectory : Bool) :
    (pointing hints extensions).choose (String.intercalate "/" (names ++ [name])) isDirectory ≠
        .leaveOut ↔
      if isDirectory then ∀ d ∈ excludedDirectories, ¬ Text.sameName name d
      else Points hints extensions name := by
  have hnegated : ∀ r ∈ including hints extensions, ¬ r.negated := by
    intro r hr
    obtain ⟨hint, -, -, e, -, rfl⟩ := mem_including.mp hr
    simp [Rule.including]
  have hchoose := choose_included hnegated hsome (String.intercalate "/" (names ++ [name])) isDirectory
  rw [exists_including hplain names hname] at hchoose
  have hexcluding := any_excluding names hname isDirectory
  rw [pointing, choose_append_negated negated_excluding]
  by_cases hany : (excludedDirectories.map Rule.excluding).any
      (·.applies (String.intercalate "/" (names ++ [name])) isDirectory)
  · obtain ⟨rfl, d, hd, hsame⟩ := hexcluding.mp hany
    rw [if_pos hany, if_pos rfl]
    simp only [ne_eq, not_true_eq_false, false_iff]
    exact fun h => h d hd hsame
  · rw [if_neg hany, hchoose]
    rw [hexcluding] at hany
    cases isDirectory with
    | false => simp
    | true =>
      simp only [true_or, if_true, true_iff]
      exact fun d hd hsame => hany ⟨rfl, d, hd, hsame⟩

end Pointing

end Selection

section Names
variable {hints extensions rest : List String} {name : String}

theorem isCandidate_singleton : IsCandidate hints extensions [name] ↔
    ¬ Walk.isHidden name ∧ Points hints extensions name := by
  rw [← Walk.shown_singleton]
  constructor
  · rintro ⟨hshown, _, ⟨⟩, hpoints⟩
    exact ⟨hshown, hpoints⟩
  · rintro ⟨hshown, hpoints⟩
    exact ⟨hshown, name, rfl, hpoints⟩

theorem isCandidate_cons (hrest : rest ≠ []) : IsCandidate hints extensions (name :: rest) ↔
    ¬ Walk.isHidden name ∧ (∀ d ∈ Selection.excludedDirectories, ¬ Text.sameName name d) ∧
      IsCandidate hints extensions rest := by
  have hlast : (name :: rest).getLast? = rest.getLast? := by
    obtain ⟨other, rest, rfl⟩ := List.exists_cons_of_ne_nil hrest
    exact List.getLast?_cons_cons
  constructor
  · rintro ⟨hshown, hpoints⟩
    rw [hlast] at hpoints
    obtain ⟨hhidden, hexcluded, hshown⟩ := (Walk.shown_cons hrest).mp hshown
    exact ⟨hhidden, hexcluded, hshown, hpoints⟩
  · rintro ⟨hhidden, hexcluded, hshown, hpoints⟩
    exact ⟨(Walk.shown_cons hrest).mpr ⟨hhidden, hexcluded, hshown⟩, hlast ▸ hpoints⟩

end Names

namespace Walk

section Candidates
variable {c : Context} {levels : List IgnoreLevel} {names : List String} {name : String}
  {hints extensions : List String} {tree : FileTree} {found : List String} {content : ByteArray}

/-- A walk that looks for the files that hints point to. -/
structure Asks (c : Context) (hints extensions : List String) : Prop where
  selection : c.selection = Selection.pointing hints extensions
  plain : PlainHints hints extensions
  asked : Selection.including hints extensions ≠ []

theorem Asks.not_skips_iff (h : Asks c hints extensions) (hlevels : ∀ l ∈ levels, l.IsSilent)
    (hdepth : c.rootDepth ≤ names.length) (hname : '/' ∉ name.toList) (isDirectory : Bool) :
    ¬ skips c levels (names ++ [name]) name isDirectory ↔ ¬ isHidden name ∧
      if isDirectory then ∀ d ∈ Selection.excludedDirectories, ¬ Text.sameName name d
      else Points hints extensions name := by
  rw [← Selection.choose_pointing h.plain h.asked (names.drop c.rootDepth) hname,
    Walk.not_skips_iff, relative_append hdepth, h.selection]
  apply and_congr_right
  intro _
  have hignores := IgnoreLevel.not_ignores hlevels (names ++ [name]) isDirectory
  cases (Selection.pointing hints extensions).choose
    (String.intercalate "/" (names.drop c.rootDepth ++ [name])) isDirectory <;> simp [hignores]

/-- No ignore file in a tree has a rule. -/
def RuleFreeBelow (disk : Disk) (tree : FileTree) : Prop :=
  ∀ names there, tree.Leads names there → disk.RuleFree there

theorem RuleFreeBelow.file {disk : Disk} : RuleFreeBelow disk (.file content) := by
  intro names there hleads
  cases hleads
  exact ⟨rfl, rfl, rfl⟩

theorem RuleFreeBelow.directory {disk : Disk} {es : List (String × FileTree)}
    (h : disk.RuleFree (.directory es)) (hentries : ∀ e ∈ es, RuleFreeBelow disk e.2) :
    RuleFreeBelow disk (.directory es) := by
  intro names there hleads
  cases hleads with
  | here => exact h
  | entry hentry hleads => exact hentries _ hentry _ _ hleads

theorem RuleFreeBelow.entry {disk : Disk} {es : List (String × FileTree)} {e : String × FileTree}
    (h : RuleFreeBelow disk (.directory es)) (he : e ∈ es) : RuleFreeBelow disk e.2 :=
  fun names there hleads => h (e.1 :: names) there (.entry he hleads)

theorem RuleFreeBelow.isSilent {disk : Disk} (h : RuleFreeBelow disk tree)
    (hlevels : ∀ l ∈ levels, l.IsSilent) (depth : Nat) :
    ∀ l ∈ IgnoreLevel.ofDirectory disk depth tree :: levels, l.IsSilent :=
  List.forall_mem_cons.mpr ⟨(h [] tree .here).isSilent depth, hlevels⟩

theorem Asks.isCandidate (h : Asks c hints extensions) (hlevels : ∀ l ∈ levels, l.IsSilent)
    (hdepth : c.rootDepth ≤ names.length) (hrules : RuleFreeBelow c.disk tree)
    (hfound : ∀ name ∈ found, IsFileName name) (hvisits : Visits c levels names tree found content) :
    IsCandidate hints extensions found := by
  induction hvisits with
  | file hentry hskips =>
    rw [List.forall_mem_singleton] at hfound
    rw [h.not_skips_iff (hrules.isSilent hlevels _) hdepth hfound.no_slash] at hskips
    exact isCandidate_singleton.mpr hskips
  | directory hentry _ hskips hvisits ih =>
    rw [List.forall_mem_cons] at hfound
    rw [h.not_skips_iff (hrules.isSilent hlevels _) hdepth hfound.1.no_slash] at hskips
    refine (isCandidate_cons hvisits.ne_nil).mpr ⟨hskips.1, hskips.2, ?_⟩
    apply ih (hrules.isSilent hlevels _) _ (hrules.entry hentry) hfound.2
    simp
    omega

theorem Asks.visits (h : Asks c hints extensions) {there : FileTree}
    (hlevels : ∀ l ∈ levels, l.IsSilent) (hdepth : c.rootDepth ≤ names.length)
    (hrules : RuleFreeBelow c.disk tree) (hfound : ∀ name ∈ found, IsFileName name)
    (hcandidate : IsCandidate hints extensions found) (hleads : tree.Leads found there)
    (hthere : there = .file content) : Visits c levels names tree found content := by
  -- On the way down the levels grow and the names with them; the last name is the file's.
  induction hleads generalizing levels names with
  | here =>
    obtain ⟨-, name, hname, -⟩ := hcandidate
    cases hname
  | @entry es name node rest there hentry hleads ih =>
    rw [List.forall_mem_cons] at hfound
    have hlevels' := hrules.isSilent hlevels names.length
    cases hleads with
    | here =>
      subst hthere
      refine .file hentry ?_
      rw [h.not_skips_iff hlevels' hdepth hfound.1.no_slash]
      exact isCandidate_singleton.mp hcandidate
    | entry hentry' hleads =>
      obtain ⟨hhidden, hexcluded, hcandidate⟩ :=
        (isCandidate_cons (List.cons_ne_nil _ _)).mp hcandidate
      refine .directory hentry rfl ?_ ?_
      · rw [h.not_skips_iff hlevels' hdepth hfound.1.no_slash]
        exact ⟨hhidden, hexcluded⟩
      · apply ih hlevels' _ (hrules.entry hentry) hfound.2 hcandidate hthere
        simp
        omega

/-- Where no ignore file has a rule, a walk finds exactly the candidates. -/
theorem Asks.visits_iff (h : Asks c hints extensions) (hlevels : ∀ l ∈ levels, l.IsSilent)
    (hdepth : c.rootDepth ≤ names.length) (hrules : RuleFreeBelow c.disk tree)
    (hnamed : tree.WellNamed) : Visits c levels names tree found content ↔
      tree.Leads found (.file content) ∧ IsCandidate hints extensions found := by
  constructor
  · intro hvisits
    have hleads := hvisits.leads
    exact ⟨hleads, h.isCandidate hlevels hdepth hrules (hleads.isFileName hnamed) hvisits⟩
  · rintro ⟨hleads, hcandidate⟩
    exact h.visits hlevels hdepth hrules (hleads.isFileName hnamed) hcandidate hleads rfl

end Candidates

end Walk

end PlsqlNav
