import PlsqlNav.Proofs.Files.Selection
import PlsqlNav.Proofs.Files.Tree

/-! What walks list: the files that no level leaves out, sorted, and each once. No rules, those of ignore
files included, bring back what is hidden or in an excluded directory. -/
namespace PlsqlNav.Walk

/-- Names that a walk may pass: none is hidden, and no directory has an excluded name. -/
structure Shown (names : List String) : Prop where
  not_hidden : ∀ name ∈ names, name.toList.head? = some '.' → name = ".github"
  not_excluded : ∀ name ∈ names.dropLast, ∀ d ∈ Selection.excludedDirectories,
    ¬ Text.sameName name d

/-- The walk goes from a directory to a file, and leaves out nothing on the way. -/
inductive Visits (c : Context) :
    List IgnoreLevel → List String → FileTree → List String → ByteArray → Prop
  | file {levels names es name content} : (name, .file content) ∈ es →
      ¬ skips c (IgnoreLevel.ofDirectory c.disk names.length (.directory es) :: levels)
        (names ++ [name]) name false →
      Visits c levels names (.directory es) [name] content
  | directory {levels names es name node rest content} : (name, node) ∈ es → node.isDirectory →
      ¬ skips c (IgnoreLevel.ofDirectory c.disk names.length (.directory es) :: levels)
        (names ++ [name]) name true →
      Visits c (IgnoreLevel.ofDirectory c.disk names.length (.directory es) :: levels)
        (names ++ [name]) node rest content →
      Visits c levels names (.directory es) (name :: rest) content

section Listed
variable {c : Context} {levels : List IgnoreLevel} {path p : Path} {names : List String}
  {es : List (String × FileTree)} {tree : FileTree}

/-- The files of one entry of a directory. -/
def listed (c : Context) (levels : List IgnoreLevel) (path : Path) (names : List String)
    (e : String × FileTree) : List Path :=
  if skips c levels (names ++ [e.1]) e.1 e.2.isDirectory then []
  else if e.2.isDirectory then below c levels (path.join ⟨e.1⟩) (names ++ [e.1]) e.2
  else [path.join ⟨e.1⟩]

theorem among_eq : among c levels path names es = es.flatMap (listed c levels path names) := by
  induction es with
  | nil => simp [among]
  | cons e es ih => simp [among, listed, ih]

theorem below_directory : below c levels path names (.directory es) =
    es.flatMap (listed c (IgnoreLevel.ofDirectory c.disk names.length (.directory es) :: levels)
      path names) := by
  rw [below, among_eq]

theorem mem_below : p ∈ below c levels path names tree ↔
    ∃ found content, Visits c levels names tree found content ∧ p = path.within found := by
  induction tree using FileTree.entriesInduction generalizing levels path names with
  | file content =>
    simp only [below, List.not_mem_nil, false_iff]
    rintro ⟨found, content, hvisits, -⟩
    cases hvisits
  | directory es ih =>
    rw [below_directory, List.mem_flatMap]
    constructor
    · rintro ⟨⟨name, node⟩, hentry, hp⟩
      unfold listed at hp
      split at hp
      · contradiction
      · next hskips =>
        split at hp
        · next hdirectory =>
          obtain ⟨found, content, hvisits, rfl⟩ := (ih _ hentry).mp hp
          exact ⟨name :: found, content,
            .directory hentry hdirectory (by simpa [hdirectory] using hskips) hvisits, rfl⟩
        · next hfile =>
          cases node with
          | directory es' => exact absurd rfl hfile
          | file content =>
            exact ⟨[name], content, .file hentry hskips, List.mem_singleton.mp hp⟩
    · rintro ⟨found, content, hvisits, rfl⟩
      cases hvisits with
      | @file _ _ _ name _ hentry hskips =>
        exact ⟨(name, .file content), hentry, by simp [listed, FileTree.isDirectory, hskips, Path.within]⟩
      | @directory _ _ _ name node rest _ hentry hdirectory hskips hvisits =>
        refine ⟨(name, node), hentry, ?_⟩
        have hp := (ih _ hentry).mpr ⟨rest, content, hvisits, rfl⟩
        simpa [listed, hdirectory, hskips] using hp

theorem Visits.leads {found : List String} {content : ByteArray}
    (h : Visits c levels names tree found content) : tree.Leads found (.file content) := by
  induction h with
  | file hentry => exact .entry hentry .here
  | directory hentry _ _ _ ih => exact .entry hentry ih

theorem Visits.ne_nil {found : List String} {content : ByteArray}
    (h : Visits c levels names tree found content) : found ≠ [] := by
  cases h <;> exact List.cons_ne_nil _ _

theorem exists_of_mem_listed {e : String × FileTree} (h : p ∈ listed c levels path names e) :
    ∃ found there, e.2.Leads found there ∧ p = path.within (e.1 :: found) := by
  unfold listed at h
  split at h
  · contradiction
  · split at h
    · obtain ⟨found, content, hvisits, rfl⟩ := mem_below.mp h
      exact ⟨found, .file content, hvisits.leads, rfl⟩
    · exact ⟨[], e.2, .here, List.mem_singleton.mp h⟩

/-- No file is listed twice. -/
theorem below_pairwise (h : tree.WellNamed) :
    (below c levels path names tree).Pairwise fun p q => p.components ≠ q.components := by
  induction h generalizing levels path names with
  | file => simp [below]
  | @directory es hdistinct hproper hnodes ih =>
    -- The files of one entry differ by induction, those of two entries in the names of these.
    rw [below_directory, List.pairwise_flatMap]
    constructor
    · intro e he
      unfold listed
      split
      · exact .nil
      · split
        · exact ih e he
        · exact List.pairwise_singleton _ _
    · refine hdistinct.imp_of_mem ?_
      intro e f he hf hne p hp q hq heq
      obtain ⟨found, there, hleads, rfl⟩ := exists_of_mem_listed hp
      obtain ⟨found', there', hleads', rfl⟩ := exists_of_mem_listed hq
      have hcons := Path.components_within_inj
        (List.forall_mem_cons.mpr ⟨hproper e he, hleads.isFileName (hnodes e he)⟩)
        (List.forall_mem_cons.mpr ⟨hproper f hf, hleads'.isFileName (hnodes f hf)⟩) heq
      exact hne (List.cons.inj hcons).1

end Listed

section Skips
variable {c : Context} {levels : List IgnoreLevel} {names : List String} {name : String}
  {isDirectory : Bool}

theorem isHidden_iff : isHidden name ↔ name.toList.head? = some '.' ∧ name ≠ ".github" := by
  simp [isHidden]

theorem not_skips_iff : ¬ skips c levels names name isDirectory ↔
    ¬ isHidden name ∧
      (c.selection.choose (String.intercalate "/" (names.drop c.rootDepth)) isDirectory = .list ∨
      c.selection.choose (String.intercalate "/" (names.drop c.rootDepth)) isDirectory = .undecided ∧
        ¬ IgnoreLevel.ignores levels names isDirectory) := by
  unfold skips
  cases c.selection.choose (String.intercalate "/" (names.drop c.rootDepth)) isDirectory <;>
    simp [and_comm]

theorem relative_append (hdepth : c.rootDepth ≤ names.length) :
    (names ++ [name]).drop c.rootDepth = names.drop c.rootDepth ++ [name] :=
  List.drop_append_of_le_length hdepth

/-- A walk goes into no directory with an excluded name. -/
theorem not_excluded_of_not_skips {includes excludes : List String}
    (hselection : Selection.ofPatterns includes excludes = .ok c.selection)
    (hdepth : c.rootDepth ≤ names.length) (hname : '/' ∉ name.toList)
    (h : ¬ skips c levels (names ++ [name]) name true) :
    ∀ d ∈ Selection.excludedDirectories, ¬ Text.sameName name d := by
  intro d hd hsame
  rw [not_skips_iff, relative_append hdepth,
    Selection.choose_excludedDirectory hselection _ hname hd hsame] at h
  simp at h

theorem not_isHidden_iff : ¬ isHidden name ↔ (name.toList.head? = some '.' → name = ".github") := by
  rw [isHidden_iff, not_and, Classical.not_not]

theorem shown_singleton : Shown [name] ↔ ¬ isHidden name := by
  rw [not_isHidden_iff]
  constructor
  · intro h
    exact h.not_hidden name List.mem_cons_self
  · intro h
    exact ⟨by simpa using h, by simp⟩

theorem shown_cons {rest : List String} (hrest : rest ≠ []) : Shown (name :: rest) ↔
    ¬ isHidden name ∧ (∀ d ∈ Selection.excludedDirectories, ¬ Text.sameName name d) ∧
      Shown rest := by
  have hdropLast : (name :: rest).dropLast = name :: rest.dropLast := by
    obtain ⟨other, rest, rfl⟩ := List.exists_cons_of_ne_nil hrest
    exact List.dropLast_cons_cons
  rw [not_isHidden_iff]
  constructor
  · rintro ⟨hhidden, hexcluded⟩
    rw [hdropLast] at hexcluded
    rw [List.forall_mem_cons] at hhidden hexcluded
    exact ⟨hhidden.1, hexcluded.1, hhidden.2, hexcluded.2⟩
  · rintro ⟨hhidden, hexcluded, hshown⟩
    refine ⟨List.forall_mem_cons.mpr ⟨hhidden, hshown.not_hidden⟩, ?_⟩
    rw [hdropLast]
    exact List.forall_mem_cons.mpr ⟨hexcluded, hshown.not_excluded⟩

/-- Whatever ignore files and patterns say, a walk passes only what may be shown. -/
theorem Visits.shown {includes excludes found : List String} {tree : FileTree} {content : ByteArray}
    (hselection : Selection.ofPatterns includes excludes = .ok c.selection)
    (hdepth : c.rootDepth ≤ names.length) (hfound : ∀ name ∈ found, IsFileName name)
    (h : Visits c levels names tree found content) : Shown found := by
  induction h with
  | file _ hskips => exact shown_singleton.mpr (not_skips_iff.mp hskips).1
  | directory _ _ hskips hvisits ih =>
    rw [List.forall_mem_cons] at hfound
    have hexcluded := not_excluded_of_not_skips hselection hdepth hfound.1.no_slash hskips
    refine (shown_cons hvisits.ne_nil).mpr ⟨(not_skips_iff.mp hskips).1, hexcluded, ih ?_ hfound.2⟩
    simp
    omega

/-- A walk whose selection leaves out less visits at least as much. -/
theorem Visits.mono {disk : Disk} {s t : Selection} {depth : Nat} {tree : FileTree}
    {found : List String} {content : ByteArray}
    (hst : ∀ path isDirectory, s.choose path isDirectory = .leaveOut ∨
      s.choose path isDirectory = t.choose path isDirectory)
    (h : Visits ⟨disk, s, depth⟩ levels names tree found content) :
    Visits ⟨disk, t, depth⟩ levels names tree found content := by
  have hskips {levels : List IgnoreLevel} {names : List String} {name : String} {isDirectory : Bool}
      (h : ¬ skips ⟨disk, s, depth⟩ levels names name isDirectory) :
      ¬ skips ⟨disk, t, depth⟩ levels names name isDirectory := by
    rw [not_skips_iff] at h ⊢
    rcases hst (String.intercalate "/" (names.drop depth)) isDirectory with heq | heq
    · simp [heq] at h
    · rwa [← heq]
  induction h with
  | file hentry hfile => exact .file hentry (hskips hfile)
  | directory hentry hdirectory hskip _ ih => exact .directory hentry hdirectory (hskips hskip) ih

end Skips

section Files
variable {disk : Disk} {root : Path} {place : FileTree.Place} {includes excludes : List String}

theorem length_names (place : FileTree.Place) : place.names.length = place.above.length := by
  simp [FileTree.Place.names]

/-- What a walk works with that starts at a place. -/
def contextAt (disk : Disk) (place : FileTree.Place) (s : Selection) : Context :=
  ⟨disk, s, place.above.length⟩

theorem files_eq {s : Selection} (hplace : disk.find root = .ok place)
    (hdirectory : place.here.isDirectory) (hselection : Selection.ofPatterns includes excludes = .ok s) :
    files disk root includes excludes = .ok (if root.components = [.name "-"] then []
      else (below (contextAt disk place s) (levelsAbove disk place.above) root place.names
        place.here).mergeSort Path.ordered) := by
  simp only [files, hplace, hselection, hdirectory, contextAt]
  split <;> rfl

/-- The files that a walk from a place lists. -/
theorem mem_files {s : Selection} {paths : List Path} {p : Path}
    (hplace : disk.find root = .ok place) (hdirectory : place.here.isDirectory)
    (hselection : Selection.ofPatterns includes excludes = .ok s)
    (hpaths : files disk root includes excludes = .ok paths) :
    p ∈ paths ↔ root.components ≠ [.name "-"] ∧ ∃ found content,
      Visits (contextAt disk place s) (levelsAbove disk place.above) place.names place.here found
        content ∧ p = root.within found := by
  rw [files_eq hplace hdirectory hselection] at hpaths
  cases hpaths
  split
  · next heq => simp [heq]
  · next hne => simp only [List.mem_mergeSort, mem_below, hne, ne_eq, not_false_iff, true_and]

theorem files_pairwise {s : Selection} {paths : List Path} (hplace : disk.find root = .ok place)
    (hdirectory : place.here.isDirectory) (hnamed : place.here.WellNamed)
    (hselection : Selection.ofPatterns includes excludes = .ok s)
    (hpaths : files disk root includes excludes = .ok paths) : paths.Pairwise Path.Precedes := by
  rw [files_eq hplace hdirectory hselection] at hpaths
  cases hpaths
  split
  · exact .nil
  · exact Path.pairwise_mergeSort (below_pairwise hnamed)

/-- Exclusions cannot be undone. Whatever ignore files say and patterns include, what is listed are
files below the root, in strict order, none of them hidden and none in an excluded directory; and a
pattern that is excluded brings nothing back, also when it starts with an exclamation mark. -/
theorem files_shown (hplace : disk.find root = .ok place) (hdirectory : place.here.isDirectory)
    (hnamed : place.here.WellNamed) (hpatterns : (Selection.ofPatterns includes excludes).isOk) :
    ∃ paths, files disk root includes excludes = .ok paths ∧ paths.Pairwise Path.Precedes ∧
      (∀ p ∈ paths, ∃ found content, p = root.within found ∧ found ≠ [] ∧
        place.here.Leads found (.file content) ∧ Shown found) ∧
      ∀ before pattern after, excludes = before ++ pattern :: after →
        ∃ more, files disk root includes (before ++ after) = .ok more ∧ ∀ p ∈ paths, p ∈ more := by
  obtain ⟨s, hselection⟩ : ∃ s, Selection.ofPatterns includes excludes = .ok s := by
    cases h : Selection.ofPatterns includes excludes with
    | error e => simp [h, Except.isOk, Except.toBool] at hpatterns
    | ok s => exact ⟨s, rfl⟩
  have hpaths := files_eq hplace hdirectory hselection
  refine ⟨_, hpaths, files_pairwise hplace hdirectory hnamed hselection hpaths, ?_, ?_⟩
  · intro p hp
    obtain ⟨-, found, content, hvisits, rfl⟩ :=
      (mem_files hplace hdirectory hselection hpaths).mp hp
    refine ⟨found, content, rfl, hvisits.ne_nil, hvisits.leads, ?_⟩
    exact hvisits.shown hselection (Nat.le_of_eq (length_names place).symm)
      (hvisits.leads.isFileName hnamed)
  · rintro before pattern after rfl
    obtain ⟨t, ht, hchoose⟩ := Selection.choose_exclude hselection
    have hmore := files_eq hplace hdirectory ht
    refine ⟨_, hmore, fun p hp => ?_⟩
    obtain ⟨hroot, found, content, hvisits, rfl⟩ :=
      (mem_files hplace hdirectory hselection hpaths).mp hp
    exact (mem_files hplace hdirectory ht hmore).mpr
      ⟨hroot, found, content, hvisits.mono hchoose, rfl⟩

/-- A directory whose ignore file asks for what is excluded. -/
def askingTree : FileTree :=
  .directory
    [(".ignore", .file "!vendor/\n!.env.sql\n".toUTF8),
      ("vendor", .directory [("a.sql", .file .empty)]),
      (".env.sql", .file .empty),
      (".github", .directory [("b.sql", .file .empty)]),
      ("c.sql", .file .empty)]

def askingDisk : Disk := ⟨.directory [("ws", askingTree)], []⟩

def askingPlace : FileTree.Place := ⟨[(askingDisk.tree, "ws")], askingTree⟩

theorem wellNamed_askingTree : askingTree.WellNamed := by
  refine .directory (by decide) (by decide) ?_
  simp only [List.forall_mem_cons]
  exact ⟨.file, .directory (by decide) (by decide) (by simp [FileTree.WellNamed.file]), .file,
    .directory (by decide) (by decide) (by simp [FileTree.WellNamed.file]), .file, by simp⟩

theorem files_shown_asking :
    askingDisk.find ⟨"ws"⟩ = .ok askingPlace ∧ askingPlace.here.isDirectory ∧
    askingPlace.here.WellNamed ∧ (Selection.ofPatterns ["*.sql"] ["!c.sql"]).isOk ∧
    ∃ paths, files askingDisk ⟨"ws"⟩ ["*.sql"] ["!c.sql"] = .ok paths ∧
      paths.Pairwise Path.Precedes ∧
      (∀ p ∈ paths, ∃ found content, p = Path.within ⟨"ws"⟩ found ∧ found ≠ [] ∧
        askingPlace.here.Leads found (.file content) ∧ Shown found) ∧
      ∀ before pattern after, ["!c.sql"] = before ++ pattern :: after →
        ∃ more, files askingDisk ⟨"ws"⟩ ["*.sql"] (before ++ after) = .ok more ∧
          ∀ p ∈ paths, p ∈ more := by
  have hplace : askingDisk.find ⟨"ws"⟩ = .ok askingPlace := rfl
  have hnamed : askingPlace.here.WellNamed := wellNamed_askingTree
  have hpatterns : (Selection.ofPatterns ["*.sql"] ["!c.sql"]).isOk := by decide +kernel
  exact ⟨hplace, rfl, hnamed, hpatterns, files_shown hplace rfl hnamed hpatterns⟩

end Files

end PlsqlNav.Walk
