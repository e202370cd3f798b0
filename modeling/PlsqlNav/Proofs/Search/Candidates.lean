import Mathlib.Data.List.Forall2
import Mathlib.Data.List.Induction
import PlsqlNav.Proofs.Files.Candidate

/-! The candidates of a workspace. Where no ignore file has a rule, they are the files that hints point to
below each root, but a root that is called `-` counts as empty. -/
namespace PlsqlNav

/-- The paths of a list that are not the same as an earlier one. -/
inductive FirstOf : List Path → List Path → Prop
  | nil : FirstOf [] []
  | fresh {found kept p} : FirstOf found kept → (∀ q ∈ found, q.components ≠ p.components) →
      FirstOf (found ++ [p]) (kept ++ [p])
  | again {found kept p} : FirstOf found kept → (∃ q ∈ found, q.components = p.components) →
      FirstOf (found ++ [p]) kept

theorem FirstOf.any_same {found kept : List Path} (h : FirstOf found kept) (p : Path) :
    kept.any p.same ↔ ∃ q ∈ found, q.components = p.components := by
  induction h with
  | nil => simp
  | @fresh found kept r _ _ ih =>
    rw [List.any_append, Bool.or_eq_true, ih, List.any_cons, List.any_nil, Bool.or_false,
      Path.same_iff, eq_comm]
    simp [or_and_right, exists_or]
  | @again found kept r _ hagain ih =>
    rw [ih]
    constructor
    · rintro ⟨q, hq, heq⟩
      exact ⟨q, List.mem_append_left _ hq, heq⟩
    · rintro ⟨q, hq, heq⟩
      rcases List.mem_append.mp hq with hq | hq
      · exact ⟨q, hq, heq⟩
      · rw [List.mem_singleton.mp hq] at heq
        rwa [← heq]

namespace Workspace

theorem firstOf_distinct (paths : List Path) : FirstOf paths (distinct paths) := by
  induction paths using List.reverseRecOn with
  | nil => exact .nil
  | append_singleton paths p ih =>
    have hstep : distinct (paths ++ [p]) =
        if (distinct paths).any p.same then distinct paths else distinct paths ++ [p] := by
      simp [distinct]
    rw [hstep]
    split
    · next hsame => exact .again ih ((ih.any_same p).mp hsame)
    · next hfresh =>
      refine .fresh ih fun q hq heq => hfresh ?_
      exact (ih.any_same p).mpr ⟨q, hq, heq⟩

/-- Some hint is not empty, and there is an extension. -/
def Asked (hints extensions : List String) : Prop := (∃ hint ∈ hints, hint ≠ "") ∧ extensions ≠ []

theorem patterns_eq_nil_iff {hints extensions : List String} :
    patterns hints extensions = [] ↔ ¬ Asked hints extensions := by
  simp only [patterns, Asked, List.flatMap_eq_nil_iff, List.mem_filter, List.map_eq_nil_iff,
    decide_eq_true_eq]
  grind

theorem including_ne_nil {hints extensions : List String} (h : Asked hints extensions) :
    Selection.including hints extensions ≠ [] := by
  obtain ⟨⟨hint, hhint, hne⟩, hextensions⟩ := h
  obtain ⟨e, es, rfl⟩ := List.exists_cons_of_ne_nil hextensions
  exact List.ne_nil_of_mem
    (Selection.mem_including.mpr ⟨hint, hhint, hne, e, List.mem_cons_self, rfl⟩)

/-- A directory with proper names, without rules of ignore files in it, below it or above it. -/
structure PlainRoot (disk : Disk) (root : Path) (place : FileTree.Place) : Prop where
  found : disk.find root = .ok place
  isDirectory : place.here.isDirectory
  wellNamed : place.here.WellNamed
  ruleFreeBelow : Walk.RuleFreeBelow disk place.here
  ruleFreeAbove : ∀ d ∈ place.above, disk.RuleFree d.1

/-- A workspace over such directories that excludes nothing of its own. -/
structure Plain (w : Workspace) (disk : Disk) (hints : List String) : Prop where
  exclusions : w.exclusions = []
  hints : PlainHints hints w.extensions
  roots : ∀ root ∈ w.roots, ∃ place, PlainRoot disk root place

/-- A file below a root that hints point to. -/
def PointedTo (disk : Disk) (hints extensions : List String) (root p : Path) : Prop :=
  ∃ place names content, disk.find root = .ok place ∧ place.here.Leads names (.file content) ∧
    p = root.within names ∧ IsCandidate hints extensions names

/-- The candidates are the files that are wanted below each root, sorted, in the order of the roots, and
each where it comes first. -/
def Enumerates (w : Workspace) (disk : Disk) (hints : List String) (wanted : Path → Path → Prop) :
    Prop :=
  ∃ lists kept, List.Forall₂ (fun root list =>
      list.Pairwise Path.Precedes ∧ ∀ p, p ∈ list ↔ wanted root p) w.roots lists ∧
    w.candidates disk hints = .ok kept ∧ FirstOf lists.flatten kept

theorem isSilent_of_mem_levelsAbove {disk : Disk} {above : List (FileTree × String)}
    (h : ∀ d ∈ above, disk.RuleFree d.1) : ∀ l ∈ Walk.levelsAbove disk above, l.IsSilent := by
  induction above with
  | nil => simp [Walk.levelsAbove]
  | cons d outer ih =>
    rw [List.forall_mem_cons] at h
    exact List.forall_mem_cons.mpr ⟨h.1.isSilent outer.length, ih h.2⟩

/-- What a walk from one root lists. -/
theorem files_plain {disk : Disk} {root : Path} {place : FileTree.Place}
    {hints extensions : List String} (hroot : PlainRoot disk root place)
    (hplain : PlainHints hints extensions) (hasked : Asked hints extensions) :
    ∃ list, Walk.files disk root (patterns hints extensions) [] = .ok list ∧
      list.Pairwise Path.Precedes ∧ ∀ p, p ∈ list ↔
        root.components ≠ [.name "-"] ∧ PointedTo disk hints extensions root p := by
  have hselection := Selection.ofPatterns_patterns hplain
  have hlist := Walk.files_eq hroot.found hroot.isDirectory hselection
  refine ⟨_, hlist, Walk.files_pairwise hroot.found hroot.isDirectory hroot.wellNamed hselection hlist,
    fun p => ?_⟩
  have hasks : Walk.Asks (Walk.contextAt disk place (Selection.pointing hints extensions)) hints
      extensions := ⟨rfl, hplain, including_ne_nil hasked⟩
  have hiff (found : List String) (content : ByteArray) :
      Walk.Visits _ _ place.names place.here found content ↔ _ :=
    hasks.visits_iff (isSilent_of_mem_levelsAbove hroot.ruleFreeAbove)
      (Nat.le_of_eq (Walk.length_names place).symm) hroot.ruleFreeBelow hroot.wellNamed
  rw [Walk.mem_files hroot.found hroot.isDirectory hselection hlist]
  apply and_congr_right
  intro _
  constructor
  · rintro ⟨found, content, hvisits, rfl⟩
    obtain ⟨hleads, hcandidate⟩ := (hiff found content).mp hvisits
    exact ⟨place, found, content, hroot.found, hleads, rfl, hcandidate⟩
  · rintro ⟨other, found, content, hother, hleads, rfl, hcandidate⟩
    rw [hroot.found] at hother
    cases hother
    exact ⟨found, content, (hiff found content).mpr ⟨hleads, hcandidate⟩, rfl⟩

theorem mapM_eq_ok {α β ε : Type} {f : α → Except ε β} {as : List α} {bs : List β}
    (h : List.Forall₂ (fun a b => f a = .ok b) as bs) : as.mapM f = .ok bs := by
  induction h with
  | nil => rfl
  | cons hab _ ih =>
    rw [List.mapM_cons, hab, ih]
    rfl

theorem exists_forall₂ {α β : Type} {R : α → β → Prop} {as : List α} (h : ∀ a ∈ as, ∃ b, R a b) :
    ∃ bs, List.Forall₂ R as bs := by
  induction as with
  | nil => exact ⟨[], .nil⟩
  | cons a as ih =>
    rw [List.forall_mem_cons] at h
    obtain ⟨⟨b, hb⟩, hrest⟩ := h
    obtain ⟨bs, hbs⟩ := ih hrest
    exact ⟨b :: bs, .cons hb hbs⟩

/-- Without a hint or an extension no root is looked at. Else the candidates are the files that hints
point to below the roots; `-` stands for standard input and not for a directory of that name. -/
theorem candidates_plain {w : Workspace} {disk : Disk} {hints : List String}
    (h : w.Plain disk hints) :
    (¬ Asked hints w.extensions →
      ∀ other roots, candidates { w with roots } other hints = .ok []) ∧
    (Asked hints w.extensions → w.Enumerates disk hints fun root p =>
      root.components ≠ [.name "-"] ∧ PointedTo disk hints w.extensions root p) := by
  constructor
  · intro hasked other roots
    simp [candidates, patterns_eq_nil_iff.mpr hasked]
  · intro hasked
    obtain ⟨lists, hlists⟩ := exists_forall₂ fun root hroot =>
      let ⟨place, hplace⟩ := h.roots root hroot
      files_plain hplace h.hints hasked
    have hmapM := mapM_eq_ok (hlists.imp fun _ _ hlist => hlist.1)
    have hpatterns : ¬ (patterns hints w.extensions).isEmpty := by
      rw [List.isEmpty_iff, patterns_eq_nil_iff]
      exact fun hnot => hnot hasked
    refine ⟨lists, distinct lists.flatten, hlists.imp fun _ _ hlist => hlist.2, ?_,
      firstOf_distinct _⟩
    rw [candidates, if_neg hpatterns, h.exclusions, hmapM]
    rfl

/-- Two roots, one inside the other. -/
def nestedTree : FileTree :=
  .directory
    [("src", .directory [("my_P[k.SQL", .file .empty)]),
      ("vendor", .directory [("p[k.sql", .file .empty)])]

def nestedDisk : Disk := ⟨.directory [("ws", nestedTree)], []⟩

def nestedWorkspace : Workspace := ⟨[⟨"ws"⟩, ⟨"ws/src"⟩], ["sql"], []⟩

theorem plain_nested {hints : List String} (h : PlainHints hints nestedWorkspace.extensions) :
    nestedWorkspace.Plain nestedDisk hints := by
  have hsrc : FileTree.WellNamed (.directory [("my_P[k.SQL", .file .empty)]) :=
    .directory (by decide) (by decide) (by simp [FileTree.WellNamed.file])
  have hvendor : FileTree.WellNamed (.directory [("p[k.sql", .file .empty)]) :=
    .directory (by decide) (by decide) (by simp [FileTree.WellNamed.file])
  have hsrcRules : Walk.RuleFreeBelow nestedDisk (.directory [("my_P[k.SQL", .file .empty)]) :=
    .directory ⟨rfl, rfl, rfl⟩ (by simp [Walk.RuleFreeBelow.file])
  have hvendorRules : Walk.RuleFreeBelow nestedDisk (.directory [("p[k.sql", .file .empty)]) :=
    .directory ⟨rfl, rfl, rfl⟩ (by simp [Walk.RuleFreeBelow.file])
  refine ⟨rfl, h, ?_⟩
  simp only [nestedWorkspace, List.forall_mem_cons]
  refine ⟨⟨⟨[(nestedDisk.tree, "ws")], nestedTree⟩, rfl, rfl, ?_, ?_, ?_⟩,
    ⟨⟨[(nestedTree, "src"), (nestedDisk.tree, "ws")], _⟩, rfl, rfl, hsrc, hsrcRules, ?_⟩, by simp⟩
  · exact .directory (by decide) (by decide) (by simp [hsrc, hvendor])
  · exact .directory ⟨rfl, rfl, rfl⟩ (by simp [hsrcRules, hvendorRules])
  · simp only [List.forall_mem_singleton]
    exact ⟨rfl, rfl, rfl⟩
  · simp only [List.forall_mem_cons]
    exact ⟨⟨rfl, rfl, rfl⟩, ⟨rfl, rfl, rfl⟩, by simp⟩

theorem candidates_plain_nested :
    nestedWorkspace.Plain nestedDisk ["P["] ∧ Asked ["P["] nestedWorkspace.extensions ∧
    (nestedWorkspace.Enumerates nestedDisk ["P["] fun root p =>
      root.components ≠ [.name "-"] ∧
        PointedTo nestedDisk ["P["] nestedWorkspace.extensions root p) ∧
    ¬ Asked [""] nestedWorkspace.extensions ∧
    ∀ other roots, candidates { nestedWorkspace with roots } other [""] = .ok [] := by
  have hplain : nestedWorkspace.Plain nestedDisk ["P["] := plain_nested (by decide)
  have hasked : Asked ["P["] nestedWorkspace.extensions := ⟨⟨"P[", by decide, by decide⟩, by decide⟩
  have hempty : ¬ Asked [""] nestedWorkspace.extensions := by
    simp [Asked]
  exact ⟨hplain, hasked, (candidates_plain hplain).2 hasked, hempty,
    (candidates_plain (plain_nested (by decide))).1 hempty⟩

/-- A directory that is called `-`. -/
def dashTree : FileTree := .directory [("pkg.sql", .file .empty)]

def dashDisk : Disk := ⟨.directory [("-", dashTree)], []⟩

def dashWorkspace : Workspace := ⟨[⟨"-"⟩], ["sql"], []⟩

theorem plainRoot_dash : PlainRoot dashDisk ⟨"-"⟩ ⟨[(dashDisk.tree, "-")], dashTree⟩ where
  found := rfl
  isDirectory := rfl
  wellNamed := .directory (by decide) (by decide) (by simp [FileTree.WellNamed.file])
  ruleFreeBelow := .directory ⟨rfl, rfl, rfl⟩ (by simp [Walk.RuleFreeBelow.file])
  ruleFreeAbove := by
    simp only [List.forall_mem_singleton]
    exact ⟨rfl, rfl, rfl⟩

theorem plain_dash : dashWorkspace.Plain dashDisk ["pkg"] where
  exclusions := rfl
  hints := by decide
  roots := by
    simp only [dashWorkspace, List.forall_mem_singleton]
    exact ⟨_, plainRoot_dash⟩

theorem pointedTo_dash : PointedTo dashDisk ["pkg"] ["sql"] ⟨"-"⟩ ⟨"-/pkg.sql"⟩ := by
  refine ⟨_, ["pkg.sql"], .empty, plainRoot_dash.found, .entry List.mem_cons_self .here, rfl, ?_⟩
  rw [isCandidate_singleton]
  exact ⟨by decide, "pkg", by decide, by decide, "sql", by decide, "", "pkg", "", "sql", by decide,
    by decide, by decide⟩

theorem candidates_dash : dashWorkspace.candidates dashDisk ["pkg"] = .ok [] := by
  have hlist := Walk.files_eq plainRoot_dash.found plainRoot_dash.isDirectory
    (Selection.ofPatterns_patterns plain_dash.hints)
  rw [if_pos (by decide)] at hlist
  have hmapM := mapM_eq_ok (List.Forall₂.cons hlist .nil)
  rw [candidates, if_neg (by decide)]
  exact congrArg (Except.map fun found => distinct found.flatten) hmapM

/-- A root that is called `-` is not read, though it is a directory with candidates. -/
theorem not_enumerates_dash : ¬ ∀ (w : Workspace) (disk : Disk) (hints : List String),
    w.Plain disk hints → Asked hints w.extensions →
      w.Enumerates disk hints (PointedTo disk hints w.extensions) := by
  intro hall
  have hasked : Asked ["pkg"] dashWorkspace.extensions :=
    ⟨⟨"pkg", by decide, by decide⟩, by decide⟩
  obtain ⟨lists, kept, hlists, hkept, hfirst⟩ := hall _ _ _ plain_dash hasked
  rw [candidates_dash] at hkept
  cases hkept
  cases hlists with
  | cons hlist hrest =>
    cases hrest
    have hmem := (hlist.2 _).mpr pointedTo_dash
    have hsame := (hfirst.any_same ⟨"-/pkg.sql"⟩).mpr ⟨_, by simpa using hmem, rfl⟩
    contradiction

end Workspace

end PlsqlNav
