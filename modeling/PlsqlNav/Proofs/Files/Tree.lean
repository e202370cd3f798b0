import PlsqlNav.Files.Tree
import PlsqlNav.Proofs.Files.Path

/-! Where names lead in a tree of files. -/
namespace PlsqlNav.FileTree

/-- Induction over the entries of directories. -/
@[elab_as_elim]
theorem entriesInduction {motive : FileTree → Prop} (file : ∀ content, motive (.file content))
    (directory : ∀ es, (∀ e ∈ es, motive e.2) → motive (.directory es)) : ∀ tree, motive tree
  | .file content => file content
  | .directory es => directory es fun e _ => entriesInduction file directory e.2
termination_by tree => sizeOf tree
decreasing_by
  simp_wf
  next he =>
    have hentry := List.sizeOf_lt_of_mem he
    have hnode : sizeOf e.2 < sizeOf e := by
      obtain ⟨name, node⟩ := e
      simp only [Prod.mk.sizeOf_spec]
      omega
    omega

/-- The names lead from a tree to what is there. -/
inductive Leads : FileTree → List String → FileTree → Prop
  | here {tree} : Leads tree [] tree
  | entry {es name node names there} : (name, node) ∈ es → Leads node names there →
      Leads (.directory es) (name :: names) there

/-- The entries of all directories have proper names, each its own. -/
inductive WellNamed : FileTree → Prop
  | file {content} : WellNamed (.file content)
  | directory {es} : es.Pairwise (fun e f => e.1 ≠ f.1) → (∀ e ∈ es, IsFileName e.1) →
      (∀ e ∈ es, WellNamed e.2) → WellNamed (.directory es)

theorem Leads.isFileName {tree there : FileTree} {names : List String} (h : tree.Leads names there)
    (hnamed : tree.WellNamed) : ∀ name ∈ names, IsFileName name := by
  induction h with
  | here => simp
  | entry hentry _ ih =>
    cases hnamed with
    | directory _ hnames hnodes =>
      exact List.forall_mem_cons.mpr ⟨hnames _ hentry, ih (hnodes _ hentry)⟩

end PlsqlNav.FileTree
