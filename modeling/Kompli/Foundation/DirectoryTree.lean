import Mathlib.Data.List.Perm.Lattice
import Mathlib.Data.List.Perm.Basic

/-! Trees of files whose directories are read in some order, and the files in the order of a walk. -/
namespace Kompli.Foundation

variable {α : Type}

inductive DirectoryNode (α : Type) where
  | file (name : α)
  /-- What a walk reports as something else: a link, a device, or a directory that cannot be read. -/
  | other (name : α)
  | directory (name : α) (entries : List (DirectoryNode α))

namespace DirectoryNode

mutual

/-- The names of the files, those of a directory where it is met. -/
def filesOf : DirectoryNode α → List α
  | .file name => [name]
  | .other _ => []
  | .directory _ entries => files entries

def files : List (DirectoryNode α) → List α
  | [] => []
  | node :: nodes => filesOf node ++ files nodes

end

/-- The same tree with the entries of its directories in another order. -/
inductive Reordered : List (DirectoryNode α) → List (DirectoryNode α) → Prop
  | perm {nodes nodes'} (h : nodes.Perm nodes') : Reordered nodes nodes'
  | cons (node) {nodes nodes'} (h : Reordered nodes nodes') : Reordered (node :: nodes) (node :: nodes')
  | directory (name) {entries entries'} (nodes) (h : Reordered entries entries') :
      Reordered (.directory name entries :: nodes) (.directory name entries' :: nodes)
  | trans {nodes nodes' nodes''} (h : Reordered nodes nodes') (h' : Reordered nodes' nodes'') : Reordered nodes nodes''

theorem files_eq (nodes : List (DirectoryNode α)) : files nodes = nodes.flatMap filesOf := by
  induction nodes with
  | nil => rfl
  | cons node nodes ih => rw [files, ih, List.flatMap_cons]

theorem Reordered.refl (nodes : List (DirectoryNode α)) : Reordered nodes nodes := .perm (.refl nodes)

theorem Reordered.files_perm {nodes nodes' : List (DirectoryNode α)} (h : Reordered nodes nodes') :
    (files nodes).Perm (files nodes') := by
  induction h with
  | perm h =>
    rw [files_eq, files_eq]
    exact h.flatMap_right _
  | cons node h ih => exact ih.append_left _
  | directory name nodes h ih => exact ih.append_right _
  | trans h h' ih ih' => exact ih.trans ih'

/-- What is met before goes to the end. -/
private theorem later {name : α} {node : DirectoryNode α} {nodes : List (DirectoryNode α)}
    (h : ∃ nodes', Reordered nodes nodes' ∧ (files nodes').head? = some name) :
    ∃ nodes', Reordered (node :: nodes) nodes' ∧ (files nodes').head? = some name := by
  obtain ⟨nodes', hreordered, hhead⟩ := h
  have hlast := Reordered.perm (List.perm_append_singleton node nodes').symm
  refine ⟨nodes' ++ [node], (Reordered.cons node hreordered).trans hlast, ?_⟩
  rw [files_eq, List.flatMap_append, List.head?_append, ← files_eq, hhead]
  rfl

/-- In some order any file is met first. -/
theorem exists_reordered_head {name : α} : ∀ {nodes : List (DirectoryNode α)}, name ∈ files nodes →
    ∃ nodes', Reordered nodes nodes' ∧ (files nodes').head? = some name
  | node :: nodes, h => by
    rw [files, List.mem_append] at h
    rcases h with hnode | hrest
    · cases node with
      | file first =>
        rw [filesOf, List.mem_singleton] at hnode
        rw [hnode]
        exact ⟨_, .refl _, rfl⟩
      | other first => exact absurd hnode List.not_mem_nil
      | directory first entries =>
        obtain ⟨entries', hreordered, hhead⟩ := exists_reordered_head hnode
        refine ⟨_, .directory first nodes hreordered, ?_⟩
        rw [files, filesOf, List.head?_append, hhead]
        rfl
    · exact later (exists_reordered_head hrest)

end DirectoryNode

end Kompli.Foundation
