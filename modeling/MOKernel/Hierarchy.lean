import Mathlib

/-!
# A hierarchical store

Directories and files by path, over arbitrary names and contents.  A path lists the
names from the root down.  The structure carries what makes it a hierarchy: there is a
root directory, everything else lies in a directory, there are finitely many nodes, and
the working directory is one of the directories.  Its operations work on the children
of the working directory and ask for just what keeps these facts.
-/

namespace MOKernel

inductive HNode (β : Type)
  | dir
  | file (content : β)

structure Hierarchy (α β : Type) where
  node : List α → Option (HNode β)
  cwd : List α
  rootDir : node [] = some .dir
  parentDir : ∀ path name, node (path ++ [name]) ≠ none → node path = some .dir
  cwdDir : node cwd = some .dir
  finite : {path | node path ≠ none}.Finite

namespace Hierarchy

variable {α β : Type} (h : Hierarchy α β)

/-- The paths that exist. -/
def paths : Set (List α) := {path | h.node path ≠ none}

/-- How many nodes there are, the root included. -/
noncomputable def size : Nat := h.paths.ncard

/-- The child of the working directory under a name. -/
def child (name : α) : Option (HNode β) := h.node (h.cwd ++ [name])

/-- Just a root. -/
def empty : Hierarchy α β where
  node path := if path = [] then some .dir else none
  cwd := []
  rootDir := if_pos rfl
  parentDir path name exists_ := absurd (if_neg (by simp)) exists_
  cwdDir := if_pos rfl
  finite := by
    apply (Set.finite_singleton []).subset
    intro path exists_
    by_contra notRoot
    exact exists_ (if_neg notRoot)

/-- Go to a directory. -/
def moveTo (path : List α) (dir : h.node path = some .dir) : Hierarchy α β :=
  { h with cwd := path, cwdDir := dir }

/-- The parent of the working directory, or the root. -/
theorem upDir : h.node h.cwd.dropLast = some .dir := by
  rcases List.eq_nil_or_concat' h.cwd with root | ⟨path, name, below⟩
  · rw [root]
    exact h.rootDir
  · rw [below, List.dropLast_concat]
    refine h.parentDir path name ?_
    rw [← below, h.cwdDir]
    nofun

/-- A child of the working directory that contains nothing. -/
def Childless (name : α) : Prop := ∀ name', h.node (h.cwd ++ [name] ++ [name']) = none

theorem childless_of_file {name : α} {content : β} (file : h.child name = some (.file content)) :
    h.Childless name := by
  intro name'
  by_contra exists_
  have dir := h.parentDir _ _ exists_
  rw [child, dir] at file
  cases file

variable [DecidableEq α]

/-- A new child of the working directory, or a new node in place of a file there. -/
def put (name : α) (new : HNode β) (notDir : h.child name ≠ some .dir) :
    Hierarchy α β where
  node := Function.update h.node (h.cwd ++ [name]) (some new)
  cwd := h.cwd
  rootDir := by
    rw [Function.update_of_ne (by simp)]
    exact h.rootDir
  parentDir path name' exists_ := by
    have parent : h.node path = some .dir := by
      rcases eq_or_ne (path ++ [name']) (h.cwd ++ [name]) with same | ne
      · rw [(List.append_inj' same rfl).1]
        exact h.cwdDir
      · rw [Function.update_of_ne ne] at exists_
        exact h.parentDir path name' exists_
    have ne : path ≠ h.cwd ++ [name] := by
      rintro rfl
      exact notDir parent
    rw [Function.update_of_ne ne]
    exact parent
  cwdDir := by
    rw [Function.update_of_ne (by simp)]
    exact h.cwdDir
  finite := by
    apply (h.finite.insert (h.cwd ++ [name])).subset
    intro path exists_
    rcases eq_or_ne path (h.cwd ++ [name]) with rfl | ne
    · exact Set.mem_insert _ _
    · have old : h.node path ≠ none := by rwa [← Function.update_of_ne ne (some new) h.node]
      exact Set.mem_insert_of_mem _ old

/-- A child under a new name. -/
def add (name : α) (new : HNode β) (absent : h.child name = none) : Hierarchy α β :=
  h.put name new (absent ▸ nofun)

/-- New content for a file. -/
def fill (name : α) {old : β} (content : β) (file : h.child name = some (.file old)) :
    Hierarchy α β :=
  h.put name (.file content) (file ▸ nofun)

/-- A child of the working directory that contains nothing, gone. -/
def remove (name : α) (childless : h.Childless name) : Hierarchy α β where
  node := Function.update h.node (h.cwd ++ [name]) none
  cwd := h.cwd
  rootDir := by
    rw [Function.update_of_ne (by simp)]
    exact h.rootDir
  parentDir path name' exists_ := by
    rcases eq_or_ne (path ++ [name']) (h.cwd ++ [name]) with same | ne
    · rw [same, Function.update_self] at exists_
      exact absurd rfl exists_
    · rw [Function.update_of_ne ne] at exists_
      have ne : path ≠ h.cwd ++ [name] := by
        rintro rfl
        exact exists_ (childless name')
      rw [Function.update_of_ne ne]
      exact h.parentDir path name' exists_
  cwdDir := by
    rw [Function.update_of_ne (by simp)]
    exact h.cwdDir
  finite := by
    apply h.finite.subset
    intro path exists_
    rcases eq_or_ne path (h.cwd ++ [name]) with rfl | ne
    · exact absurd (Function.update_self _ _ h.node) exists_
    · change h.node path ≠ none
      rwa [← Function.update_of_ne ne none h.node]

section Lookup

variable {h} {name : α} {path : List α}

@[simp] theorem put_cwd {new : HNode β} (notDir : h.child name ≠ some .dir) :
    (h.put name new notDir).cwd = h.cwd := rfl

theorem put_node_self {new : HNode β} (notDir : h.child name ≠ some .dir) :
    (h.put name new notDir).node (h.cwd ++ [name]) = some new :=
  Function.update_self _ _ _

theorem put_node_of_ne {new : HNode β} (notDir : h.child name ≠ some .dir)
    (ne : path ≠ h.cwd ++ [name]) : (h.put name new notDir).node path = h.node path :=
  Function.update_of_ne ne _ _

variable (childless : h.Childless name)

@[simp] theorem remove_cwd : (h.remove name childless).cwd = h.cwd := rfl

theorem remove_node_self : (h.remove name childless).node (h.cwd ++ [name]) = none :=
  Function.update_self _ _ _

theorem remove_node_of_ne (ne : path ≠ h.cwd ++ [name]) :
    (h.remove name childless).node path = h.node path :=
  Function.update_of_ne ne _ _

end Lookup

end Hierarchy

end MOKernel
