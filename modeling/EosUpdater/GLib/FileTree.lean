import Mathlib.Data.List.Infix
import Mathlib.Data.List.Induction
import Mathlib.Data.List.Perm.Subperm
import EosUpdater.GLib.HashTable

/-!
# Trees of files

A `FileTree` has the files at some places, each place given by the names from the root to it. What
has a place below it is a directory, as a field of the structure, and a symbolic link is a file with
a target.

* `node` is what is at a place, without following a link (`node_of_prefix`);
* `enumerate` lists what is in a directory, and follows a link to one;
* `delete` takes away a file, or a directory that is empty (`delete_ok`).
-/

namespace GLib

/-- A place, as the names from the root to it. -/
abbrev Place := List String

/-- What can be at a place. -/
inductive FileNode
  | regular
  | directory
  | symbolicLink (target : Place)
  | special
deriving DecidableEq, Repr

/-- The files at some places. -/
structure FileTree where
  entries : GHashTable Place FileNode
  /-- Only a directory has something below it. -/
  directory_of_child : ∀ place name node, entries.lookup (place ++ [name]) = some node →
    entries.lookup place = some .directory

namespace FileTree

/-- The tree of some entries that come with their directories. -/
def ofEntries (entries : List (Place × FileNode)) (hnodup : (entries.map Prod.fst).Nodup)
    (hparent : ∀ entry ∈ entries, entry.1 ≠ [] → (entry.1.dropLast, .directory) ∈ entries) :
    FileTree where
  entries := ⟨entries, hnodup⟩
  directory_of_child := by
    intro place name found h
    rw [← GHashTable.mem_entries_iff] at h ⊢
    simpa using hparent _ h (by simp)

variable (tree : FileTree)

/-- What is at a place. -/
def node (place : Place) : Option FileNode := tree.entries.lookup place

/-- How many places there are. -/
def size : ℕ := tree.entries.entries.length

/-- What is directly below a place. -/
def children (place : Place) : List (Place × FileNode) :=
  tree.entries.entries.filter fun entry => decide (entry.1 ≠ [] ∧ entry.1.dropLast = place)

/-- What is in a directory, or in the directory that a link leads to. -/
def enumerate (place : Place) : Option (List (Place × FileNode)) :=
  match tree.node place with
  | some .directory => some (tree.children place)
  | some (.symbolicLink target) =>
      if tree.node target = some .directory then some (tree.children target) else none
  | _ => none

variable {tree} {tree' : FileTree} {place child above : Place} {name : String} {found : FileNode}

theorem mem_children : (child, found) ∈ tree.children place ↔
    (∃ name, child = place ++ [name]) ∧ tree.node child = some found := by
  rw [children, List.mem_filter, GHashTable.mem_entries_iff, decide_eq_true_eq, node, and_comm]
  refine and_congr_left fun _ => ?_
  constructor
  · rintro ⟨hne, rfl⟩
    exact ⟨child.getLast hne, (List.dropLast_append_getLast hne).symm⟩
  · rintro ⟨name, rfl⟩
    simp

/-- A directory can be enumerated, with its children. -/
theorem enumerate_of_directory (h : tree.node place = some .directory) :
    tree.enumerate place = some (tree.children place) := by
  rw [enumerate, h]

/-- The places on the way to a file are directories. -/
theorem node_of_prefix (h : tree.node place = some found) (habove : above <+: place)
    (hne : above ≠ place) : tree.node above = some .directory := by
  obtain ⟨below, rfl⟩ := habove
  induction below using List.reverseRecOn generalizing found with
  | nil => simp at hne
  | append_singleton below name ih =>
      rw [← List.append_assoc] at h
      have hparent := tree.directory_of_child (above ++ below) name found h
      rcases eq_or_ne below [] with rfl | hbelow
      · rwa [List.append_nil] at hparent
      · exact ih hparent (by simpa using hbelow)

/-- A place has what it has once only, so that there are not more distinct places than files. -/
theorem length_le_size {places : List Place} (hnodup : places.Nodup)
    (h : ∀ place ∈ places, ∃ found, tree.node place = some found) : places.length ≤ tree.size := by
  have hsub : places ⊆ tree.entries.getKeys := by
    intro place hplace
    exact (tree.entries.mem_getKeys_iff place).2 (h place hplace)
  have hle := (List.subperm_of_subset hnodup hsub).length_le
  simpa [GHashTable.getKeys, size] using hle

/-! ### Deleting -/

/-- Why a file cannot be deleted. -/
inductive DeleteError
  | notFound
  | notEmpty
deriving DecidableEq, Repr

/-- The tree without a place that has nothing below it. -/
def remove (tree : FileTree) (place : Place) (h : tree.children place = []) : FileTree where
  entries := tree.entries.remove place
  directory_of_child := by
    intro parent name found hchild
    by_cases hself : place = parent ++ [name]
    · rw [hself, GHashTable.lookup_remove_self] at hchild
      cases hchild
    rw [GHashTable.lookup_remove_of_ne _ hself] at hchild
    by_cases hparent : place = parent
    · -- the place would have a child
      have hmem : (parent ++ [name], found) ∈ tree.children place :=
        mem_children.2 ⟨⟨name, by rw [hparent]⟩, hchild⟩
      rw [h] at hmem
      exact absurd hmem List.not_mem_nil
    · rw [GHashTable.lookup_remove_of_ne _ hparent]
      exact tree.directory_of_child parent name found hchild

/-- Take away a file, or an empty directory. -/
def delete (tree : FileTree) (place : Place) : Except DeleteError FileTree :=
  match tree.node place with
  | none => .error .notFound
  | some _ => if h : tree.children place = [] then .ok (tree.remove place h) else .error .notEmpty

/-- Deleting a file removes it and leaves everything else. -/
theorem delete_ok (h : tree.delete place = .ok tree') (other : Place) :
    tree'.node other = if other = place then none else tree.node other := by
  rw [delete] at h
  split at h
  · cases h
  split at h
  · cases h
    rw [node, remove]
    split
    · next heq => rw [heq, GHashTable.lookup_remove_self]
    · next hne => exact GHashTable.lookup_remove_of_ne _ (Ne.symm hne)
  · cases h

/-- Deleting fails with not-found only where there is nothing. -/
theorem delete_notFound (h : tree.delete place = .error .notFound) : tree.node place = none := by
  rw [delete] at h
  split at h
  · assumption
  · split at h
    · cases h
    · cases h

/-- Deleting fails with not-empty only where there are children. -/
theorem delete_notEmpty (h : tree.delete place = .error .notEmpty) : tree.children place ≠ [] := by
  rw [delete] at h
  split at h
  · cases h
  · split at h
    · cases h
    · assumption

/-- What has something below it is not taken away. -/
theorem children_of_delete_ok (h : tree.delete place = .ok tree') : tree.children place = [] := by
  rw [delete] at h
  split at h
  · cases h
  · split at h
    · assumption
    · cases h

end FileTree

end GLib
