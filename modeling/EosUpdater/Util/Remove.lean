import EosUpdater.GLib.FileTree
import EosUpdater.Util.Error

/-!
# Removing a directory with what is in it

`eos_updater_remove_recursive` of the utility library. It goes through the directories from the top,
deletes the files in them, and in the end deletes the directories, those it found last first. What a
filter tells it to ignore is neither deleted nor looked into, and what is on the way there cannot be
deleted as it is not empty.

So what should be left is what the filter protects (`Kept`): a place that is ignored and reached,
what is below it, and what is on the way to it. Here is what is done in one directory: files among
its children go (`onlyRemoves_rmChildren`, `node_of_rmChildren`), and the directories among them are
added to the queue (`queue_of_rmChildren`).
-/

namespace Euu

open GLib

/-! ### The file system -/

/-- `GFileType`. -/
inductive GFileType
  | regular
  | directory
  | symbolicLink
  | special
deriving DecidableEq, Repr

/-- The type of a file, without following links. -/
def fileType : FileNode → GFileType
  | .regular => .regular
  | .directory => .directory
  | .symbolicLink _ => .symbolicLink
  | .special => .special

/-- `G_IO_ERROR_NOT_EMPTY`. -/
def ioNotEmpty : ErrorCode := .other "g-io-error-quark" 5

/-- The errors in which the calls of GIO end for other reasons than what is in the tree. -/
structure TreeIO where
  /-- `g_file_query_info`. That a file is not found depends on the tree. -/
  queryInfo : Place → Option { e : GError // e.code ≠ .ioNotFound }
  /-- `g_file_enumerate_children`. -/
  enumerateChildren : Place → Option GError
  /-- `g_file_enumerator_iterate`, after some of the children of a directory. -/
  iterate : Place → Option (ℕ × GError)
  /-- `g_file_delete`. -/
  delete : Place → Option GError

/-- `g_file_delete`. -/
def TreeIO.fileDelete (io : TreeIO) (file : Place) (tree : FileTree) : Except GError FileTree :=
  match io.delete file with
  | some e => .error e
  | none =>
      match tree.delete file with
      | .ok tree => .ok tree
      | .error .notFound => .error ⟨.ioNotFound, "No such file or directory"⟩
      | .error .notEmpty => .error ⟨ioNotEmpty, "Directory not empty"⟩

/-- What iterating over the children of a directory gives. -/
def TreeIO.fileEnumeratorIterate (io : TreeIO) (dir : Place) (children : List (Place × FileNode)) :
    List (Except GError (Place × FileNode)) :=
  match io.iterate dir with
  | none => children.map .ok
  | some (n, e) => (children.take n).map .ok ++ [.error e]

/-! ### The removal -/

/-- `EosUpdaterFileFilterReturn`. -/
inductive FileFilterReturn
  | ignore
  | handle
deriving DecidableEq, Repr

/-- `EosUpdaterFileFilterFunc`. -/
abbrev FileFilterFunc := Place → GFileType → FileFilterReturn

/-- There is a filter, and it ignores the file. -/
def isIgnored (filterFunc : Option FileFilterFunc) (file : Place) (node : FileNode) : Bool :=
  filterFunc.any fun filter => decide (filter file (fileType node) = .ignore)

/-- `rm_file_ignore_noent`. -/
def rmFileIgnoreNoent (io : TreeIO) (file : Place) (ignoreEnotempty : Bool) (tree : FileTree) :
    Except GError Unit × FileTree :=
  match io.fileDelete file tree with
  | .ok tree => (.ok (), tree)
  | .error localError =>
      -- gone already, as the top is when it comes twice
      if localError.code = .ioNotFound then (.ok (), tree)
      else if ignoreEnotempty && localError.code = ioNotEmpty then (.ok (), tree)
      else (.error localError, tree)

/-- The loop of `rm_rf_internal` over the children of a directory, with its queue and the number of
children that were ignored. -/
def rmChildren (io : TreeIO) (filterFunc : Option FileFilterFunc) :
    List (Except GError (Place × FileNode)) → List Place → ℕ → FileTree →
      Except GError (List Place × ℕ) × FileTree
  | [], queue, nIgnored, tree => (.ok (queue, nIgnored), tree)
  | .error e :: _, _, _, tree => (.error e, tree)
  | .ok (child, node) :: children, queue, nIgnored, tree =>
      -- neither deleted nor looked into
      if isIgnored filterFunc child node then
        rmChildren io filterFunc children queue (nIgnored + 1) tree
      else if fileType node = .directory then
        rmChildren io filterFunc children (queue ++ [child]) nIgnored tree
      else
        match rmFileIgnoreNoent io child false tree with
        | (.error e, tree) => (.error e, tree)
        | (.ok (), tree) => rmChildren io filterFunc children queue nIgnored tree

/-- The loop of `rm_rf_internal` over its queue of directories, as long as there is fuel. The tail
of the queue comes first here. -/
def rmQueue (io : TreeIO) (filterFunc : Option FileFilterFunc) :
    ℕ → List Place → List Place → Bool → FileTree →
      Option (Except GError (List Place × Bool) × FileTree)
  | _, [], dirsToDelete, anyIgnored, tree => some (.ok (dirsToDelete, anyIgnored), tree)
  | 0, _ :: _, _, _, _ => none
  | fuel + 1, dir :: queue, dirsToDelete, anyIgnored, tree =>
      match io.enumerateChildren dir, tree.enumerate dir with
      | some e, _ => some (.error e, tree)
      | none, none => some (.error ⟨.ioFailed, "Error opening directory"⟩, tree)
      | none, some children =>
          match rmChildren io filterFunc (io.fileEnumeratorIterate dir children) queue 0 tree with
          | (.error e, tree) => some (.error e, tree)
          | (.ok (queue, nIgnored), tree) =>
              -- a directory with ignored children is never empty, and not listed
              if nIgnored = 0 then
                rmQueue io filterFunc fuel queue (dir :: dirsToDelete) anyIgnored tree
              else rmQueue io filterFunc fuel queue dirsToDelete true tree

/-- The loop of `rm_rf_internal` over the directories to delete. -/
def rmDirs (io : TreeIO) : List Place → FileTree → Except GError Unit × FileTree
  | [], tree => (.ok (), tree)
  | dir :: dirsToDelete, tree =>
      match rmFileIgnoreNoent io dir true tree with
      | (.error e, tree) => (.error e, tree)
      | (.ok (), tree) => rmDirs io dirsToDelete tree

/-- `rm_rf_internal`, with fuel for its queue. -/
def rmRfInternal (io : TreeIO) (filterFunc : Option FileFilterFunc) (fuel : ℕ) (topdir : Place)
    (tree : FileTree) : Option (Except GError Unit × FileTree) :=
  match io.queryInfo topdir, tree.node topdir with
  | some e, _ => some (.error e, tree)
  | none, none => some (.ok (), tree)
  | none, some node =>
      if isIgnored filterFunc topdir node then some (.ok (), tree)
      else if fileType node ≠ .directory then some (rmFileIgnoreNoent io topdir false tree)
      else
        match rmQueue io filterFunc fuel [topdir] [] false tree with
        | none => none
        | some (.error e, tree) => some (.error e, tree)
        | some (.ok (dirsToDelete, anyIgnored), tree) =>
            -- the top may be in the list already
            some (rmDirs io (if anyIgnored then dirsToDelete else dirsToDelete ++ [topdir]) tree)

/-- `eos_updater_remove_recursive`. -/
def removeRecursive (io : TreeIO) (filterFunc : Option FileFilterFunc) (fuel : ℕ) (topdir : Place)
    (tree : FileTree) : Option (Except GError Unit × FileTree) :=
  (rmRfInternal io filterFunc fuel topdir tree).map fun result =>
    (result.1.mapError (prefixError ("Failed to remove the file or directory in /" ++
      "/".intercalate topdir ++ ", this should not happen: ")), result.2)

/-! ### What is protected -/

/-- There is a file that the filter ignores. -/
def Ignored (filterFunc : Option FileFilterFunc) (tree : FileTree) (place : Place) : Prop :=
  ∃ node, tree.node place = some node ∧ isIgnored filterFunc place node = true

/-- A place below the top that is ignored, while none on the way to it from the top is. -/
structure TopmostIgnored (filterFunc : Option FileFilterFunc) (tree : FileTree)
    (topdir place : Place) : Prop where
  below : topdir <+: place
  ignored : Ignored filterFunc tree place
  topmost : ∀ above, topdir <+: above → above <+: place → above ≠ place →
    ¬ Ignored filterFunc tree above

/-- A place that is ignored and reached, below one, or on the way to one. -/
def Kept (filterFunc : Option FileFilterFunc) (tree : FileTree) (topdir place : Place) : Prop :=
  ∃ ignored, TopmostIgnored filterFunc tree topdir ignored ∧ (ignored <+: place ∨ place <+: ignored)

/-- What is at the top and below has been removed, but for what is protected. -/
structure RemovesUnprotected (filterFunc : Option FileFilterFunc) (topdir : Place)
    (tree tree' : FileTree) : Prop where
  kept : ∀ place, topdir <+: place → Kept filterFunc tree topdir place →
    tree'.node place = tree.node place
  removed : ∀ place, topdir <+: place → ¬ Kept filterFunc tree topdir place →
    tree'.node place = none

/-- Files have gone at some places, and nothing else has changed. -/
def OnlyRemoves (removed : Place → Prop) (tree tree' : FileTree) : Prop :=
  ∀ place, tree'.node place = tree.node place ∨ tree'.node place = none ∧ removed place

variable {io : TreeIO} {filterFunc : Option FileFilterFunc} {topdir place dir child file : Place}
variable {tree tree' tree₀ : FileTree} {node : FileNode} {queue visited dirs : List Place}

/-! ### One file -/

variable (io file tree) in
/-- Deleting a file takes away nothing else. -/
theorem onlyRemoves_rmFile (ignoreEnotempty : Bool) :
    OnlyRemoves (· = file) tree (rmFileIgnoreNoent io file ignoreEnotempty tree).2 := by
  intro place
  rw [rmFileIgnoreNoent]
  split
  · next tree' hdelete =>
      rw [ TreeIO.fileDelete] at hdelete
      split at hdelete
      · cases hdelete
      split at hdelete
      · next hok =>
          cases hdelete
          rw [FileTree.delete_ok hok]
          split_ifs with hplace
          · exact .inr ⟨rfl, hplace⟩
          · exact .inl rfl
      · cases hdelete
      · cases hdelete
  -- the deletion has failed, and is an error or not: the tree is the same
  · split_ifs
    · exact .inl rfl
    · exact .inl rfl
    · exact .inl rfl

variable (tree) in
/-- What a reliable deletion comes to. -/
theorem fileDelete_cases (hdelete : io.delete file = none) :
    (∃ tree', io.fileDelete file tree = .ok tree' ∧ tree.delete file = .ok tree') ∨
      (∃ e, io.fileDelete file tree = .error e ∧ e.code = .ioNotFound ∧ tree.node file = none) ∨
      ∃ e, io.fileDelete file tree = .error e ∧ e.code = ioNotEmpty ∧ tree.children file ≠ [] := by
  rw [ TreeIO.fileDelete, hdelete]
  cases h : tree.delete file with
  | ok tree' => exact .inl ⟨tree', rfl, rfl⟩
  | error e =>
      cases e with
      | notFound => exact .inr (.inl ⟨_, rfl, rfl, FileTree.delete_notFound h⟩)
      | notEmpty => exact .inr (.inr ⟨_, rfl, rfl, FileTree.delete_notEmpty h⟩)

variable (tree) in
/-- A file that has been deleted is gone. -/
theorem node_rmFile (hdelete : io.delete file = none)
    (hok : (rmFileIgnoreNoent io file false tree).1 = .ok ()) :
    (rmFileIgnoreNoent io file false tree).2.node file = none := by
  rcases fileDelete_cases tree hdelete with
    ⟨tree', hresult, hdeleted⟩ | ⟨e, hresult, hcode, hnone⟩ | ⟨e, hresult, hcode, -⟩
  · simp [rmFileIgnoreNoent, hresult, FileTree.delete_ok hdeleted]
  · simp [rmFileIgnoreNoent, hresult, hcode, hnone]
  · simp [rmFileIgnoreNoent, hresult, hcode, ioNotEmpty] at hok

variable (tree) in
/-- A directory is deleted if it is empty, and otherwise stays. -/
theorem rmFile_directory (hdelete : io.delete dir = none) :
    (rmFileIgnoreNoent io dir true tree).1 = .ok () ∧
      (tree.children dir = [] → (rmFileIgnoreNoent io dir true tree).2.node dir = none) ∧
      (tree.children dir ≠ [] → (rmFileIgnoreNoent io dir true tree).2 = tree) := by
  rcases fileDelete_cases tree hdelete with
    ⟨tree', hresult, hdeleted⟩ | ⟨e, hresult, hcode, hnone⟩ | ⟨e, hresult, hcode, hchildren⟩
  · have hempty := FileTree.children_of_delete_ok hdeleted
    simp [rmFileIgnoreNoent, hresult, FileTree.delete_ok hdeleted, hempty]
  · simp [rmFileIgnoreNoent, hresult, hcode, hnone]
  · simp [rmFileIgnoreNoent, hresult, hcode, hchildren]

/-! ### One directory -/

theorem OnlyRemoves.refl {removed : Place → Prop} : OnlyRemoves removed tree tree :=
  fun _ => .inl rfl

theorem OnlyRemoves.trans {removed removed' : Place → Prop} {tree'' : FileTree}
    (h : OnlyRemoves removed tree tree') (h' : OnlyRemoves removed' tree' tree'') :
    OnlyRemoves (fun place => removed place ∨ removed' place) tree tree'' := by
  intro place
  rcases h' place with heq' | ⟨hnone, hremoved⟩
  · rcases h place with heq | ⟨hnone, hremoved⟩
    · exact .inl (heq'.trans heq)
    · exact .inr ⟨heq'.trans hnone, .inl hremoved⟩
  · exact .inr ⟨hnone, .inr hremoved⟩

theorem OnlyRemoves.mono {removed removed' : Place → Prop} (h : OnlyRemoves removed tree tree')
    (himp : ∀ place, removed place → removed' place) : OnlyRemoves removed' tree tree' :=
  fun place => (h place).imp_right fun ⟨hnone, hremoved⟩ => ⟨hnone, himp place hremoved⟩

/-- What has gone does not come back. -/
theorem OnlyRemoves.node_eq_none {removed : Place → Prop} (h : OnlyRemoves removed tree tree')
    (hnone : tree.node place = none) : tree'.node place = none := by
  rcases h place with heq | ⟨hgone, -⟩
  · rw [heq, hnone]
  · exact hgone

/-- A child that the loop deletes. -/
def IsDeleted (filterFunc : Option FileFilterFunc) (node : FileNode) (place : Place) : Prop :=
  node ≠ .directory ∧ isIgnored filterFunc place node = false

/-- The directories among the children that the loop adds to the queue. -/
def subdirectories (filterFunc : Option FileFilterFunc) :
    List (Except GError (Place × FileNode)) → List Place
  | [] => []
  | .error _ :: children => subdirectories filterFunc children
  | .ok (child, node) :: children =>
      if node = .directory ∧ isIgnored filterFunc child node = false then
        child :: subdirectories filterFunc children
      else subdirectories filterFunc children

theorem mem_subdirectories {children : List (Except GError (Place × FileNode))} :
    child ∈ subdirectories filterFunc children ↔ .ok (child, .directory) ∈ children ∧
      isIgnored filterFunc child .directory = false := by
  fun_induction subdirectories filterFunc children with
  | case1 => simp
  | case2 e children ih => simpa using ih
  -- the child is added to the queue, or is none that could be
  | case3 c n children hdirectory ih =>
      rw [List.mem_cons, ih]
      grind
  | case4 c n children hother ih =>
      rw [ih]
      grind

/-- The type of a node is read off it. -/
@[simp] theorem fileType_eq_directory : fileType node = .directory ↔ node = .directory := by
  cases node <;> simp [fileType]

/-- A child that the loop deletes, among the children that are left. -/
def DeletedAmong (filterFunc : Option FileFilterFunc)
    (children : List (Except GError (Place × FileNode))) (place : Place) : Prop :=
  ∃ node, .ok (place, node) ∈ children ∧ IsDeleted filterFunc node place

/-- A further child leaves what was to be deleted. -/
theorem DeletedAmong.cons {first : Except GError (Place × FileNode)}
    {children : List (Except GError (Place × FileNode))}
    (h : DeletedAmong filterFunc children place) :
    DeletedAmong filterFunc (first :: children) place := by
  obtain ⟨node, hmem, hdeleted⟩ := h
  exact ⟨node, List.mem_cons_of_mem _ hmem, hdeleted⟩

variable (io filterFunc) in
/-- The loop over the children of a directory deletes files among them, and nothing else. -/
theorem onlyRemoves_rmChildren (children : List (Except GError (Place × FileNode)))
    (queue : List Place) (nIgnored : ℕ) (tree : FileTree) :
    OnlyRemoves (DeletedAmong filterFunc children) tree
      (rmChildren io filterFunc children queue nIgnored tree).2 := by
  have hfirst : ∀ {child node} (children : List _) (tree : FileTree),
      ¬ isIgnored filterFunc child node = true → ¬ fileType node = .directory →
      OnlyRemoves (DeletedAmong filterFunc (.ok (child, node) :: children)) tree
        (rmFileIgnoreNoent io child false tree).2 := by
    intro child node children tree hignored hdirectory
    -- what goes is the child itself
    refine (onlyRemoves_rmFile io child tree false).mono ?_
    rintro place rfl
    rw [fileType_eq_directory] at hdirectory
    exact ⟨node, List.mem_cons_self, hdirectory, by simpa using hignored⟩
  fun_induction rmChildren io filterFunc children queue nIgnored tree with
  | case1 => exact .refl
  | case2 => exact .refl
  | case3 child node children queue nIgnored tree hignored ih =>
      exact ih.mono fun place => DeletedAmong.cons
  | case4 child node children queue nIgnored tree hignored hdirectory ih =>
      exact ih.mono fun place => DeletedAmong.cons
  | case5 child node children queue nIgnored tree hignored hdirectory e tree₁ hrm =>
      simpa only [hrm] using hfirst children tree hignored hdirectory
  | case6 child node children queue nIgnored tree hignored hdirectory tree₁ hrm ih =>
      have hchild := hfirst children tree hignored hdirectory
      rw [hrm] at hchild
      exact (hchild.trans ih).mono fun place => Or.rec id DeletedAmong.cons

/-- It adds the directories among them to the queue that are not ignored. -/
theorem queue_of_rmChildren {children : List (Except GError (Place × FileNode))}
    {queue queue' : List Place} {nIgnored nIgnored' : ℕ}
    (h : (rmChildren io filterFunc children queue nIgnored tree).1 = .ok (queue', nIgnored')) :
    queue' = queue ++ subdirectories filterFunc children := by
  fun_induction rmChildren io filterFunc children queue nIgnored tree with
  | case1 =>
      cases h
      simp [subdirectories]
  | case2 => cases h
  | case3 child node children queue nIgnored tree hignored ih =>
      rw [ih h]
      simp [subdirectories, hignored]
  | case4 child node children queue nIgnored tree hignored hdirectory ih =>
      rw [fileType_eq_directory] at hdirectory
      subst hdirectory
      rw [ih h]
      simp [subdirectories, hignored]
  | case5 => cases h
  | case6 child node children queue nIgnored tree hignored hdirectory tree₁ hrm ih =>
      rw [fileType_eq_directory] at hdirectory
      rw [ih h]
      simp [subdirectories, hdirectory]

/-- The number of the ignored children stays what it was if there are none. -/
theorem nIgnored_of_rmChildren {children : List (Except GError (Place × FileNode))}
    {queue queue' : List Place} {nIgnored nIgnored' : ℕ}
    (h : (rmChildren io filterFunc children queue nIgnored tree).1 = .ok (queue', nIgnored'))
    (hall : ∀ child node, .ok (child, node) ∈ children → isIgnored filterFunc child node = false) :
    nIgnored' = nIgnored := by
  fun_induction rmChildren io filterFunc children queue nIgnored tree with
  | case1 =>
      cases h
      rfl
  | case2 => cases h
  | case3 child node children queue nIgnored tree hignored ih =>
      rw [hall child node List.mem_cons_self] at hignored
      cases hignored
  | case4 child node children queue nIgnored tree hignored hdirectory ih =>
      exact ih h fun c n hmem => hall c n (List.mem_cons_of_mem _ hmem)
  | case5 => cases h
  | case6 child node children queue nIgnored tree hignored hdirectory tree₁ hrm ih =>
      exact ih h fun c n hmem => hall c n (List.mem_cons_of_mem _ hmem)

/-- If files can be deleted, those among the children that are not ignored are gone after it. -/
theorem node_of_rmChildren {children : List (Except GError (Place × FileNode))}
    {queue queue' : List Place} {nIgnored nIgnored' : ℕ}
    (h : (rmChildren io filterFunc children queue nIgnored tree).1 = .ok (queue', nIgnored'))
    (hdelete : ∀ file, io.delete file = none) (hplace : DeletedAmong filterFunc children place) :
    (rmChildren io filterFunc children queue nIgnored tree).2.node place = none := by
  obtain ⟨n, hmem, hdeleted⟩ := hplace
  fun_induction rmChildren io filterFunc children queue nIgnored tree with
  | case1 => cases hmem
  | case2 => cases h
  | case3 child node children queue nIgnored tree hignored ih =>
      rcases List.mem_cons.1 hmem with heq | hmem
      · cases heq
        rw [hdeleted.2] at hignored
        cases hignored
      · exact ih h hmem
  | case4 child node children queue nIgnored tree hignored hdirectory ih =>
      rcases List.mem_cons.1 hmem with heq | hmem
      · cases heq
        exact absurd (fileType_eq_directory.1 hdirectory) hdeleted.1
      · exact ih h hmem
  | case5 => cases h
  | case6 child node children queue nIgnored tree hignored hdirectory tree₁ hrm ih =>
      rcases List.mem_cons.1 hmem with heq | hmem
      · cases heq
        -- it goes at once, and what comes after it does not bring it back
        have hnone := node_rmFile tree (hdelete place) (by rw [hrm])
        rw [hrm] at hnone
        exact (onlyRemoves_rmChildren io filterFunc children queue nIgnored tree₁).node_eq_none
          hnone
      · exact ih h hmem

variable (io filterFunc) in
/-- An error in iterating over the children is returned, or one before it. -/
theorem rmChildren_error {children : List (Except GError (Place × FileNode))} {e : GError}
    (h : .error e ∈ children) (queue : List Place) (nIgnored : ℕ) (tree : FileTree) :
    ∃ e', (rmChildren io filterFunc children queue nIgnored tree).1 = .error e' := by
  fun_induction rmChildren io filterFunc children queue nIgnored tree with
  | case1 => exact absurd h List.not_mem_nil
  | case2 e' => exact ⟨e', rfl⟩
  | case3 _ _ _ _ _ _ _ ih => exact ih ((List.mem_cons.1 h).resolve_left nofun)
  | case4 _ _ _ _ _ _ _ _ ih => exact ih ((List.mem_cons.1 h).resolve_left nofun)
  | case5 _ _ _ _ _ _ _ _ e' => exact ⟨e', rfl⟩
  | case6 _ _ _ _ _ _ _ _ _ _ ih => exact ih ((List.mem_cons.1 h).resolve_left nofun)

/-- Only children of the directory are found. -/
theorem mem_of_fileEnumeratorIterate {children : List (Place × FileNode)} {entry : Place × FileNode}
    (h : .ok entry ∈ io.fileEnumeratorIterate dir children) : entry ∈ children := by
  rw [ TreeIO.fileEnumeratorIterate] at h
  split at h
  · simpa using h
  · next n e _ =>
      rcases List.mem_append.1 h with h | h
      · obtain ⟨entry', hmem, heq⟩ := List.mem_map.1 h
        cases heq
        exact List.mem_of_mem_take hmem
      · exact nomatch List.mem_singleton.1 h

/-- If the loop comes to its end, it has been over all children. -/
theorem fileEnumeratorIterate_of_ok {children : List (Place × FileNode)} {queue' : List Place}
    {nIgnored' : ℕ}
    (h : (rmChildren io filterFunc (io.fileEnumeratorIterate dir children) queue 0 tree).1 =
      .ok (queue', nIgnored')) : io.fileEnumeratorIterate dir children = children.map .ok := by
  rw [ TreeIO.fileEnumeratorIterate] at h ⊢
  split at h
  · rfl
  · next n e _ =>
      have hmem : Except.error e ∈ (children.take n).map .ok ++ [.error e] := by simp
      obtain ⟨e', herr⟩ := rmChildren_error io filterFunc hmem queue 0 tree
      rw [herr] at h
      cases h

end Euu
