import EosUpdater.Util.Remove

/-!
# What a recursive removal leaves

The queue finds the directories level by level, and deletes the files in them (`Traversal`); after
that the directories are deleted, so that each comes after those in it (`Sweep`). What is on the way
to a place that is ignored is never empty, and nothing else is left. So what remains is what the
filter protects (`rmRfInternal_removes`).
-/

namespace Euu

open GLib

variable {io : TreeIO} {filterFunc : Option FileFilterFunc} {topdir place dir child file : Place}
variable {tree tree' tree₀ : FileTree} {node : FileNode} {queue visited : List Place}

/-! ### The queue -/

/-- A directory that is found: it is not ignored, nor is any place between the top and it. -/
structure Reached (filterFunc : Option FileFilterFunc) (tree₀ : FileTree) (topdir place : Place) :
    Prop where
  below : topdir <+: place
  directory : tree₀.node place = some .directory
  handled : ∀ above, topdir <+: above → above <+: place → ¬ Ignored filterFunc tree₀ above

/-- A file that is deleted when its directory is visited. -/
def DeletedFile (filterFunc : Option FileFilterFunc) (tree₀ : FileTree) (visited : List Place)
    (place : Place) : Prop :=
  ∃ dir ∈ visited, ∃ name node, place = dir ++ [name] ∧ tree₀.node place = some node ∧
    IsDeleted filterFunc node place

/-- How far the queue has got: the directories that have been visited, and those still in it, in the
order in which they were found. -/
structure Found (filterFunc : Option FileFilterFunc) (topdir : Place) (tree₀ : FileTree)
    (visited queue : List Place) : Prop where
  nodup : (visited ++ queue).Nodup
  reached : ∀ dir ∈ visited ++ queue, Reached filterFunc tree₀ topdir dir
  top : topdir ∈ visited ++ queue
  parent : ∀ dir name, dir ++ [name] ∈ visited ++ queue → dir ++ [name] = topdir ∨ dir ∈ visited
  complete : ∀ dir ∈ visited, ∀ name, Reached filterFunc tree₀ topdir (dir ++ [name]) →
    dir ++ [name] ∈ visited ++ queue
  /-- The directories are found level by level. -/
  sorted : (visited ++ queue).Pairwise fun a b => a.length ≤ b.length
  level : ∀ a ∈ queue, ∀ b ∈ queue, b.length ≤ a.length + 1

/-- At the start only the top directory is found. -/
theorem Found.start (h : Reached filterFunc tree₀ topdir topdir) :
    Found filterFunc topdir tree₀ [] [topdir] where
  nodup := List.nodup_singleton _
  reached := fun dir hdir => by rwa [List.mem_singleton.1 hdir]
  top := List.mem_singleton_self _
  parent := fun _ _ hmem => .inl (List.mem_singleton.1 hmem)
  complete := nofun
  sorted := List.pairwise_singleton _ _
  level := fun a ha b hb => by
    rw [List.mem_singleton.1 ha, List.mem_singleton.1 hb]
    omega

/-- A child of a directory in the queue has not been found before. -/
theorem Found.not_mem_child {name : String} (h : Found filterFunc topdir tree₀ visited queue)
    (hdir : dir ∈ queue) : dir ++ [name] ∉ visited ++ queue := by
  intro hmem
  rcases h.parent dir name hmem with htop | hvisited
  · have hle := (h.reached dir (List.mem_append_right _ hdir)).below.length_le
    rw [← htop, List.length_append, List.length_singleton] at hle
    omega
  · exact List.disjoint_of_nodup_append h.nodup hvisited hdir

/-- A directory of the queue is visited, and the directories in it come last in the queue. -/
theorem Found.visit {subdirs : List Place}
    (h : Found filterFunc topdir tree₀ visited (dir :: queue)) (hnodup : subdirs.Nodup)
    (hsub : ∀ place, place ∈ subdirs ↔
      (∃ name, place = dir ++ [name]) ∧ Reached filterFunc tree₀ topdir place) :
    Found filterFunc topdir tree₀ (visited ++ [dir]) (queue ++ subdirs) := by
  have hdir : dir ∈ dir :: queue := List.mem_cons_self
  -- what has been found before, and after it what is new, one level below the directory
  have hlist : visited ++ [dir] ++ (queue ++ subdirs) = (visited ++ dir :: queue) ++ subdirs := by
    simp
  have hlength : ∀ place ∈ subdirs, place.length = dir.length + 1 := by
    intro place hplace
    obtain ⟨⟨name, rfl⟩, -⟩ := (hsub place).1 hplace
    rw [List.length_append, List.length_singleton]
  have hsorted := List.pairwise_append.1 h.sorted
  have hbefore : ∀ d ∈ visited ++ dir :: queue, d.length ≤ dir.length + 1 := by
    intro d hd
    rcases List.mem_append.1 hd with hd | hd
    · exact (hsorted.2.2 d hd dir hdir).trans (Nat.le_succ _)
    · exact h.level dir hdir d hd
  constructor
  case nodup =>
    rw [hlist]
    refine h.nodup.append hnodup fun place hfound hplace => ?_
    obtain ⟨⟨name, rfl⟩, -⟩ := (hsub place).1 hplace
    exact h.not_mem_child hdir hfound
  case reached =>
    rw [hlist]
    intro d hd
    rcases List.mem_append.1 hd with hd | hd
    · exact h.reached d hd
    · exact ((hsub d).1 hd).2
  case top =>
    rw [hlist]
    exact List.mem_append_left _ h.top
  case parent =>
    rw [hlist]
    intro d name hd
    rcases List.mem_append.1 hd with hd | hd
    · exact (h.parent d name hd).imp_right (List.mem_append_left _)
    · obtain ⟨⟨name', heq⟩, -⟩ := (hsub _).1 hd
      obtain ⟨rfl, -⟩ := List.append_inj' heq rfl
      exact .inr (by simp)
  case complete =>
    rw [hlist]
    intro d hd name hchild
    rcases List.mem_append.1 hd with hd | hd
    · exact List.mem_append_left _ (h.complete d hd name hchild)
    · rw [List.mem_singleton.1 hd] at hchild ⊢
      exact List.mem_append_right _ ((hsub _).2 ⟨⟨name, rfl⟩, hchild⟩)
  case sorted =>
    rw [hlist]
    refine List.pairwise_append.2 ⟨h.sorted, ?_, fun a ha b hb => ?_⟩
    · exact List.pairwise_of_forall_mem_list fun a ha b hb => by rw [hlength a ha, hlength b hb]
    · rw [hlength b hb]
      exact hbefore a ha
  case level =>
    intro a ha b hb
    have hb : b.length ≤ dir.length + 1 := by
      rcases List.mem_append.1 hb with hb | hb
      · exact hbefore b (List.mem_append_right _ (List.mem_cons_of_mem _ hb))
      · exact (hlength b hb).le
    have ha : dir.length ≤ a.length := by
      rcases List.mem_append.1 ha with ha | ha
      · exact (List.pairwise_cons.1 hsorted.2.1).1 a ha
      · rw [hlength a ha]
        omega
    omega

/-- The directories that have been found are different ones of the tree, so that fuel for all places
is enough. -/
theorem Found.length_le (h : Found filterFunc topdir tree₀ visited queue) :
    (visited ++ queue).length ≤ tree₀.size :=
  FileTree.length_le_size h.nodup fun dir hdir => ⟨_, (h.reached dir hdir).directory⟩

/-! ### The queue and the tree -/

/-- What is left while the queue is worked off, and which directories are to be deleted. -/
structure Traversal (io : TreeIO) (filterFunc : Option FileFilterFunc) (topdir : Place)
    (tree₀ : FileTree) (visited queue dirsToDelete : List Place) (tree : FileTree) : Prop
    extends Found filterFunc topdir tree₀ visited queue where
  removes : OnlyRemoves (DeletedFile filterFunc tree₀ visited) tree₀ tree
  clean : (∀ file, io.delete file = none) → ∀ place, DeletedFile filterFunc tree₀ visited place →
    tree.node place = none
  sublist : dirsToDelete.Sublist visited.reverse
  listed : ∀ dir ∈ visited, (∀ name, ¬ Ignored filterFunc tree₀ (dir ++ [name])) →
    dir ∈ dirsToDelete

variable {dirsToDelete : List Place}

/-- At the start nothing has been deleted. -/
theorem Traversal.start (h : Reached filterFunc tree₀ topdir topdir) :
    Traversal io filterFunc topdir tree₀ [] [topdir] [] tree₀ where
  toFound := .start h
  removes := .refl
  clean := fun _ _ ⟨_, hdir, _⟩ => absurd hdir List.not_mem_nil
  sublist := .slnil
  listed := nofun

/-- A child of a directory that has not been visited is what it was. -/
theorem Traversal.node_child {name : String}
    (h : Traversal io filterFunc topdir tree₀ visited queue dirsToDelete tree)
    (hdir : dir ∈ queue) : tree.node (dir ++ [name]) = tree₀.node (dir ++ [name]) := by
  rcases h.removes (dir ++ [name]) with heq | ⟨-, d, hd, name', _, hplace, -⟩
  · exact heq
  · obtain ⟨rfl, -⟩ := List.append_inj' hplace rfl
    exact absurd hdir (fun hdir => List.disjoint_of_nodup_append h.nodup hd hdir)

/-- Directories that have been found are still there. -/
theorem Traversal.node_dir
    (h : Traversal io filterFunc topdir tree₀ visited queue dirsToDelete tree)
    (hdir : dir ∈ visited ++ queue) : tree.node dir = some .directory := by
  have hdirectory := (h.reached dir hdir).directory
  rcases h.removes dir with heq | ⟨-, d, -, _, node, -, hnode, hdeleted⟩
  · rw [heq, hdirectory]
  · rw [hdirectory] at hnode
    exact absurd (Option.some_inj.1 hnode).symm hdeleted.1

variable (child node) in
/-- The children of a directory that has not been visited. -/
theorem Traversal.mem_children
    (h : Traversal io filterFunc topdir tree₀ visited queue dirsToDelete tree)
    (hdir : dir ∈ queue) :
    (Except.ok (child, node) : Except GError _) ∈ (tree.children dir).map .ok ↔
      (∃ name, child = dir ++ [name]) ∧ tree₀.node child = some node := by
  have hmap : (Except.ok (child, node) : Except GError _) ∈ (tree.children dir).map .ok ↔
      (child, node) ∈ tree.children dir := by simp
  rw [hmap, FileTree.mem_children]
  refine and_congr_right ?_
  rintro ⟨name, rfl⟩
  rw [h.node_child hdir]

/-- A child of a directory that is reached is reached if it is a directory and not ignored. -/
theorem Reached.child_iff {name : String} (h : Reached filterFunc tree₀ topdir dir) :
    Reached filterFunc tree₀ topdir (dir ++ [name]) ↔
      tree₀.node (dir ++ [name]) = some .directory ∧
        isIgnored filterFunc (dir ++ [name]) .directory = false := by
  constructor
  · intro hchild
    refine ⟨hchild.directory, ?_⟩
    by_contra hignored
    rw [Bool.not_eq_false] at hignored
    exact hchild.handled _ hchild.below (List.prefix_refl _) ⟨_, hchild.directory, hignored⟩
  · rintro ⟨hnode, hignored⟩
    refine ⟨h.below.trans (List.prefix_append _ _), hnode, fun above habove habove_le => ?_⟩
    rcases List.prefix_concat_iff.1 habove_le with rfl | habove_le
    · rintro ⟨node, hnode', hignored'⟩
      rw [hnode] at hnode'
      cases hnode'
      rw [hignored] at hignored'
      cases hignored'
    · exact h.handled above habove habove_le

theorem subdirectories_sublist (children : List (Place × FileNode)) :
    (subdirectories filterFunc (children.map .ok)).Sublist (children.map Prod.fst) := by
  induction children with
  | nil => exact .slnil
  | cons entry children ih =>
      rw [List.map_cons, List.map_cons, subdirectories]
      split_ifs
      · exact ih.cons_cons _
      · exact ih.cons _

/-- The directories in a directory that has not been visited, as they come in the queue. -/
theorem Traversal.visit_found
    (h : Traversal io filterFunc topdir tree₀ visited (dir :: queue) dirsToDelete tree) :
    Found filterFunc topdir tree₀ (visited ++ [dir])
      (queue ++ subdirectories filterFunc ((tree.children dir).map .ok)) := by
  have hdir : dir ∈ dir :: queue := List.mem_cons_self
  have hreached := h.reached dir (List.mem_append_right _ hdir)
  have hchildren : ((tree.children dir).map Prod.fst).Nodup :=
    tree.entries.nodup.sublist (List.filter_sublist.map _)
  refine h.toFound.visit (hchildren.sublist (subdirectories_sublist _)) fun place => ?_
  rw [mem_subdirectories, h.mem_children _ _ hdir, and_assoc]
  refine and_congr_right ?_
  rintro ⟨name, rfl⟩
  exact hreached.child_iff.symm

/-- **One directory of the queue is visited.** -/
theorem Traversal.visit {queue' : List Place} {nIgnored : ℕ}
    (h : Traversal io filterFunc topdir tree₀ visited (dir :: queue) dirsToDelete tree)
    (hok :
      rmChildren io filterFunc (io.fileEnumeratorIterate dir (tree.children dir)) queue 0 tree =
        (.ok (queue', nIgnored), tree')) :
    Traversal io filterFunc topdir tree₀ (visited ++ [dir]) queue'
      (if nIgnored = 0 then dir :: dirsToDelete else dirsToDelete) tree' := by
  have hmem := fun child node => h.mem_children child node List.mem_cons_self
  -- it has not ended in an error, so it has been over all children
  rw [fileEnumeratorIterate_of_ok (congrArg Prod.fst hok)] at hok
  have hfst : (rmChildren io filterFunc ((tree.children dir).map .ok) queue 0 tree).1 =
      .ok (queue', nIgnored) := by rw [hok]
  have honly := onlyRemoves_rmChildren io filterFunc ((tree.children dir).map .ok) queue 0 tree
  rw [hok] at honly
  obtain rfl := queue_of_rmChildren hfst
  constructor
  case toFound => exact h.visit_found
  case removes =>
    refine (h.removes.trans honly).mono fun place => Or.rec ?_ ?_
    · rintro ⟨d, hd, hdeleted⟩
      exact ⟨d, List.mem_append_left _ hd, hdeleted⟩
    · rintro ⟨node, hplace, hdeleted⟩
      obtain ⟨⟨name, rfl⟩, hnode⟩ := (hmem place node).1 hplace
      exact ⟨dir, by simp, name, node, rfl, hnode, hdeleted⟩
  case clean =>
    rintro hdelete place ⟨d, hd, name, node, rfl, hnode, hdeleted⟩
    rcases List.mem_append.1 hd with hd | hd
    · exact honly.node_eq_none (h.clean hdelete _ ⟨d, hd, name, node, rfl, hnode, hdeleted⟩)
    · rw [List.mem_singleton.1 hd] at hnode hdeleted ⊢
      have hgone := node_of_rmChildren hfst hdelete
        ⟨node, (hmem _ node).2 ⟨⟨name, rfl⟩, hnode⟩, hdeleted⟩
      rwa [hok] at hgone
  case sublist =>
    rw [List.reverse_concat]
    split_ifs
    · exact h.sublist.cons_cons _
    · exact h.sublist.cons _
  case listed =>
    intro d hd hchildren
    rcases List.mem_append.1 hd with hd | hd
    · split_ifs
      · exact List.mem_cons_of_mem _ (h.listed d hd hchildren)
      · exact h.listed d hd hchildren
    · rw [List.mem_singleton.1 hd] at hchildren ⊢
      -- none of its children is ignored, so it is put on the list
      have hzero : nIgnored = 0 := by
        refine nIgnored_of_rmChildren hfst fun child node hchild => ?_
        obtain ⟨⟨name, rfl⟩, hnode⟩ := (hmem child node).1 hchild
        by_contra hignored
        rw [Bool.not_eq_false] at hignored
        exact hchildren name ⟨node, hnode, hignored⟩
      rw [if_pos hzero]
      exact List.mem_cons_self

/-- The traversal only deletes below the top directory. -/
theorem Traversal.onlyBelow
    (h : Traversal io filterFunc topdir tree₀ visited queue dirsToDelete tree) :
    OnlyRemoves (topdir <+: ·) tree₀ tree := by
  refine h.removes.mono ?_
  rintro place ⟨dir, hdir, name, node, rfl, -⟩
  exact (h.reached dir (List.mem_append_left _ hdir)).below.trans (List.prefix_append _ _)

variable (io) in
/-- **The queue comes to its end**, unless there is an error. -/
theorem rmQueue_spec {fuel : ℕ}
    (h : Traversal io filterFunc topdir tree₀ visited queue dirsToDelete tree)
    (hfuel : tree₀.size < fuel + visited.length) (anyIgnored : Bool) :
    ∃ result tree', rmQueue io filterFunc fuel queue dirsToDelete anyIgnored tree =
        some (result, tree') ∧
      OnlyRemoves (topdir <+: ·) tree₀ tree' ∧
      ∀ dirs any, result = .ok (dirs, any) →
        ∃ visited', Traversal io filterFunc topdir tree₀ visited' [] dirs tree' := by
  induction fuel generalizing visited queue dirsToDelete tree anyIgnored with
  | zero =>
      -- as many directories have been visited as the tree has places
      have hlength := h.length_le
      rw [List.length_append] at hlength
      omega
  | succ fuel ih =>
      -- each visit takes one unit of fuel, and adds one to the directories that have been visited
      rcases queue with _ | ⟨dir, queue⟩
      · refine ⟨_, tree, rfl, h.onlyBelow, ?_⟩
        rintro dirs any ⟨⟩
        exact ⟨visited, h⟩
      have hdir : dir ∈ visited ++ dir :: queue := by simp
      have hbelow := (h.reached dir hdir).below
      rw [rmQueue, FileTree.enumerate_of_directory (h.node_dir hdir)]
      cases io.enumerateChildren dir with
      | some e => exact ⟨_, tree, rfl, h.onlyBelow, nofun⟩
      | none =>
          dsimp only
          cases hchildren : rmChildren io filterFunc
              (io.fileEnumeratorIterate dir (tree.children dir)) queue 0 tree with
          | mk result tree₁ =>
              rcases result with e | ⟨queue', nIgnored⟩
              · refine ⟨_, tree₁, rfl, ?_, nofun⟩
                -- what has been deleted before the error is below the directory
                have honly := onlyRemoves_rmChildren io filterFunc
                  (io.fileEnumeratorIterate dir (tree.children dir)) queue 0 tree
                rw [hchildren] at honly
                refine (h.onlyBelow.trans honly).mono fun place => Or.rec id ?_
                rintro ⟨node, hmem, -⟩
                obtain ⟨⟨name, rfl⟩, -⟩ :=
                  FileTree.mem_children.1 (mem_of_fileEnumeratorIterate hmem)
                exact hbelow.trans (List.prefix_append _ _)
              · have hvisit := h.visit hchildren
                have hfuel' : tree₀.size < fuel + (visited ++ [dir]).length := by
                  rw [List.length_append, List.length_singleton]
                  omega
                dsimp only
                split_ifs with hzero
                · rw [if_pos hzero] at hvisit
                  exact ih hvisit hfuel' anyIgnored
                · rw [if_neg hzero] at hvisit
                  exact ih hvisit hfuel' true

/-! ### What is kept -/

/-- A place that is ignored is below one that is ignored and reached. -/
theorem exists_topmostIgnored (hbelow : topdir <+: place)
    (hignored : Ignored filterFunc tree₀ place) :
    ∃ ignored, TopmostIgnored filterFunc tree₀ topdir ignored ∧ ignored <+: place := by
  induction hn : place.length using Nat.strong_induction_on generalizing place with
  | _ n ih =>
      -- it is the topmost one itself, or there is one above it, with a shorter path
      by_cases htopmost : ∀ above, topdir <+: above → above <+: place → above ≠ place →
          ¬ Ignored filterFunc tree₀ above
      · exact ⟨place, ⟨hbelow, hignored, htopmost⟩, List.prefix_refl _⟩
      · push Not at htopmost
        obtain ⟨above, habove, habove_le, hne, hignored'⟩ := htopmost
        have hlt : above.length < n := by
          rw [← hn]
          exact lt_of_le_of_ne habove_le.length_le fun heq => hne (habove_le.eq_of_length heq)
        obtain ⟨ignored, htop, hle⟩ := ih above.length hlt habove hignored' rfl
        exact ⟨ignored, htop, hle.trans habove_le⟩

/-- On the way to a place that is not kept, nothing is ignored. -/
theorem not_ignored_of_not_kept (hkept : ¬ Kept filterFunc tree₀ topdir place) {above : Place}
    (habove : topdir <+: above) (habove_le : above <+: place) :
    ¬ Ignored filterFunc tree₀ above := by
  intro hignored
  obtain ⟨ignored, htop, hle⟩ := exists_topmostIgnored habove hignored
  exact hkept ⟨ignored, htop, .inl (hle.trans habove_le)⟩

/-- What is kept of a directory that is reached is on the way to what is ignored. -/
theorem Reached.kept_iff (h : Reached filterFunc tree₀ topdir place) :
    Kept filterFunc tree₀ topdir place ↔
      ∃ ignored, TopmostIgnored filterFunc tree₀ topdir ignored ∧ place <+: ignored ∧
        place ≠ ignored := by
  constructor
  · rintro ⟨ignored, htop, habove_le | habove_le⟩
    · exact absurd htop.ignored (h.handled ignored htop.below habove_le)
    · refine ⟨ignored, htop, habove_le, ?_⟩
      rintro rfl
      exact h.handled place htop.below (List.prefix_refl _) htop.ignored
  · rintro ⟨ignored, htop, habove_le, -⟩
    exact ⟨ignored, htop, .inr habove_le⟩

/-- A directory that is kept has a child that is kept. -/
theorem Reached.exists_kept_child (h : Reached filterFunc tree₀ topdir dir)
    (hkept : Kept filterFunc tree₀ topdir dir) :
    ∃ name node, tree₀.node (dir ++ [name]) = some node ∧
      Kept filterFunc tree₀ topdir (dir ++ [name]) := by
  obtain ⟨ignored, htop, ⟨below, rfl⟩, hne⟩ := h.kept_iff.1 hkept
  rcases below with _ | ⟨name, below⟩
  · simp at hne
  have habove_le : dir ++ [name] <+: dir ++ name :: below := ⟨below, by simp⟩
  obtain ⟨node, hnode, -⟩ := htop.ignored
  refine ⟨name, ?_⟩
  have hkeptChild : Kept filterFunc tree₀ topdir (dir ++ [name]) := ⟨_, htop, .inr habove_le⟩
  by_cases heq : dir ++ [name] = dir ++ name :: below
  · exact ⟨node, heq ▸ hnode, hkeptChild⟩
  · exact ⟨_, FileTree.node_of_prefix hnode habove_le heq, hkeptChild⟩

/-- A directory with a child that is kept is kept. -/
theorem kept_of_child {name : String} (hkept : Kept filterFunc tree₀ topdir (dir ++ [name])) :
    Kept filterFunc tree₀ topdir dir := by
  obtain ⟨ignored, htop, habove_le | habove_le⟩ := hkept
  · rcases List.prefix_concat_iff.1 habove_le with rfl | habove_le
    · exact ⟨_, htop, .inr (List.prefix_append _ _)⟩
    · exact ⟨ignored, htop, .inl habove_le⟩
  · exact ⟨ignored, htop, .inr ((List.prefix_append _ _).trans habove_le)⟩

/-- At the end of the queue, all directories that can be reached have been visited. -/
theorem Traversal.mem_visited
    (h : Traversal io filterFunc topdir tree₀ visited [] dirsToDelete tree)
    (hreached : Reached filterFunc tree₀ topdir dir) : dir ∈ visited := by
  obtain ⟨below, rfl⟩ := hreached.below
  induction below using List.reverseRecOn with
  | nil => simpa using h.top
  | append_singleton below name ih =>
      rw [← List.append_assoc] at hreached ⊢
      have hparent : Reached filterFunc tree₀ topdir (topdir ++ below) := by
        refine ⟨List.prefix_append _ _, ?_, fun above habove habove_le =>
          hreached.handled above habove (habove_le.trans (List.prefix_append _ _))⟩
        exact FileTree.node_of_prefix hreached.directory (List.prefix_append _ _) (by simp)
      simpa using h.complete _ (ih hparent) name hreached

/-- What is kept has not been deleted from its directory. -/
theorem Traversal.node_of_kept
    (h : Traversal io filterFunc topdir tree₀ visited queue dirsToDelete tree)
    (hkept : Kept filterFunc tree₀ topdir place) : tree.node place = tree₀.node place := by
  rcases h.removes place with heq | ⟨-, dir, hdir, name, node, rfl, hnode, hother, hhandled⟩
  · exact heq
  have hreached := h.reached dir (List.mem_append_left _ hdir)
  obtain ⟨ignored, htop, habove_le | habove_le⟩ := hkept
  · rcases List.prefix_concat_iff.1 habove_le with rfl | habove_le
    · obtain ⟨node', hnode', hignored⟩ := htop.ignored
      rw [hnode] at hnode'
      cases hnode'
      rw [hhandled] at hignored
      cases hignored
    · exact absurd htop.ignored (hreached.handled ignored htop.below habove_le)
  · obtain ⟨node', hnode', hignored⟩ := htop.ignored
    by_cases heq : dir ++ [name] = ignored
    · subst heq
      rw [hnode] at hnode'
      cases hnode'
      rw [hhandled] at hignored
      cases hignored
    · -- a file that is no directory has nothing below it
      have hdirectory := FileTree.node_of_prefix hnode' habove_le heq
      rw [hnode] at hdirectory
      exact absurd (Option.some_inj.1 hdirectory) hother

variable (place) in
/-- At the end of the queue, what is not kept is gone, or a directory that is to be deleted. -/
theorem Traversal.node_of_not_kept
    (h : Traversal io filterFunc topdir tree₀ visited [] dirsToDelete tree)
    (hdelete : ∀ file, io.delete file = none) (hbelow : topdir <+: place)
    (hkept : ¬ Kept filterFunc tree₀ topdir place) :
    tree.node place = none ∨ place ∈ dirsToDelete := by
  have hhandled : ∀ above, topdir <+: above → above <+: place → ¬ Ignored filterFunc tree₀ above :=
    fun above => not_ignored_of_not_kept hkept
  cases hnode : tree₀.node place with
  | none => exact .inl (h.removes.node_eq_none hnode)
  | some node =>
      by_cases hdirectory : node = .directory
      · subst hdirectory
        -- a directory: were there a child that is ignored, it would be kept
        have hvisited := h.mem_visited ⟨hbelow, hnode, hhandled⟩
        refine .inr (h.listed place hvisited fun name hignored => ?_)
        have hchild : topdir <+: place ++ [name] := hbelow.trans (List.prefix_append _ _)
        obtain ⟨ignored, htop, habove_le⟩ := exists_topmostIgnored hchild hignored
        exact hkept (kept_of_child ⟨ignored, htop, .inl habove_le⟩)
      · refine .inl (h.clean hdelete place ?_)
        -- its directory has been visited
        obtain ⟨below, rfl⟩ := hbelow
        rcases List.eq_nil_or_concat below with rfl | ⟨above, name, rfl⟩
        · have htop := (h.reached topdir h.top).directory
          rw [List.append_nil] at hnode
          rw [hnode] at htop
          exact absurd (Option.some_inj.1 htop) hdirectory
        · rw [List.concat_eq_append, ← List.append_assoc] at hnode hhandled ⊢
          have hreached : Reached filterFunc tree₀ topdir (topdir ++ above) :=
            ⟨List.prefix_append _ _, tree₀.directory_of_child _ name node hnode,
              fun d hd habove_le => hhandled d hd (habove_le.trans (List.prefix_append _ _))⟩
          refine ⟨_, h.mem_visited hreached, name, node, rfl, hnode, hdirectory, ?_⟩
          by_contra hignored
          rw [Bool.not_eq_false] at hignored
          refine hhandled _ ?_ (List.prefix_refl _) ⟨node, hnode, hignored⟩
          rw [List.append_assoc]
          exact List.prefix_append _ _

/-! ### The directories -/

/-- What is left while the directories are deleted, those with longer paths first. -/
structure Sweep (filterFunc : Option FileFilterFunc) (topdir : Place) (tree₀ : FileTree)
    (dirsToDelete : List Place) (tree : FileTree) : Prop where
  kept : ∀ place, topdir <+: place → Kept filterFunc tree₀ topdir place →
    tree.node place = tree₀.node place
  left : ∀ place, topdir <+: place → ¬ Kept filterFunc tree₀ topdir place →
    tree.node place = none ∨ place ∈ dirsToDelete
  reached : ∀ dir ∈ dirsToDelete, Reached filterFunc tree₀ topdir dir
  sorted : dirsToDelete.Pairwise fun a b => b.length ≤ a.length

/-- A directory is empty when its turn comes, unless it is kept. -/
theorem Sweep.children_eq_nil_iff
    (h : Sweep filterFunc topdir tree₀ (dir :: dirsToDelete) tree) :
    tree.children dir = [] ↔ ¬ Kept filterFunc tree₀ topdir dir := by
  have hreached := h.reached dir List.mem_cons_self
  have hbelow : ∀ name, topdir <+: dir ++ [name] :=
    fun name => hreached.below.trans (List.prefix_append _ _)
  constructor
  -- what is kept in it has not been touched
  · intro hempty hkept
    obtain ⟨name, node, hnode, hchild⟩ := hreached.exists_kept_child hkept
    rw [← h.kept _ (hbelow name) hchild] at hnode
    have hmem := FileTree.mem_children.2 ⟨⟨name, rfl⟩, hnode⟩
    rw [hempty] at hmem
    exact List.not_mem_nil hmem
  · intro hkept
    by_contra hchildren
    obtain ⟨⟨child, node⟩, hmem⟩ := List.exists_mem_of_ne_nil _ hchildren
    obtain ⟨⟨name, rfl⟩, hnode⟩ := FileTree.mem_children.1 hmem
    rcases h.left _ (hbelow name) fun hchild => hkept (kept_of_child hchild) with hnone | hlisted
    · rw [hnode] at hnone
      cases hnone
    · -- a directory in it has a longer path, and has been deleted before
      have hle : (dir ++ [name]).length ≤ dir.length := by
        rcases List.mem_cons.1 hlisted with heq | hlater
        · rw [heq]
        · exact (List.pairwise_cons.1 h.sorted).1 _ hlater
      rw [List.length_append, List.length_singleton] at hle
      omega

/-- One directory is deleted, or stays because it is kept. -/
theorem Sweep.step (hdelete : ∀ file, io.delete file = none)
    (h : Sweep filterFunc topdir tree₀ (dir :: dirsToDelete) tree) :
    Sweep filterFunc topdir tree₀ dirsToDelete (rmFileIgnoreNoent io dir true tree).2 := by
  obtain ⟨-, hempty, hnotEmpty⟩ := rmFile_directory tree (hdelete dir)
  have honly := onlyRemoves_rmFile io dir tree true
  have hsorted := (List.pairwise_cons.1 h.sorted).2
  have hreached : ∀ d ∈ dirsToDelete, Reached filterFunc tree₀ topdir d :=
    fun d hd => h.reached d (List.mem_cons_of_mem _ hd)
  -- either it is not empty, and the error that says so is ignored, or it goes
  by_cases hkept : Kept filterFunc tree₀ topdir dir
  · rw [hnotEmpty fun hnil => h.children_eq_nil_iff.1 hnil hkept]
    refine ⟨h.kept, fun place hbelow hplace => ?_, hreached, hsorted⟩
    refine (h.left place hbelow hplace).imp_right fun hmem => ?_
    refine (List.mem_cons.1 hmem).resolve_left ?_
    rintro rfl
    exact hplace hkept
  · have hgone := hempty (h.children_eq_nil_iff.2 hkept)
    refine ⟨fun place hbelow hplace => ?_, fun place hbelow hplace => ?_, hreached, hsorted⟩
    · rcases honly place with heq | ⟨-, rfl⟩
      · rw [heq, h.kept place hbelow hplace]
      · exact absurd hplace hkept
    · rcases h.left place hbelow hplace with hnone | hmem
      · exact .inl (honly.node_eq_none hnone)
      · rcases List.mem_cons.1 hmem with rfl | hmem
        · exact .inl hgone
        · exact .inr hmem

/-- **In the end what is not kept is gone.** -/
theorem rmDirs_spec (hdelete : ∀ file, io.delete file = none)
    (h : Sweep filterFunc topdir tree₀ dirsToDelete tree) :
    RemovesUnprotected filterFunc topdir tree₀ (rmDirs io dirsToDelete tree).2 := by
  induction dirsToDelete generalizing tree with
  | nil =>
      exact ⟨h.kept, fun place hbelow hplace => (h.left place hbelow hplace).resolve_right nofun⟩
  | cons dir dirsToDelete ih =>
      have hok := (rmFile_directory tree (hdelete dir)).1
      have hstep := h.step hdelete
      rw [rmDirs]
      cases hrm : rmFileIgnoreNoent io dir true tree with
      | mk result tree₁ =>
          rw [hrm] at hok hstep
          cases hok
          exact ih hstep

/-- Removing directories removes no others. -/
theorem onlyRemoves_rmDirs (dirsToDelete : List Place) (tree : FileTree) :
    OnlyRemoves (· ∈ dirsToDelete) tree (rmDirs io dirsToDelete tree).2 := by
  induction dirsToDelete generalizing tree with
  | nil => exact .refl
  | cons dir dirsToDelete ih =>
      have hfirst := onlyRemoves_rmFile io dir tree true
      have hhead : ∀ place, place = dir → place ∈ dir :: dirsToDelete :=
        fun place heq => heq ▸ List.mem_cons_self
      rw [rmDirs]
      cases hrm : rmFileIgnoreNoent io dir true tree with
      | mk result tree₁ =>
          rw [hrm] at hfirst
          rcases result with e | _
          · exact hfirst.mono hhead
          · exact (hfirst.trans (ih tree₁)).mono fun place =>
              Or.rec (hhead place) (List.mem_cons_of_mem _)

/-- What the queue leaves to be swept. The top may come twice. -/
theorem Traversal.sweep
    (h : Traversal io filterFunc topdir tree₀ visited [] dirsToDelete tree)
    (hdelete : ∀ file, io.delete file = none) (anyIgnored : Bool) :
    Sweep filterFunc topdir tree₀
      (if anyIgnored then dirsToDelete else dirsToDelete ++ [topdir]) tree := by
  have hreached : ∀ dir ∈ dirsToDelete, Reached filterFunc tree₀ topdir dir := fun dir hdir =>
    h.reached dir (List.mem_append_left _ (List.mem_reverse.1 (h.sublist.subset hdir)))
  have hsorted : dirsToDelete.Pairwise fun a b => b.length ≤ a.length := by
    have hvisited := (List.pairwise_append.1 h.sorted).1
    exact (List.pairwise_reverse.2 hvisited).sublist h.sublist
  have hleft := fun place => h.node_of_not_kept place hdelete
  -- the paths get longer from visit to visit, and the list is in the opposite order
  split_ifs
  · exact ⟨fun place _ => h.node_of_kept, hleft, hreached, hsorted⟩
  · refine ⟨fun place _ => h.node_of_kept, fun place hbelow hplace => ?_, fun dir hdir => ?_, ?_⟩
    · exact (hleft place hbelow hplace).imp_right (List.mem_append_left _)
    · rcases List.mem_append.1 hdir with hdir | hdir
      · exact hreached dir hdir
      · rw [List.mem_singleton.1 hdir]
        exact h.reached topdir h.top
    · refine List.pairwise_append.2 ⟨hsorted, List.pairwise_singleton _ _, fun a ha b hb => ?_⟩
      rw [List.mem_singleton.1 hb]
      exact (hreached a ha).below.length_le

/-! ### The result -/

/-- Below what is no directory, there is nothing. -/
theorem node_eq_none_of_below (hnode : tree.node topdir ≠ some .directory)
    (hbelow : topdir <+: place) (hne : topdir ≠ place) : tree.node place = none := by
  by_contra hsome
  obtain ⟨found, hfound⟩ := Option.ne_none_iff_exists'.1 hsome
  exact hnode (FileTree.node_of_prefix hfound hbelow hne)

/-- If the top is no directory, nothing below it is kept. -/
theorem not_kept_of_file (hnode : tree.node topdir = some node) (hfile : node ≠ .directory)
    (hhandled : isIgnored filterFunc topdir node = false) :
    ¬ Kept filterFunc tree topdir place := by
  rintro ⟨ignored, ⟨hbelow, ⟨found, hfound, hignored⟩, -⟩, -⟩
  by_cases heq : topdir = ignored
  · subst heq
    rw [hnode] at hfound
    cases hfound
    rw [hhandled] at hignored
    cases hignored
  · have hdirectory := FileTree.node_of_prefix hfound hbelow heq
    rw [hnode] at hdirectory
    exact hfile (Option.some_inj.1 hdirectory)

/-- Without a file at the top, there is nothing to be removed. -/
theorem removesUnprotected_of_missing (hnode : tree.node topdir = none) :
    RemovesUnprotected filterFunc topdir tree tree := by
  refine ⟨fun _ _ _ => rfl, fun place hbelow _ => ?_⟩
  rcases eq_or_ne topdir place with rfl | hne
  · exact hnode
  · exact node_eq_none_of_below (by simp [hnode]) hbelow hne

/-- If the top is ignored, all is kept. -/
theorem removesUnprotected_of_ignored (hnode : tree.node topdir = some node)
    (hignored : isIgnored filterFunc topdir node = true) :
    RemovesUnprotected filterFunc topdir tree tree := by
  refine ⟨fun _ _ _ => rfl, fun place hbelow hplace => ?_⟩
  have htop : TopmostIgnored filterFunc tree topdir topdir :=
    ⟨List.prefix_refl _, ⟨node, hnode, hignored⟩, fun above habove habove_le hne =>
      absurd (habove_le.eq_of_length_le habove.length_le) hne⟩
  exact absurd ⟨topdir, htop, .inl hbelow⟩ hplace

/-- If the top is a file or a link, it goes, and there is nothing below it. -/
theorem removesUnprotected_of_file (hnode : tree.node topdir = some node)
    (hhandled : isIgnored filterFunc topdir node = false) (hfile : node ≠ .directory)
    (hdelete : io.delete topdir = none)
    (hok : (rmFileIgnoreNoent io topdir false tree).1 = .ok ()) :
    RemovesUnprotected filterFunc topdir tree (rmFileIgnoreNoent io topdir false tree).2 := by
  refine ⟨fun place _ hkept => ?_, fun place hbelow _ => ?_⟩
  · exact absurd hkept (not_kept_of_file hnode hfile hhandled)
  · rcases eq_or_ne topdir place with rfl | hne
    · exact node_rmFile _ hdelete hok
    · refine (onlyRemoves_rmFile io topdir tree false).node_eq_none
        (node_eq_none_of_below ?_ hbelow hne)
      rw [hnode]
      exact fun heq => hfile (Option.some_inj.1 heq)

/-- A directory at the top that is not ignored is the first one to be visited. -/
theorem reached_top (hnode : tree.node topdir = some .directory)
    (hhandled : isIgnored filterFunc topdir .directory = false) :
    Reached filterFunc tree topdir topdir := by
  refine ⟨List.prefix_refl _, hnode, fun above habove habove_le => ?_⟩
  rw [habove_le.eq_of_length_le habove.length_le]
  rintro ⟨found, hfound, hignored⟩
  rw [hnode] at hfound
  cases hfound
  rw [hhandled] at hignored
  cases hignored

/-- All that is swept is below the top, whether this comes twice or not. -/
theorem Traversal.onlyBelow_rmDirs
    (h : Traversal io filterFunc topdir tree₀ visited [] dirsToDelete tree) (anyIgnored : Bool) :
    OnlyRemoves (topdir <+: ·) tree
      (rmDirs io (if anyIgnored then dirsToDelete else dirsToDelete ++ [topdir]) tree).2 := by
  refine (onlyRemoves_rmDirs _ tree).mono fun place hmem => ?_
  have hdirs : place ∈ dirsToDelete ++ [topdir] := by
    split_ifs at hmem
    · exact List.mem_append_left _ hmem
    · exact hmem
  rcases List.mem_append.1 hdirs with hmem | hmem
  · have hreverse := List.mem_reverse.1 (h.sublist.subset hmem)
    exact (h.reached place (List.mem_append_left _ hreverse)).below
  · rw [List.mem_singleton.1 hmem]

/-- What removing comes to: nothing but what is at the top or below it is touched, and if deleting
files and empty directories works and there is no error, what remains is what the filter
protects. -/
structure Removes (io : TreeIO) (filterFunc : Option FileFilterFunc) (topdir : Place)
    (tree : FileTree) (result : Except GError Unit) (tree' : FileTree) : Prop where
  onlyBelow : OnlyRemoves (topdir <+: ·) tree tree'
  unprotected : (∀ file, io.delete file = none) → result = .ok () →
    RemovesUnprotected filterFunc topdir tree tree'

/-- The loops come to their end. -/
theorem exists_rmRfInternal (io : TreeIO) (filterFunc : Option FileFilterFunc) (topdir : Place)
    (tree : FileTree) (fuel : ℕ) (hfuel : tree.size < fuel) :
    ∃ result tree', rmRfInternal io filterFunc fuel topdir tree = some (result, tree') ∧
      Removes io filterFunc topdir tree result tree' := by
  rw [rmRfInternal]
  cases io.queryInfo topdir with
  | some e => exact ⟨_, tree, rfl, .refl, nofun⟩
  | none =>
  cases hnode : tree.node topdir with
  | none => exact ⟨_, tree, rfl, .refl, fun _ _ => removesUnprotected_of_missing hnode⟩
  | some node =>
  dsimp only
  split_ifs with hignored hfile
  · exact ⟨_, tree, rfl, .refl, fun _ _ => removesUnprotected_of_ignored hnode hignored⟩
  · rw [ne_eq, fileType_eq_directory] at hfile
    rw [Bool.not_eq_true] at hignored
    have honly := onlyRemoves_rmFile io topdir tree false
    exact ⟨_, _, rfl, honly.mono fun place heq => heq ▸ List.prefix_refl _,
      fun hdelete => removesUnprotected_of_file hnode hignored hfile (hdelete topdir)⟩
  · rw [ne_eq, not_not, fileType_eq_directory] at hfile
    subst hfile
    rw [Bool.not_eq_true] at hignored
    obtain ⟨result, tree₁, hqueue, honly, hok⟩ :=
      rmQueue_spec io (.start (reached_top hnode hignored)) (by simpa using hfuel) false
    rw [hqueue]
    rcases result with e | ⟨dirsToDelete, anyIgnored⟩
    · exact ⟨_, tree₁, rfl, honly, nofun⟩
    · obtain ⟨visited, hvisited⟩ := hok dirsToDelete anyIgnored rfl
      -- what the queue has removed and what is swept is all below the top
      have hbelow := (honly.trans (hvisited.onlyBelow_rmDirs anyIgnored)).mono fun _ => Or.rec id id
      exact ⟨_, _, rfl, hbelow, fun hdelete _ =>
        rmDirs_spec hdelete (hvisited.sweep hdelete anyIgnored)⟩

/-- **What is removed.** The loops come to their end. Nothing but what is at the top or below it is
touched. And if deleting files and empty directories works and `rm_rf_internal` returns `TRUE`, what
remains is what the filter protects. -/
theorem rmRfInternal_removes (io : TreeIO) (filterFunc : Option FileFilterFunc) (topdir : Place)
    (tree : FileTree) (fuel : ℕ) (hfuel : tree.size < fuel) :
    ∃ result tree', rmRfInternal io filterFunc fuel topdir tree = some (result, tree') ∧
      OnlyRemoves (topdir <+: ·) tree tree' ∧
      ((∀ file, io.delete file = none) → result = .ok () →
        RemovesUnprotected filterFunc topdir tree tree') := by
  obtain ⟨result, tree', hresult, hremoves⟩ :=
    exists_rmRfInternal io filterFunc topdir tree fuel hfuel
  exact ⟨result, tree', hresult, hremoves.onlyBelow, hremoves.unprotected⟩

/-- The same for `eos_updater_remove_recursive`, which only adds to the error. -/
theorem exists_removeRecursive (io : TreeIO) (filterFunc : Option FileFilterFunc) (topdir : Place)
    (tree : FileTree) (fuel : ℕ) (hfuel : tree.size < fuel) :
    ∃ result tree', removeRecursive io filterFunc fuel topdir tree = some (result, tree') ∧
      Removes io filterFunc topdir tree result tree' := by
  obtain ⟨result, tree', hresult, honly, hok⟩ :=
    exists_rmRfInternal io filterFunc topdir tree fuel hfuel
  refine ⟨_, tree', by rw [removeRecursive, hresult]; rfl, honly, fun hdelete htrue => ?_⟩
  rcases result with e | _
  · cases htrue
  · exact hok hdelete rfl

/-- A directory with a file, a link out of it and a directory with a file in it. -/
def sampleTree : FileTree :=
  .ofEntries
    [([], .directory), (["kept"], .directory), (["kept", "x"], .regular), (["d"], .directory),
      (["d", "a"], .regular), (["d", "link"], .symbolicLink ["kept"]), (["d", "sub"], .directory),
      (["d", "sub", "b"], .regular), (["d", "sub", "c"], .regular)]
    (by decide) (by decide)

/-- No call of GIO fails for other reasons than what is in the tree. -/
def TreeIO.reliable : TreeIO := ⟨fun _ => none, fun _ => none, fun _ => none, fun _ => none⟩

/-- A filter that protects one file. -/
def sampleFilter : FileFilterFunc :=
  fun file _ => if file = ["d", "sub", "b"] then .ignore else .handle

/-- The file that is protected and the directories on the way to it remain, and what the link leads
to does. -/
theorem rmRfInternal_sampleTree :
    ∃ tree', rmRfInternal .reliable (some sampleFilter) 10 ["d"] sampleTree = some (.ok (), tree') ∧
      RemovesUnprotected (some sampleFilter) ["d"] sampleTree tree' ∧
      tree'.entries.getKeys =
        [[], ["kept"], ["kept", "x"], ["d"], ["d", "sub"], ["d", "sub", "b"]] := by
  obtain ⟨result, tree', hresult, -, hremoves⟩ :=
    rmRfInternal_removes .reliable (some sampleFilter) ["d"] sampleTree 10 (by decide)
  have hkeys : (rmRfInternal .reliable (some sampleFilter) 10 ["d"] sampleTree).map
      (fun r => (r.1, r.2.entries.getKeys)) = some (.ok (),
        [[], ["kept"], ["kept", "x"], ["d"], ["d", "sub"], ["d", "sub", "b"]]) := by
    decide +kernel
  rw [hresult, Option.map_some, Option.some_inj, Prod.mk.injEq] at hkeys
  obtain ⟨rfl, hkeys⟩ := hkeys
  exact ⟨tree', hresult, hremoves (fun _ => rfl) rfl, hkeys⟩

end Euu
