import EosUpdater.GLib.Overwrite
import EosUpdater.Flatpak.Serials

/-!
# Directories and their priorities

Files of the same name in several directories compete for their place in the table, and the one of
the directory with the least priority has it in the end: a file gives way to what is in the table
from a directory of a lower priority, and is not even read then (`lookup_appendFiles`).

A table read from a list of directories has for each name what the first directory with such a file
has in it (`lookup_fromPaths`), and only such files can have it fail (`fromPaths_error`). The order
in which directories of different priorities are loaded, and in which their files are found, makes
no difference (`lookup_appendCalls_reorders`).

All of this is off where a file has entries that are skipped: the warning about them is put together
from memory that was never written, and `fromPaths_eq_undefined_iff` says exactly when this happens.
-/

namespace Euu

variable (env : ParserEnvironment)

/-- The file is one that is looked at. -/
def isJsonFile (filename : String) : Bool := ".json".toList.isSuffixOf filename.toList

/-- The names that an enumeration gives. -/
def FileEnumerator.names (files : FileEnumerator) : List String :=
  files.filterMap fun
    | .ok (filename, _) => some filename
    | .error _ => none

/-- What is in the file of a name, if it is in the directory. -/
def FileEnumerator.root? : FileEnumerator → String → Option (Except GError (Option JsonNode))
  | [], _ => none
  | .error _ :: files, name => FileEnumerator.root? files name
  | .ok (filename, root) :: files, name =>
      if filename = name then some root else FileEnumerator.root? files name

/-- The actions of a file; there are none in a file that cannot be read. -/
def parsedActions : Except ReadFailure ReadActions → List FlatpakRemoteRefAction
  | .ok read => read.actions
  | .error _ => []

/-- What the file of a name would put into the table. -/
def fileOffer (directory : String) (priority : ℤ) (name : String)
    (root : Except GError (Option JsonNode)) : Option FlatpakRemoteRefActionsFile :=
  if isJsonFile name then
    some ⟨parsedActions (readActionsFile env ⟨directory, name⟩ root), priority⟩
  else none

/-- What a directory would put into the table under a name. -/
def offer (directory : String) (files : FileEnumerator) (priority : ℤ) (name : String) :
    Option FlatpakRemoteRefActionsFile :=
  (files.root? name).bind (fileOffer env directory priority name)

/-- What is under a name after a file has been offered. -/
abbrev preferFile := Overwrite.prefer FlatpakRemoteRefActionsFile.priority

variable {env} {directory name filename : String} {files files' : FileEnumerator} {priority : ℤ}
variable {root : Except GError (Option JsonNode)} {failure : ReadFailure}
variable {t t' : GHashTable String FlatpakRemoteRefActionsFile}

/-! ### One directory -/

@[simp] theorem FileEnumerator.names_cons_ok :
    FileEnumerator.names (.ok (filename, root) :: files) = filename :: files.names := rfl

@[simp] theorem FileEnumerator.names_cons_error {e : GError} :
    FileEnumerator.names (.error e :: files) = files.names := rfl

theorem FileEnumerator.names_append (before after : FileEnumerator) :
    FileEnumerator.names (before ++ after) = before.names ++ after.names :=
  List.filterMap_append

/-- A name that is not listed has no contents. -/
theorem FileEnumerator.root?_eq_none (h : name ∉ files.names) : files.root? name = none := by
  fun_induction FileEnumerator.root? files name with
  | case1 => rfl
  | case2 name e files ih => exact ih h
  | case3 root files filename => exact absurd List.mem_cons_self h
  | case4 name filename root files hname ih => exact ih fun hmem => h (List.mem_cons_of_mem _ hmem)

/-- What is in a file is what the enumeration gives for it. -/
theorem FileEnumerator.root?_eq_some_iff (hnodup : files.names.Nodup) :
    files.root? name = some root ↔ .ok (name, root) ∈ files := by
  fun_induction FileEnumerator.root? files name with
  | case1 => simp
  | case2 name e files ih => simpa using ih hnodup
  | case3 first files filename =>
      rw [FileEnumerator.names_cons_ok, List.nodup_cons] at hnodup
      -- the name does not come again
      have hrest : .ok (filename, root) ∉ files := fun hmem =>
        hnodup.1 (List.mem_filterMap.2 ⟨_, hmem, rfl⟩)
      simp [hrest, eq_comm]
  | case4 name filename first files hname ih =>
      rw [FileEnumerator.names_cons_ok, List.nodup_cons] at hnodup
      rw [ih hnodup.2]
      simp [Ne.symm hname]

/-- The enumeration order of a directory makes no difference to what is in its files. -/
theorem FileEnumerator.root?_perm (hperm : files.Perm files') (hnodup : files.names.Nodup)
    (name : String) : files.root? name = files'.root? name := by
  have hnodup' : files'.names.Nodup := (hperm.filterMap _).nodup_iff.1 hnodup
  refine Option.ext fun root => ?_
  rw [FileEnumerator.root?_eq_some_iff hnodup, FileEnumerator.root?_eq_some_iff hnodup',
    hperm.mem_iff]

/-- A file of a directory replaces what is in the table, if there is anything. -/
def Replaces (t : GHashTable String FlatpakRemoteRefActionsFile) (priority : ℤ) (name : String) :
    Prop :=
  ((t.lookup name).any fun existing => decide (existing.priority < priority)) = false

variable (env directory filename priority root t) in
/-- What one file does to the table: its offer is made, or it cannot be read although it has to
be. -/
theorem appendFiles_cons :
    (∃ t₁, (∀ files, appendFiles env directory priority (.ok (filename, root) :: files) t =
          appendFiles env directory priority files t₁) ∧
        (∀ name, t₁.lookup name = if filename = name then
          preferFile (t.lookup name) (fileOffer env directory priority name root)
            else t.lookup name) ∧
        (isJsonFile filename = true → Replaces t priority filename →
          ∃ read, readActionsFile env ⟨directory, filename⟩ root = .ok read)) ∨
      ∃ failure, (∀ files, appendFiles env directory priority (.ok (filename, root) :: files) t =
          .error failure) ∧
        isJsonFile filename = true ∧ Replaces t priority filename ∧
        readActionsFile env ⟨directory, filename⟩ root = .error failure := by
  by_cases hjson : isJsonFile filename
  · have hlooked : ¬(!".json".toList.isSuffixOf filename.toList) = true := by
      simpa [isJsonFile] using hjson
    -- it gives way without being read
    by_cases hlower : (t.lookup filename).any fun existing => decide (existing.priority < priority)
    · refine .inl ⟨t, fun files => by rw [appendFiles, if_neg hlooked, if_pos hlower],
        fun name => ?_, fun _ hwins => ?_⟩
      · split_ifs with hname
        · subst hname
          simp [preferFile, Overwrite.prefer, fileOffer, hjson, hlower]
        · rfl
      · rw [Replaces, hlower] at hwins
        exact Bool.noConfusion hwins
    · cases hread : readActionsFile env ⟨directory, filename⟩ root with
      | error failure =>
          exact .inr ⟨failure, fun files => by
            rw [appendFiles, if_neg hlooked, if_neg hlower, hread], hjson,
            Bool.eq_false_of_not_eq_true hlower, rfl⟩
      | ok read =>
          refine .inl ⟨_, fun files => by rw [appendFiles, if_neg hlooked, if_neg hlower, hread],
            fun name => ?_, fun _ _ => ⟨read, rfl⟩⟩
          rw [GHashTable.lookup_replace]
          split_ifs with hname
          · subst hname
            simp [preferFile, Overwrite.prefer, fileOffer, hjson, hlower, hread, parsedActions]
          · rfl
  · have hignored : (!".json".toList.isSuffixOf filename.toList) = true := by
      rw [Bool.not_eq_true']
      exact Bool.eq_false_of_not_eq_true hjson
    refine .inl ⟨t, fun files => by rw [appendFiles, if_pos hignored], fun name => ?_,
      fun h => absurd h hjson⟩
    split_ifs with hname
    · subst hname
      simp [preferFile, Overwrite.prefer, fileOffer, hjson]
    · rfl

/-- The files of a directory other than the first leave what is under its name. -/
theorem offer_cons (hname : filename ∉ files.names) :
    preferFile (if filename = name then
        preferFile (t.lookup name) (fileOffer env directory priority name root)
          else t.lookup name) (offer env directory files priority name) =
      preferFile (t.lookup name)
        (offer env directory (.ok (filename, root) :: files) priority name) := by
  rw [offer, offer, FileEnumerator.root?]
  split_ifs with h
  · subst h
    rw [FileEnumerator.root?_eq_none hname]
    rfl
  · rfl

/-- **What a directory does to the table**: under each name its file is taken, unless there is one
of a lower priority, and is read then. -/
theorem lookup_appendFiles (hnodup : files.names.Nodup)
    (h : appendFiles env directory priority files t = .ok t') (name : String) :
    t'.lookup name = preferFile (t.lookup name) (offer env directory files priority name) ∧
      ∀ root, isJsonFile name = true → files.root? name = some root → Replaces t priority name →
        ∃ read, readActionsFile env ⟨directory, name⟩ root = .ok read := by
  induction files generalizing t with
  | nil =>
      cases h
      exact ⟨rfl, fun root _ hroot => nomatch hroot⟩
  | cons entry files ih =>
      rcases entry with e | ⟨filename, first⟩
      · cases h
      rw [FileEnumerator.names_cons_ok, List.nodup_cons] at hnodup
      -- the first file changes what is under its own name, and the others leave that as it is
      rcases appendFiles_cons env directory filename priority first t with
        ⟨t₁, heq, hlookup, hread⟩ | ⟨failure, heq, -⟩
      · rw [heq] at h
        obtain ⟨hrest, hreadRest⟩ := ih hnodup.2 h
        refine ⟨by rw [hrest, hlookup, offer_cons hnodup.1], fun root hjson hroot hwins => ?_⟩
        rw [FileEnumerator.root?] at hroot
        split_ifs at hroot with hname
        · subst hname
          cases hroot
          exact hread hjson hwins
        · refine hreadRest root hjson hroot ?_
          rw [Replaces, hlookup, if_neg hname]
          exact hwins
      · rw [heq] at h
        cases h

variable (env directory priority t) in

theorem appendFiles_append (before after : FileEnumerator) :
    appendFiles env directory priority (before ++ after) t =
      match appendFiles env directory priority before t with
      | .error failure => .error failure
      | .ok t => appendFiles env directory priority after t := by
  induction before generalizing t with
  | nil => rfl
  | cons entry before ih =>
      rcases entry with e | ⟨filename, first⟩
      · rfl
      · rcases appendFiles_cons env directory filename priority first t with
          ⟨t₁, heq, -⟩ | ⟨failure, heq, -⟩
        · rw [List.cons_append, heq, heq, ih]
        · rw [List.cons_append, heq, heq]

/-- A directory that is read can be enumerated to its end. -/
theorem appendFiles_ok (h : appendFiles env directory priority files t = .ok t') (e : GError) :
    .error e ∉ files := by
  intro hmem
  obtain ⟨before, after, rfl⟩ := List.append_of_mem hmem
  rw [appendFiles_append] at h
  split at h
  · cases h
  · cases h

/-- **When a directory fails**: in the enumeration, or on a file that has to be read. -/
theorem appendFiles_error (h : appendFiles env directory priority files t = .error failure) :
    (∃ e, .error e ∈ files ∧ failure = .error e) ∨
      ∃ (before : FileEnumerator) (name : String) (root : Except GError (Option JsonNode))
        (after : FileEnumerator) (t₁ : GHashTable String FlatpakRemoteRefActionsFile),
        files = before ++ .ok (name, root) :: after ∧
          appendFiles env directory priority before t = .ok t₁ ∧ isJsonFile name = true ∧
          Replaces t₁ priority name ∧
          readActionsFile env ⟨directory, name⟩ root = .error failure := by
  induction files generalizing t with
  | nil => cases h
  | cons entry files ih =>
      rcases entry with e | ⟨filename, first⟩
      · cases h
        exact .inl ⟨e, List.mem_cons_self, rfl⟩
      rcases appendFiles_cons env directory filename priority first t with
        ⟨t₁, heq, -⟩ | ⟨failure', heq, hjson, hwins, hread⟩
      · -- the file is left out or goes into the table, so a later one fails
        rw [heq] at h
        rcases ih h with
          ⟨e, he, hfailure⟩ | ⟨before, name, root, after, t₂, rfl, hbefore, hjson, hwins, hread⟩
        · exact .inl ⟨e, List.mem_cons_of_mem _ he, hfailure⟩
        · refine .inr ⟨.ok (filename, first) :: before, name, root, after, t₂, rfl, ?_, hjson,
            hwins, hread⟩
          rw [heq, hbefore]
      · rw [heq] at h
        cases h
        exact .inr ⟨[], filename, first, files, t, rfl, rfl, hjson, hwins, hread⟩

/-! ### A list of directories -/

variable {directories : List (String × Except GError FileEnumerator)}

/-- The first directory that has a file of a name, and what is in that. -/
def winningFile : List (String × Except GError FileEnumerator) → String →
    Option (String × Except GError (Option JsonNode))
  | [], _ => none
  | (_, .error _) :: directories, name => winningFile directories name
  | (directory, .ok files) :: directories, name =>
      match files.root? name with
      | some root => some (directory, root)
      | none => winningFile directories name

/-- The names in each directory are distinct. -/
def DistinctNames (directories : List (String × Except GError FileEnumerator)) : Prop :=
  ∀ directory (files : FileEnumerator), (directory, .ok files) ∈ directories → files.names.Nodup

/-- A directory cannot be enumerated, or not to the end. -/
def EnumerationFails (directories : List (String × Except GError FileEnumerator))
    (failure : ReadFailure) : Prop :=
  ∃ directory enumerator e, (directory, enumerator) ∈ directories ∧ failure = .error e ∧
    (enumerator = .error e ∧ e.code ≠ .ioNotFound ∨
      ∃ files, enumerator = .ok files ∧ .error e ∈ files)

/-- The table has what is in the winning file of each name, and only a winning file can have it
fail. -/
structure RespectsPriority (env : ParserEnvironment)
    (directories : List (String × Except GError FileEnumerator)) : Prop where
  table : ∀ t, flatpakRefActionsFromPaths env directories = .ok t → ∀ name,
    isJsonFile name = true →
      winningFile directories name = none ∧ t.lookup name = none ∨
        ∃ directory root read, winningFile directories name = some (directory, root) ∧
          flatpakRefActionsFromFile env ⟨directory, name⟩ root = .ok read ∧
          t.lookup name = some read.actions
  others : ∀ t, flatpakRefActionsFromPaths env directories = .ok t → ∀ name,
    isJsonFile name = false → t.lookup name = none
  failed : ∀ failure, flatpakRefActionsFromPaths env directories = .error failure →
    EnumerationFails directories failure ∨
      ∃ name directory root, isJsonFile name = true ∧
        winningFile directories name = some (directory, root) ∧
        flatpakRefActionsFromFile env ⟨directory, name⟩ root = .error failure

/-- What is in the table comes from directories of lower priorities. -/
def AllBelow (t : GHashTable String FlatpakRemoteRefActionsFile) (priority : ℤ) : Prop :=
  ∀ name file, t.lookup name = some file → file.priority < priority

/-- A file that is already in the table wins over every later directory. -/
theorem preferFile_of_below {file : FlatpakRemoteRefActionsFile} (hbelow : AllBelow t priority)
    (hlookup : t.lookup name = some file) :
    preferFile (t.lookup name) (offer env directory files priority name) = some file := by
  rw [hlookup, offer]
  cases files.root? name with
  | none => rfl
  | some root =>
      rw [Option.bind_some, fileOffer]
      split_ifs
      · simp [preferFile, Overwrite.prefer, hbelow name file hlookup]
      · rfl

theorem preferFile_of_none (hlookup : t.lookup name = none) :
    preferFile (t.lookup name) (offer env directory files priority name) =
      offer env directory files priority name := by
  rw [hlookup]
  cases offer env directory files priority name with
  | none => rfl
  | some file => rfl

/-- A file that is offered carries the priority of its directory. -/
theorem priority_of_offer {file : FlatpakRemoteRefActionsFile}
    (h : offer env directory files priority name = some file) : file.priority = priority := by
  rw [offer, Option.bind_eq_some_iff] at h
  obtain ⟨root, -, h⟩ := h
  rw [fileOffer] at h
  split_ifs at h
  cases h
  rfl

/-- What is in the table stays, and later directories are beyond it. -/
theorem allBelow_appendFiles (hnodup : files.names.Nodup) (hbelow : AllBelow t priority)
    (h : appendFiles env directory priority files t = .ok t') : AllBelow t' (priority + 1) := by
  intro name file hlookup
  rw [(lookup_appendFiles hnodup h name).1] at hlookup
  cases hold : t.lookup name with
  | some existing =>
      rw [preferFile_of_below hbelow hold] at hlookup
      cases hlookup
      have hlt := hbelow name _ hold
      omega
  | none =>
      rw [preferFile_of_none hold] at hlookup
      have hpriority := priority_of_offer hlookup
      omega

/-- A bound on the priorities may grow. -/
theorem AllBelow.succ (h : AllBelow t priority) : AllBelow t (priority + 1) :=
  fun name file hlookup => by
    have hlt := h name file hlookup
    omega

/-- What one directory does: it is missing and leaves the table as it is, or its files are added. -/
inductive AppendsFirst (env : ParserEnvironment) (priority : ℤ)
    (t : GHashTable String FlatpakRemoteRefActionsFile) :
    String × Except GError FileEnumerator → GHashTable String FlatpakRemoteRefActionsFile → Prop
  | missing (directory : String) (e : GError) : AppendsFirst env priority t (directory, .error e) t
  | files {directory : String} {files : FileEnumerator}
      {t₁ : GHashTable String FlatpakRemoteRefActionsFile}
      (h : appendFiles env directory priority files t = .ok t₁) :
      AppendsFirst env priority t (directory, .ok files) t₁

variable {first : String × Except GError FileEnumerator}
variable {t₁ : GHashTable String FlatpakRemoteRefActionsFile}
variable {result : Except ReadFailure (GHashTable String FlatpakRemoteRefActionsFile)}

/-- The loop goes on after the first directory, or ends with an error of it. -/
theorem appendDirectories_cons
    (h : appendDirectories env (first :: directories) priority t = result) :
    (∃ t₁, AppendsFirst env priority t first t₁ ∧
        appendDirectories env directories (priority + 1) t₁ = result) ∨
      ∃ failure, result = .error failure ∧
        ((∃ e, first.2 = .error e ∧ e.code ≠ .ioNotFound ∧ failure = .error e) ∨
          ∃ files, first.2 = .ok files ∧
            appendFiles env first.1 priority files t = .error failure) := by
  rcases first with ⟨directory, e | files⟩
  · rw [appendDirectories, flatpakRefActionsAppendFromDirectory] at h
    by_cases hcode : e.code = .ioNotFound
    · simp only [hcode, Bool.true_and, decide_true, if_true] at h
      exact .inl ⟨t, .missing directory e, h⟩
    · simp only [hcode, Bool.true_and, decide_false, Bool.false_eq_true, if_false] at h
      exact .inr ⟨.error e, h.symm, .inl ⟨e, rfl, hcode, rfl⟩⟩
  · rw [appendDirectories, flatpakRefActionsAppendFromDirectory] at h
    split at h
    · next failure hfails => exact .inr ⟨failure, h.symm, .inr ⟨files, rfl, hfails⟩⟩
    · next t₁ hfiles => exact .inl ⟨t₁, .files hfiles, h⟩

theorem DistinctNames.tail (h : DistinctNames (first :: directories)) :
    DistinctNames directories :=
  fun directory files hmem => h directory files (List.mem_cons_of_mem _ hmem)

namespace AppendsFirst

/-- A directory that is missing takes a priority, too. -/
theorem allBelow (h : AppendsFirst env priority t first t₁)
    (hnodup : DistinctNames (first :: directories)) (hbelow : AllBelow t priority) :
    AllBelow t₁ (priority + 1) := by
  cases h with
  | missing directory e => exact hbelow.succ
  | @files directory files _ h =>
      exact allBelow_appendFiles (hnodup directory files List.mem_cons_self) hbelow h

/-- What is in the table stays in it. -/
theorem kept {file : FlatpakRemoteRefActionsFile} (h : AppendsFirst env priority t first t₁)
    (hnodup : DistinctNames (first :: directories)) (hbelow : AllBelow t priority)
    (hlookup : t.lookup name = some file) : t₁.lookup name = some file := by
  cases h with
  | missing directory e => exact hlookup
  | @files directory files _ h =>
      have hfiles : files.names.Nodup := hnodup directory files List.mem_cons_self
      rw [(lookup_appendFiles hfiles h name).1, preferFile_of_below hbelow hlookup]

/-- A directory adds nothing under the name of another kind of file. -/
theorem lookup_of_not_json (h : AppendsFirst env priority t first t₁)
    (hnodup : DistinctNames (first :: directories)) (hnone : t.lookup name = none)
    (hname : isJsonFile name = false) : t₁.lookup name = none := by
  cases h with
  | missing directory e => exact hnone
  | @files directory files _ h =>
      have hfiles : files.names.Nodup := hnodup directory files List.mem_cons_self
      rw [(lookup_appendFiles hfiles h name).1, preferFile_of_none hnone, offer]
      cases files.root? name with
      | none => rfl
      | some root => simp [fileOffer, hname]

/-- A file wins if nothing is under its name yet. -/
theorem lookup_of_none (h : AppendsFirst env priority t first t₁)
    (hnodup : DistinctNames (first :: directories)) (hnone : t.lookup name = none)
    (hname : isJsonFile name = true) :
    t₁.lookup name = none ∧
        winningFile (first :: directories) name = winningFile directories name ∨
      ∃ directory root read file,
        winningFile (first :: directories) name = some (directory, root) ∧
        readActionsFile env ⟨directory, name⟩ root = .ok read ∧
        t₁.lookup name = some file ∧ file.remoteRefActions = read.actions := by
  cases h with
  | missing directory e => exact .inl ⟨hnone, rfl⟩
  | @files directory files _ h =>
      have hfiles : files.names.Nodup := hnodup directory files List.mem_cons_self
      obtain ⟨hlookup, hread⟩ := lookup_appendFiles hfiles h name
      rw [preferFile_of_none hnone, offer] at hlookup
      rw [winningFile]
      cases hroot : files.root? name with
      | none =>
          rw [hroot] at hlookup
          exact .inl ⟨hlookup, rfl⟩
      | some root =>
          rw [hroot, Option.bind_some, fileOffer, if_pos hname] at hlookup
          -- with nothing under its name, the first file of that name is read
          have hwins : Replaces t priority name := by rw [Replaces, hnone]; rfl
          obtain ⟨read, hok⟩ := hread root hname hroot hwins
          refine .inr ⟨directory, root, read, _, rfl, hok, hlookup, ?_⟩
          rw [hok, parsedActions]

end AppendsFirst

/-- What is in the table stays in it. -/
theorem appendDirectories_kept {file : FlatpakRemoteRefActionsFile}
    (hnodup : DistinctNames directories) (hbelow : AllBelow t priority)
    (h : appendDirectories env directories priority t = .ok t')
    (hlookup : t.lookup name = some file) : t'.lookup name = some file := by
  induction directories generalizing t priority with
  | nil =>
      cases h
      exact hlookup
  | cons first directories ih =>
      rcases appendDirectories_cons h with ⟨t₁, hfirst, hrest⟩ | ⟨failure, hfails, -⟩
      · exact ih hnodup.tail (hfirst.allBelow hnodup hbelow) hrest
          (hfirst.kept hnodup hbelow hlookup)
      · cases hfails

/-- A name that does not end in .json gets no entry from any directory. -/
theorem appendDirectories_of_not_json (hnodup : DistinctNames directories)
    (h : appendDirectories env directories priority t = .ok t') (hnone : t.lookup name = none)
    (hname : isJsonFile name = false) : t'.lookup name = none := by
  induction directories generalizing t priority with
  | nil =>
      cases h
      exact hnone
  | cons first directories ih =>
      rcases appendDirectories_cons h with ⟨t₁, hfirst, hrest⟩ | ⟨failure, hfails, -⟩
      · exact ih hnodup.tail hrest (hfirst.lookup_of_not_json hnodup hnone hname)
      · cases hfails

/-- **What directories in ascending order of priority do to the table**: what is not in it comes
from the winning file. -/
theorem lookup_appendDirectories (hnodup : DistinctNames directories)
    (hbelow : AllBelow t priority)
    (h : appendDirectories env directories priority t = .ok t') (hnone : t.lookup name = none)
    (hname : isJsonFile name = true) :
    winningFile directories name = none ∧ t'.lookup name = none ∨
      ∃ directory root read file, winningFile directories name = some (directory, root) ∧
        readActionsFile env ⟨directory, name⟩ root = .ok read ∧
        t'.lookup name = some file ∧ file.remoteRefActions = read.actions := by
  induction directories generalizing t priority with
  | nil =>
      cases h
      exact .inl ⟨rfl, hnone⟩
  | cons first directories ih =>
      rcases appendDirectories_cons h with ⟨t₁, hfirst, hrest⟩ | ⟨failure, hfails, -⟩
      · have hbelow₁ := hfirst.allBelow hnodup hbelow
        rcases hfirst.lookup_of_none hnodup hnone hname with
          ⟨hnone₁, hwinning⟩ | ⟨directory, root, read, file, hwinning, hread, hlookup, hactions⟩
        · rw [hwinning]
          exact ih hnodup.tail hbelow₁ hrest hnone₁
        · exact .inr ⟨directory, root, read, file, hwinning, hread,
            appendDirectories_kept hnodup.tail hbelow₁ hrest hlookup, hactions⟩
      · cases hfails

/-- The files up to a given one have distinct names. -/
theorem DistinctNames.upTo {front back : List (String × Except GError FileEnumerator)}
    {before after : FileEnumerator}
    (h : DistinctNames (front ++ (directory, .ok (before ++ after)) :: back)) :
    DistinctNames (front ++ [(directory, .ok before)]) := by
  intro other files' hmem
  rcases List.mem_append.1 hmem with hmem | hmem
  · exact h other files' (List.mem_append_left _ hmem)
  · obtain ⟨rfl, heq⟩ := Prod.mk.inj (List.mem_singleton.1 hmem)
    obtain rfl := Except.ok.inj heq
    have hnames := h other _ (List.mem_append_right _ List.mem_cons_self)
    rw [FileEnumerator.names_append] at hnames
    exact hnames.of_append_left

theorem DistinctNames.left {front back : List (String × Except GError FileEnumerator)}
    (h : DistinctNames (front ++ back)) : DistinctNames front :=
  fun other files hmem => h other files (List.mem_append_left _ hmem)

variable (env priority t) in

theorem appendDirectories_append (front back : List (String × Except GError FileEnumerator)) :
    appendDirectories env (front ++ back) priority t =
      match appendDirectories env front priority t with
      | .error failure => .error failure
      | .ok t => appendDirectories env back (priority + front.length) t := by
  induction front generalizing t priority with
  | nil => simp [appendDirectories]
  | cons first front ih =>
      rcases first with ⟨other, enumerator⟩
      rw [List.cons_append, appendDirectories, appendDirectories]
      split
      · rfl
      · have hpriority : priority + 1 + (front.length : ℤ) = priority + (front.length + 1) := by
          omega
        rw [ih, List.length_cons, Nat.cast_succ, hpriority]

/-- After some directories have been read, the priorities are below the number of directories. -/
theorem allBelow_appendDirectories (hnodup : DistinctNames directories)
    (hbelow : AllBelow t priority) (h : appendDirectories env directories priority t = .ok t') :
    AllBelow t' (priority + directories.length) := by
  induction directories generalizing t priority with
  | nil =>
      cases h
      simpa using hbelow
  | cons first directories ih =>
      rcases appendDirectories_cons h with ⟨t₁, hfirst, hrest⟩ | ⟨failure, hfails, -⟩
      · have hrest' := ih hnodup.tail (hfirst.allBelow hnodup hbelow) hrest
        rw [List.length_cons, Nat.cast_succ]
        intro name file hlookup
        have hlt := hrest' name file hlookup
        omega
      · cases hfails

/-- **When directories in ascending order of priority fail**: in an enumeration, or on the files of
one of them. -/
theorem appendDirectories_error
    (h : appendDirectories env directories priority t = .error failure) :
    EnumerationFails directories failure ∨
      ∃ (front : List (String × Except GError FileEnumerator)) (directory : String)
        (files : FileEnumerator) (back : List (String × Except GError FileEnumerator))
        (t₁ : GHashTable String FlatpakRemoteRefActionsFile),
        directories = front ++ (directory, .ok files) :: back ∧
          appendDirectories env front priority t = .ok t₁ ∧
          appendFiles env directory (priority + front.length) files t₁ = .error failure := by
  induction directories generalizing t priority with
  | nil => cases h
  | cons first directories ih =>
      rcases first with ⟨other, enumerator⟩
      rw [appendDirectories] at h
      split at h
      · next failure' hfirst =>
          cases h
          rw [flatpakRefActionsAppendFromDirectory.eq_def] at hfirst
          split at hfirst
          · next e =>
              split at hfirst
              · cases hfirst
              · next hcode =>
                  cases hfirst
                  exact .inl ⟨other, _, e, List.mem_cons_self, rfl,
                    .inl ⟨rfl, by simpa using hcode⟩⟩
          · next files =>
              exact .inr ⟨[], other, files, directories, t, rfl, rfl, by simpa using hfirst⟩
      · next t₁ hfirst =>
          rcases ih h with
            ⟨directory, enumerator', e, hmem, hfails⟩ |
            ⟨front, directory, files, back, t₂, rfl, hfront, hfails⟩
          · exact .inl ⟨directory, enumerator', e, List.mem_cons_of_mem _ hmem, hfails⟩
          · refine .inr ⟨(other, enumerator) :: front, directory, files, back, t₂, rfl, ?_, ?_⟩
            · rw [appendDirectories, hfirst]
              exact hfront
            · -- the priority has gone up by one for each directory in front
              have hpriority : priority + 1 + (front.length : ℤ) =
                  priority + (front.length + 1) := by omega
              rw [List.length_cons, Nat.cast_succ, ← hpriority, hfails]

/-- Directories that are read can be enumerated. -/
theorem appendDirectories_ok (h : appendDirectories env directories priority t = .ok t')
    (failure : ReadFailure) : ¬ EnumerationFails directories failure := by
  rintro ⟨directory, enumerator, e, hmem, -, hcause⟩
  obtain ⟨front, back, rfl⟩ := List.append_of_mem hmem
  rw [appendDirectories_append] at h
  split at h
  · cases h
  next t₁ _ =>
  rw [appendDirectories, flatpakRefActionsAppendFromDirectory.eq_def] at h
  rcases hcause with ⟨rfl, hcode⟩ | ⟨files, rfl, he⟩
  · simp [hcode] at h
  · split at h
    · cases h
    · next hfiles => exact appendFiles_ok hfiles e he

/-! ### Which files are read -/

/-- All of a list of directories is read: they can be enumerated, and the winning files can be
parsed and have no entries that are skipped. -/
structure AllRead (env : ParserEnvironment)
    (directories : List (String × Except GError FileEnumerator)) : Prop where
  enumerated : ∀ failure, ¬ EnumerationFails directories failure
  parsed : ∀ name directory root, isJsonFile name = true →
    winningFile directories name = some (directory, root) →
      ∃ read, flatpakRefActionsFromFile env ⟨directory, name⟩ root = .ok read ∧
        read.skippedActionEntries = []

/-- A file is read: all that comes before it has been read, and none of that is of its name. -/
def IsRead (env : ParserEnvironment) (directories : List (String × Except GError FileEnumerator))
    (file : GFile) (root : Except GError (Option JsonNode)) : Prop :=
  ∃ (front : List (String × Except GError FileEnumerator)) (before after : FileEnumerator)
    (back : List (String × Except GError FileEnumerator)),
    directories =
        front ++ (file.directory, .ok (before ++ .ok (file.name, root) :: after)) :: back ∧
      isJsonFile file.name = true ∧
      winningFile (front ++ [(file.directory, .ok before)]) file.name = none ∧
      AllRead env (front ++ [(file.directory, .ok before)])

/-- A file that is read has entries that are skipped. -/
def ReadsSkipped (env : ParserEnvironment)
    (directories : List (String × Except GError FileEnumerator)) : Prop :=
  ∃ file root read, IsRead env directories file root ∧
    flatpakRefActionsFromFile env file root = .ok read ∧ read.skippedActionEntries ≠ []

theorem allBelow_empty : AllBelow (GHashTable.empty (κ := String)) 0 :=
  fun _ _ hlookup => nomatch hlookup

/-- The files can be read exactly if the loop over the directories succeeds. -/
theorem fromPaths_eq_ok {t : RefActionsTable} :
    flatpakRefActionsFromPaths env directories = .ok t ↔
      ∃ files, appendDirectories env directories 0 GHashTable.empty = .ok files ∧
        t = hoistFlatpakRemoteRefActions files := by
  rw [flatpakRefActionsFromPaths]
  cases appendDirectories env directories 0 GHashTable.empty with
  | error failure => simp
  | ok files => simp [eq_comm]

/-- The files cannot be read exactly if the loop over the directories fails. -/
theorem fromPaths_eq_error : flatpakRefActionsFromPaths env directories = .error failure ↔
    appendDirectories env directories 0 GHashTable.empty = .error failure := by
  rw [flatpakRefActionsFromPaths]
  cases appendDirectories env directories 0 GHashTable.empty with
  | error failure => simp
  | ok files => simp

/-- What is read from directories is what is in the winning files. -/
theorem lookup_fromPaths {t : RefActionsTable} (hnodup : DistinctNames directories)
    (h : flatpakRefActionsFromPaths env directories = .ok t) (hjson : isJsonFile name = true) :
    winningFile directories name = none ∧ t.lookup name = none ∨
      ∃ directory root read, winningFile directories name = some (directory, root) ∧
        readActionsFile env ⟨directory, name⟩ root = .ok read ∧
        t.lookup name = some read.actions := by
  obtain ⟨files, hfiles, rfl⟩ := fromPaths_eq_ok.1 h
  rw [hoistFlatpakRemoteRefActions, GHashTable.lookup_mapValues]
  rcases lookup_appendDirectories hnodup allBelow_empty hfiles rfl hjson with
    ⟨hwinning, hnone⟩ | ⟨directory, root, read, file, hwinning, hread, hlookup, hactions⟩
  · exact .inl ⟨hwinning, by rw [hnone]; rfl⟩
  · refine .inr ⟨directory, root, read, hwinning, hread, ?_⟩
    rw [hlookup, Option.map_some, hactions]

theorem lookup_fromPaths_of_not_json {t : RefActionsTable} (hnodup : DistinctNames directories)
    (h : flatpakRefActionsFromPaths env directories = .ok t) (hother : isJsonFile name = false) :
    t.lookup name = none := by
  obtain ⟨files, hfiles, rfl⟩ := fromPaths_eq_ok.1 h
  rw [hoistFlatpakRemoteRefActions, GHashTable.lookup_mapValues,
    appendDirectories_of_not_json hnodup hfiles rfl hother]
  rfl

/-- What can be read from directories is all of them. -/
theorem allRead_of_ok {t : RefActionsTable} (hnodup : DistinctNames directories)
    (h : flatpakRefActionsFromPaths env directories = .ok t) : AllRead env directories := by
  obtain ⟨files, hfiles, -⟩ := fromPaths_eq_ok.1 h
  refine ⟨appendDirectories_ok hfiles, fun name directory root hjson hwinning => ?_⟩
  rcases lookup_fromPaths hnodup h hjson with ⟨hnone, -⟩ | ⟨_, _, read, hsome, hread, -⟩
  · cases hnone.symm.trans hwinning
  · obtain ⟨rfl, rfl⟩ := Prod.mk.inj (Option.some.inj (hsome.symm.trans hwinning))
    exact ⟨read, readActionsFile_eq_ok.1 hread⟩

theorem winningFile_append (front back : List (String × Except GError FileEnumerator))
    (name : String) :
    winningFile (front ++ back) name = (winningFile front name).or (winningFile back name) := by
  fun_induction winningFile front name with
  | case1 => rfl
  | case2 name other e front ih => exact ih
  | case3 name other files front root hroot =>
      rw [List.cons_append, winningFile, hroot]
      rfl
  | case4 name other files front hroot ih =>
      rw [List.cons_append, winningFile, hroot]
      exact ih

theorem FileEnumerator.root?_append (before after : FileEnumerator) (name : String) :
    FileEnumerator.root? (before ++ after) name = (before.root? name).or (after.root? name) := by
  fun_induction FileEnumerator.root? before name with
  | case1 => rfl
  | case2 name e before ih => exact ih
  | case3 root before filename =>
      rw [List.cons_append, FileEnumerator.root?, if_pos rfl]
      rfl
  | case4 name filename root before hname ih =>
      rw [List.cons_append, FileEnumerator.root?, if_neg hname]
      exact ih

/-- A file that is read wins. -/
theorem IsRead.winningFile {file : GFile} (h : IsRead env directories file root) :
    Euu.winningFile directories file.name = some (file.directory, root) := by
  obtain ⟨front, before, after, back, rfl, -, hnone, -⟩ := h
  rw [winningFile_append, Option.or_eq_none_iff] at hnone
  have hbefore : before.root? file.name = none := by
    have hlast := hnone.2
    rw [Euu.winningFile] at hlast
    split at hlast
    · cases hlast
    · assumption
  rw [winningFile_append, hnone.1, Option.none_or, Euu.winningFile, FileEnumerator.root?_append,
    hbefore, Option.none_or, FileEnumerator.root?, if_pos rfl]

/-- **How reading directories fails**: in an enumeration, or on a file that is read. -/
theorem fromPaths_error (hnodup : DistinctNames directories)
    (h : flatpakRefActionsFromPaths env directories = .error failure) :
    EnumerationFails directories failure ∨
      ∃ file root, IsRead env directories file root ∧
        readActionsFile env file root = .error failure := by
  rcases appendDirectories_error (fromPaths_eq_error.1 h) with
    hfails | ⟨front, directory, files, back, t₁, rfl, hfront, hfails⟩
  · exact .inl hfails
  rcases appendFiles_error hfails with
    ⟨e, he, rfl⟩ | ⟨before, name, root, after, t₂, rfl, hbefore, hjson, hwins, hread⟩
  · exact .inl ⟨directory, _, e, List.mem_append_right _ List.mem_cons_self, rfl,
      .inr ⟨files, rfl, he⟩⟩
  -- everything up to the file has been read
  have hnames := hnodup.upTo
  have hupTo : appendDirectories env (front ++ [(directory, .ok before)]) 0 GHashTable.empty =
      .ok t₂ := by
    rw [appendDirectories_append, hfront]
    dsimp only
    rw [appendDirectories, flatpakRefActionsAppendFromDirectory, hbefore]
    rfl
  refine .inr ⟨⟨directory, name⟩, root, ⟨front, before, after, back, rfl, hjson, ?_,
    allRead_of_ok hnames (fromPaths_eq_ok.2 ⟨t₂, hupTo, rfl⟩)⟩, hread⟩
  -- what is in the table under its name would be of a lower priority
  have hnone : t₂.lookup name = none := by
    have hfiles := hnodup directory _ (List.mem_append_right _ List.mem_cons_self)
    rw [FileEnumerator.names_append, List.nodup_append] at hfiles
    have hother : name ∉ before.names := fun hmem =>
      hfiles.2.2 name hmem name List.mem_cons_self rfl
    have hlookup := (lookup_appendFiles (hnames directory before
      (List.mem_append_right _ (List.mem_singleton_self _))) hbefore name).1
    rw [offer, FileEnumerator.root?_eq_none hother] at hlookup
    have hbelow := allBelow_appendDirectories hnodup.left allBelow_empty hfront
    cases hold : t₁.lookup name with
    | none => rw [hlookup, hold]; rfl
    | some file =>
        have hkept : t₂.lookup name = some file := hlookup.trans hold
        have hnotBelow : ¬ file.priority < 0 + front.length := by
          simpa [Replaces, hkept] using hwins
        exact absurd (hbelow name file hold) hnotBelow
  rcases lookup_appendDirectories hnames allBelow_empty hupTo rfl hjson with
    ⟨hwinning, -⟩ | ⟨_, _, _, file, -, -, hsome, -⟩
  · exact hwinning
  · cases hnone.symm.trans hsome

/-- Conversely, a file that is read and cannot be has the directories fail. -/
theorem IsRead.fromPaths_error {file : GFile} (hnodup : DistinctNames directories)
    (h : IsRead env directories file root)
    (hread : readActionsFile env file root = .error failure) :
    flatpakRefActionsFromPaths env directories = .error failure := by
  obtain ⟨directory, name⟩ := file
  obtain ⟨front, before, after, back, rfl, hjson, hwinning, hall⟩ := h
  have hnames := hnodup.upTo
  cases hupTo : flatpakRefActionsFromPaths env (front ++ [(directory, .ok before)]) with
  | error failure' =>
      -- nothing can have failed up to the file
      rcases Euu.fromPaths_error hnames hupTo with hfails | ⟨other, root', hother, hread'⟩
      · exact absurd hfails (hall.enumerated failure')
      · obtain ⟨-, -, -, -, -, hotherJson, -⟩ := id hother
        obtain ⟨read, hok⟩ := hall.parsed _ _ _ hotherJson hother.winningFile
        rw [readActionsFile_eq_ok.2 hok] at hread'
        cases hread'
  | ok t =>
      obtain ⟨t₂, hupTo, -⟩ := fromPaths_eq_ok.1 hupTo
      have hnone : t₂.lookup name = none := by
        rcases lookup_appendDirectories hnames allBelow_empty hupTo rfl hjson with
          ⟨-, hnone⟩ | ⟨_, _, _, file, hsome, -⟩
        · exact hnone
        · cases hwinning.symm.trans hsome
      rw [appendDirectories_append] at hupTo
      rw [fromPaths_eq_error, appendDirectories_append]
      cases hfront : appendDirectories env front 0 GHashTable.empty with
      | error failure' =>
          rw [hfront] at hupTo
          cases hupTo
      | ok t₁ =>
          rw [hfront] at hupTo
          dsimp only at hupTo ⊢
          rw [appendDirectories, flatpakRefActionsAppendFromDirectory] at hupTo ⊢
          rw [appendFiles_append]
          cases hbefore : appendFiles env directory (0 + front.length) before t₁ with
          | error failure' =>
              rw [hbefore] at hupTo
              cases hupTo
          | ok t₃ =>
              rw [hbefore] at hupTo
              obtain rfl : t₃ = t₂ := Except.ok.inj hupTo
              rcases appendFiles_cons env directory name (0 + front.length) root t₃ with
                ⟨t₄, -, -, hok⟩ | ⟨failure', heq, -, -, hread'⟩
              · obtain ⟨read, hok⟩ := hok hjson (by rw [Replaces, hnone]; rfl)
                cases hok.symm.trans hread
              · dsimp only
                rw [heq]
                exact congrArg Except.error (Except.error.inj (hread'.symm.trans hread))

/-- Directories all of which is read can be read. -/
theorem AllRead.exists_ok (h : AllRead env directories) (hnodup : DistinctNames directories) :
    ∃ t, flatpakRefActionsFromPaths env directories = .ok t := by
  cases hpaths : flatpakRefActionsFromPaths env directories with
  | ok t => exact ⟨t, rfl⟩
  | error failure =>
      exfalso
      rcases fromPaths_error hnodup hpaths with hfails | ⟨file, root, hfile, hread⟩
      · exact h.enumerated failure hfails
      · obtain ⟨-, -, -, -, -, hjson, -⟩ := id hfile
        obtain ⟨read, hok⟩ := h.parsed _ _ _ hjson hfile.winningFile
        rw [readActionsFile_eq_ok.2 hok] at hread
        cases hread

/-- **When it is undefined what reading directories does**: where a file that is read has entries
that are skipped. -/
theorem fromPaths_eq_undefined_iff (hnodup : DistinctNames directories) :
    flatpakRefActionsFromPaths env directories = .error .undefined ↔
      ReadsSkipped env directories := by
  constructor
  · intro h
    rcases fromPaths_error hnodup h with ⟨_, _, _, -, hfailure, -⟩ | ⟨file, root, hfile, hread⟩
    · cases hfailure
    rcases readActionsFile_eq_error.1 hread with hparse | ⟨-, read, hread, hskipped⟩
    · exact absurd hparse (flatpakRefActionsFromFile_ne_undefined _ _)
    · exact ⟨file, root, read, hfile, hread, hskipped⟩
  · rintro ⟨file, root, read, hfile, hread, hskipped⟩
    exact hfile.fromPaths_error hnodup
      (readActionsFile_eq_error.2 (.inr ⟨rfl, read, hread, hskipped⟩))

/-- Priorities are respected unless it is undefined what happens. -/
theorem respectsPriority_iff (hnodup : DistinctNames directories) :
    RespectsPriority env directories ↔ ¬ ReadsSkipped env directories := by
  rw [← fromPaths_eq_undefined_iff hnodup]
  constructor
  · intro hrespects hundefined
    rcases hrespects.failed _ hundefined with ⟨_, _, _, -, hfailure, -⟩ | ⟨_, _, root, -, -, hread⟩
    · cases hfailure
    · exact flatpakRefActionsFromFile_ne_undefined _ _ hread
  · intro hdefined
    constructor
    · intro t h name hjson
      refine (lookup_fromPaths hnodup h hjson).imp_right ?_
      rintro ⟨directory, root, read, hwinning, hread, hlookup⟩
      exact ⟨directory, root, read, hwinning, (readActionsFile_eq_ok.1 hread).1, hlookup⟩
    · exact fun t h name hother => lookup_fromPaths_of_not_json hnodup h hother
    · intro failure h
      refine (fromPaths_error hnodup h).imp_right ?_
      rintro ⟨file, root, hfile, hread⟩
      obtain ⟨-, -, -, -, -, hjson, -⟩ := id hfile
      refine ⟨file.name, file.directory, root, hjson, hfile.winningFile, ?_⟩
      rcases readActionsFile_eq_error.1 hread with hparse | ⟨rfl, -⟩
      · exact hparse
      · exact absurd h hdefined

/-! ### Directories in any order -/

/-- A call of `euu_flatpak_ref_actions_append_from_directory`. -/
structure AppendCall where
  directory : String
  enumerator : Except GError FileEnumerator
  priority : ℤ
  allowNoent : Bool

/-- One call after the other, on one table. -/
def appendCalls (env : ParserEnvironment) : List AppendCall →
    GHashTable String FlatpakRemoteRefActionsFile →
      Except ReadFailure (GHashTable String FlatpakRemoteRefActionsFile)
  | [], t => .ok t
  | call :: calls, t =>
      match flatpakRefActionsAppendFromDirectory env call.directory call.enumerator call.priority
          call.allowNoent t with
      | .error failure => .error failure
      | .ok t => appendCalls env calls t

/-- The same call, in which the files of the directory may be found in another order. -/
inductive Reenumerates : AppendCall → AppendCall → Prop
  | refl (call : AppendCall) : Reenumerates call call
  | files (directory : String) (priority : ℤ) (allowNoent : Bool) {files files' : FileEnumerator}
      (h : files.Perm files') :
      Reenumerates ⟨directory, .ok files, priority, allowNoent⟩
        ⟨directory, .ok files', priority, allowNoent⟩

/-- The same calls in any order. -/
def ReordersCalls (calls calls' : List AppendCall) : Prop :=
  ∃ reenumerated, List.Forall₂ Reenumerates calls reenumerated ∧ reenumerated.Perm calls'

/-- The names in the directory of each call are distinct. -/
def CallsDistinctNames (calls : List AppendCall) : Prop :=
  ∀ call ∈ calls, ∀ files, call.enumerator = .ok files → files.names.Nodup

variable {call call' : AppendCall} {calls calls' : List AppendCall}

/-- What a call would put into the table under a name. -/
def AppendCall.offer (env : ParserEnvironment) (name : String) (call : AppendCall) :
    Option FlatpakRemoteRefActionsFile :=
  match call.enumerator with
  | .error _ => none
  | .ok files => Euu.offer env call.directory files call.priority name

/-- The file that a call offers carries the priority of the call. -/
theorem AppendCall.priority_of_offer {file : FlatpakRemoteRefActionsFile}
    (h : file ∈ call.offer env name) : file.priority = call.priority := by
  rw [AppendCall.offer, Option.mem_def] at h
  split at h
  · cases h
  · exact Euu.priority_of_offer h

/-- **What a sequence of calls does to the table**: under each name, it makes one offer after the
other. -/
theorem lookup_appendCalls (hnodup : CallsDistinctNames calls)
    (h : appendCalls env calls t = .ok t') (name : String) :
    t'.lookup name =
      calls.foldl (fun slot call => preferFile slot (call.offer env name)) (t.lookup name) := by
  induction calls generalizing t with
  | nil =>
      cases h
      rfl
  | cons call calls ih =>
      rw [appendCalls] at h
      split at h
      · cases h
      next t₁ hcall =>
        have hfirst : t₁.lookup name = preferFile (t.lookup name) (call.offer env name) := by
          rw [flatpakRefActionsAppendFromDirectory.eq_def] at hcall
          split at hcall
          · next e herr =>
              rw [AppendCall.offer, herr]
              split_ifs at hcall
              cases hcall
              rfl
          · next files hfiles =>
              rw [AppendCall.offer, hfiles]
              have hnames : files.names.Nodup := hnodup call List.mem_cons_self files hfiles
              exact (lookup_appendFiles hnames hcall name).1
        rw [ih (fun c hc => hnodup c (List.mem_cons_of_mem _ hc)) h, hfirst, List.foldl_cons]

/-- Enumerating a directory in another order offers the same file for each name. -/
theorem Reenumerates.offer (h : Reenumerates call call')
    (hnodup : ∀ files, call.enumerator = .ok files → files.names.Nodup) (name : String) :
    call.offer env name = call'.offer env name := by
  rcases h with _ | ⟨directory, priority, allowNoent, hperm⟩
  · rfl
  · simp only [AppendCall.offer, Euu.offer,
      FileEnumerator.root?_perm hperm (hnodup _ rfl) name]

theorem Reenumerates.priority_eq (h : Reenumerates call call') :
    call.priority = call'.priority := by
  rcases h with _ | _
  · rfl
  · rfl

/-- Names that are distinct stay so in another order of enumeration. -/
theorem Reenumerates.names (h : Reenumerates call call')
    (hnodup : ∀ files, call.enumerator = .ok files → files.names.Nodup) :
    ∀ files, call'.enumerator = .ok files → files.names.Nodup := by
  rcases h with _ | ⟨directory, priority, allowNoent, hperm⟩
  · exact hnodup
  · rintro files ⟨⟩
    exact (hperm.filterMap _).nodup_iff.1 (hnodup _ rfl)

variable (env) in
/-- The files of each directory in another order. -/
private theorem foldl_offer_reenumerates (h : List.Forall₂ Reenumerates calls calls')
    (hnodup : CallsDistinctNames calls) (name : String) :
    calls'.map AppendCall.priority = calls.map AppendCall.priority ∧ CallsDistinctNames calls' ∧
      ∀ slot, calls.foldl (fun slot call => preferFile slot (call.offer env name)) slot =
        calls'.foldl (fun slot call => preferFile slot (call.offer env name)) slot := by
  induction h with
  | nil => exact ⟨rfl, hnodup, fun _ => rfl⟩
  | cons hfirst hrest ih =>
      rw [CallsDistinctNames, List.forall_mem_cons] at hnodup
      obtain ⟨hpriorities, hnames, hfold⟩ := ih hnodup.2
      refine ⟨?_, ?_, fun slot => ?_⟩
      · rw [List.map_cons, List.map_cons, hpriorities, hfirst.priority_eq]
      · rw [CallsDistinctNames, List.forall_mem_cons]
        exact ⟨hfirst.names hnodup.1, hnames⟩
      · rw [List.foldl_cons, List.foldl_cons, hfirst.offer hnodup.1, hfold]

/-- **The order does not matter**: of calls with different priorities, every order in which all
succeed yields the same table. -/
theorem lookup_appendCalls_reorders {u u' : GHashTable String FlatpakRemoteRefActionsFile}
    (hnodup : CallsDistinctNames calls) (hpriorities : (calls.map AppendCall.priority).Nodup)
    (hreorders : ReordersCalls calls calls') (h : appendCalls env calls t = .ok u)
    (h' : appendCalls env calls' t = .ok u') (name : String) : u.lookup name = u'.lookup name := by
  -- first the files within each directory, then the directories
  obtain ⟨reenumerated, hcalls, hperm⟩ := hreorders
  obtain ⟨hsame, hnames, hfold⟩ := foldl_offer_reenumerates env hcalls hnodup name
  have hnames' : CallsDistinctNames calls' := fun c hc => hnames c (hperm.mem_iff.2 hc)
  rw [← hsame] at hpriorities
  rw [lookup_appendCalls hnodup h, lookup_appendCalls hnames' h', hfold]
  refine Overwrite.foldl_prefer_perm hperm (fun x hx y hy hxy a ha b hb heq => hxy ?_) _
  -- calls of one priority are one call
  refine List.inj_on_of_nodup_map hpriorities hx hy ?_
  rw [← AppendCall.priority_of_offer ha, ← AppendCall.priority_of_offer hb, heq]

/-- **When priorities are respected whatever the order**: from a list of directories, exactly if no
file that is read has entries that are skipped, and in calls of different priorities always. -/
theorem directories_prioritised_iff (env : ParserEnvironment) :
    (∀ directories, DistinctNames directories →
        (RespectsPriority env directories ↔ ¬ ReadsSkipped env directories)) ∧
      ∀ calls calls' t u u', CallsDistinctNames calls → (calls.map AppendCall.priority).Nodup →
        ReordersCalls calls calls' → appendCalls env calls t = .ok u →
        appendCalls env calls' t = .ok u' → ∀ name, u.lookup name = u'.lookup name :=
  ⟨fun _ hnodup => respectsPriority_iff hnodup, fun _ _ _ _ _ hnodup hpriorities hreorders h h' =>
    lookup_appendCalls_reorders hnodup hpriorities hreorders h h'⟩

/-- A directory with a single file. -/
def singleFile (node : JsonNode) : FileEnumerator := [.ok ("10-apps.json", .ok (some node))]

/-- Two directories that have a file of the same name. -/
def sampleCalls : List AppendCall :=
  [⟨"/etc", .ok (singleFile (.array [updateNode "org.example.X" 1])), -1, false⟩,
    ⟨"/usr", .ok (singleFile (.array [])), 1, false⟩]

/-- An entry of a later version, with an action that is not known yet. -/
def laterEntry : JsonNode :=
  .object [("action", .string "pin"), ("serial", .int 2), ("name", .string "org.example.X"),
    ("branch", .string "stable"), ("ref-kind", .string "app")]

theorem distinctNames_singleFile (directory : String) (node : JsonNode) :
    DistinctNames [(directory, .ok (singleFile node))] := by
  intro other files hmem
  obtain ⟨-, heq⟩ := Prod.mk.inj (List.mem_singleton.1 hmem)
  obtain rfl := Except.ok.inj heq
  exact List.nodup_singleton _

/-- A malformed file does no harm behind another of its name, a file with an entry that is skipped
does, and two files of one name may be loaded in either order. -/
theorem directories_prioritised_pair :
    RespectsPriority plainEnvironment
        [("/etc", .ok (singleFile (.array [updateNode "org.example.X" 1]))),
          ("/usr", .ok (singleFile .null))] ∧
      ¬ RespectsPriority plainEnvironment
        [("/etc", .ok (singleFile (.array [updateNode "org.example.X" 1, laterEntry])))] ∧
      ∃ u u', appendCalls plainEnvironment sampleCalls GHashTable.empty = .ok u ∧
          appendCalls plainEnvironment sampleCalls.reverse GHashTable.empty = .ok u' ∧
          u.lookup "10-apps.json" = u'.lookup "10-apps.json" := by
  have hnames : ∀ node, (singleFile node).names.Nodup := fun node => List.nodup_singleton _
  refine ⟨?_, fun hrespects => ?_, ?_⟩
  · have hdistinct : DistinctNames [("/etc", .ok (singleFile (.array
        [updateNode "org.example.X" 1]))), ("/usr", .ok (singleFile .null))] := by
      intro directory files hmem
      simp only [List.mem_cons, Prod.mk.injEq, Except.ok.injEq, List.not_mem_nil, or_false] at hmem
      rcases hmem with ⟨-, rfl⟩ | ⟨-, rfl⟩
      · exact hnames _
      · exact hnames _
    refine ((directories_prioritised_iff plainEnvironment).1 _ hdistinct).2 ?_
    rw [← fromPaths_eq_undefined_iff hdistinct]
    -- a malformed file that is shadowed is not read
    have hok : (flatpakRefActionsFromPaths plainEnvironment [("/etc", .ok (singleFile (.array
        [updateNode "org.example.X" 1]))), ("/usr", .ok (singleFile .null))]).toOption.isSome := by
      decide +kernel
    intro hundefined
    rw [hundefined] at hok
    cases hok
  · -- the read is undefined, as an entry of the file is skipped
    refine ((directories_prioritised_iff plainEnvironment).1 _
      (distinctNames_singleFile _ _)).1 hrespects ?_
    exact (fromPaths_eq_undefined_iff (distinctNames_singleFile _ _)).1 rfl
  · have hdistinct : CallsDistinctNames sampleCalls := by
      intro call hcall files hfiles
      simp only [sampleCalls, List.mem_cons, List.not_mem_nil, or_false] at hcall
      rcases hcall with rfl | rfl
      · cases hfiles
        exact hnames _
      · cases hfiles
        exact hnames _
    have hreorders : ReordersCalls sampleCalls sampleCalls.reverse :=
      ⟨sampleCalls, List.forall₂_same.2 fun call _ => .refl call, (List.reverse_perm _).symm⟩
    have hu : ∃ u, appendCalls plainEnvironment sampleCalls GHashTable.empty = .ok u := ⟨_, rfl⟩
    have hu' : ∃ u', appendCalls plainEnvironment sampleCalls.reverse GHashTable.empty = .ok u' :=
      ⟨_, rfl⟩
    obtain ⟨u, hu⟩ := hu
    obtain ⟨u', hu'⟩ := hu'
    exact ⟨u, u', hu, hu', (directories_prioritised_iff plainEnvironment).2 _ _ _ u u' hdistinct
      (by decide) hreorders hu hu' _⟩

/-- A file with a single entry that is skipped does not come to what is in it. -/
theorem skippedEntry_not_prioritised :
    flatpakRefActionsFromFile plainEnvironment ⟨"/etc", "10-apps.json"⟩
        (.ok (some (.array [laterEntry]))) =
        .ok ⟨[], [plainEnvironment.jsonGeneratorToData laterEntry]⟩ ∧
      ¬ RespectsPriority plainEnvironment [("/etc", .ok (singleFile (.array [laterEntry])))] := by
  refine ⟨rfl, fun hrespects => ?_⟩
  have hundefined : flatpakRefActionsFromPaths plainEnvironment
      [("/etc", .ok (singleFile (.array [laterEntry])))] = .error .undefined := rfl
  rcases hrespects.failed _ hundefined with ⟨_, _, _, -, hfailure, -⟩ | ⟨_, _, root, -, -, hread⟩
  · cases hfailure
  · exact flatpakRefActionsFromFile_ne_undefined _ _ hread

end Euu
