import EosUpdater.Flatpak.Parse
import EosUpdater.GLib.KeyFile
import EosUpdater.Installer.Main

/-!
# The counter as a key file

The counter is stored with a group for each autoinstall file, of the name of that file. Here are the
function that writes it, on the key file itself, and the one that reads it back into a table.

Setting a progress in a group whose name a key file cannot hold is ignored, while the parser takes
autoinstall files of any name that ends in `.json`. So what is read back is the old table overridden
by the new progresses exactly if all of these are on files that can be named
(`counter_roundtrip_iff`); under this condition `updateCounter`, which keeps the counter as a table,
is what happens to the key file (`updateCounterFile_refines`).
-/

namespace Eufi

open Euu GLib

/-! ### Reading -/

/-- A key file error as a `GError`. -/
def keyFileGError : KeyFileError → GError
  | .keyNotFound message => ⟨.other "g-key-file-error-quark" 3, message⟩
  | .groupNotFound message => ⟨.other "g-key-file-error-quark" 4, message⟩
  | .invalidValue message => ⟨.other "g-key-file-error-quark" 5, message⟩

/-- The loop of `euu_flatpak_ref_action_application_progress_in_state_path` over the groups. -/
def readProgresses (stateKeyFile : KeyFile) :
    List String → Progresses → Except GError Progresses
  | [], refActionProgressForFiles => .ok refActionProgressForFiles
  | sourcePath :: groups, refActionProgressForFiles =>
      match stateKeyFile.getInteger sourcePath "Progress" with
      | .error localError => .error (keyFileGError localError)
      | .ok progress =>
          if !isValidSerial progress.toInt64 then
            .error ⟨.ioFailed, "‘Progress’ must be in range [" ++ toString Int32.minValue.toInt ++
              ", " ++ toString Int32.maxValue.toInt ++ "] in key file"⟩
          else
            readProgresses stateKeyFile groups
              (refActionProgressForFiles.replace sourcePath progress)

/-- `euu_flatpak_ref_action_application_progress_in_state_path`, given what loading the key file
returns. -/
def applicationProgressInStateFile (stateKeyFile : Except GError KeyFile) :
    Except GError Progresses :=
  match stateKeyFile with
  | .error localError =>
      if localError.code ≠ .fileNoent then .error localError else .ok GHashTable.empty
  | .ok stateKeyFile => readProgresses stateKeyFile stateKeyFile.getGroups GHashTable.empty

/-- `g_key_file_load_from_file` on a well-formed file that can be read, if there is one. -/
def loadKeyFile (file : Option KeyFile) : Except GError KeyFile :=
  match file with
  | none => .error ⟨.fileNoent, "No such file or directory"⟩
  | some keyFile => .ok keyFile

/-! ### Writing -/

/-- The loop of `update_counter`. -/
def writeProgresses (counterKeyfile : KeyFile) (newProgresses : List (String × Int32)) : KeyFile :=
  newProgresses.foldl (fun file entry => file.setInt64 entry.1 "Progress" entry.2.toInt64)
    counterKeyfile

/-- `update_counter`, on the key file: the result, and the counter file afterwards. -/
def updateCounterFile (io : CounterIO) (counterFile : Option KeyFile)
    (newProgresses : Progresses) : Except GError Unit × Option KeyFile :=
  match io.makeDirectoryWithParents.filter fun e => e.code ≠ .ioExists with
  | some e => (.error e, counterFile)
  | none =>
      match io.loadFromFile.filter fun e => e.code ≠ .fileNoent with
      | some e => (.error e, counterFile)
      | none =>
          match io.saveToFile with
          | some e => (.error e, counterFile)
          | none =>
              -- without a counter file, a new one is begun
              let counterKeyfile :=
                if io.loadFromFile.isSome then KeyFile.empty else counterFile.getD KeyFile.empty
              (.ok (), some (writeProgresses counterKeyfile newProgresses.entries))

/-! ### What is read -/

variable {file : KeyFile} {name : String} {t old : Progresses}

/-- Every `gint` is a valid serial. -/
theorem isValidSerial_toInt64 (n : Int32) : isValidSerial n.toInt64 = true := by
  have hlow := Int32.le_toInt n
  have hhigh := Int32.toInt_lt n
  rw [isValidSerial, Bool.and_eq_true, decide_eq_true_eq, decide_eq_true_eq,
    Int64.le_iff_toInt_le, Int64.le_iff_toInt_le, Int32.toInt_toInt64, Int32.toInt_toInt64,
    Int32.toInt_toInt64]
  exact ⟨hlow, Int.le_of_lt_add_one hhigh⟩

/-- Reading the counter succeeds only if each group has a progress, and then returns these. -/
theorem readProgresses_ok {groups : List String} {start : Progresses}
    (h : readProgresses file groups start = .ok t) :
    (∀ group ∈ groups, ∃ n, file.getInteger group "Progress" = .ok n) ∧
      ∀ name, t.lookup name =
        if name ∈ groups then (file.getInteger name "Progress").toOption
        else start.lookup name := by
  induction groups generalizing start with
  | nil =>
      cases h
      simp
  | cons group groups ih =>
      rw [readProgresses] at h
      split at h
      · cases h
      next n hn =>
        split at h
        · cases h
        -- what the later groups say counts, and then this one
        obtain ⟨hall, hlookup⟩ := ih h
        refine ⟨fun g hg => ?_, fun name => ?_⟩
        · rcases List.mem_cons.1 hg with rfl | hg
          · exact ⟨n, hn⟩
          · exact hall g hg
        · rw [hlookup name, GHashTable.lookup_replace]
          by_cases hmem : name ∈ groups
          · simp [hmem]
          by_cases heq : group = name
          · subst heq
            simp [hmem, hn, Except.toOption]
          · simp [hmem, heq, Ne.symm heq]

/-- Reading the counter succeeds if each group has a progress. -/
theorem readProgresses_of_ok {groups : List String} {start : Progresses}
    (h : ∀ group ∈ groups, ∃ n, file.getInteger group "Progress" = .ok n) :
    ∃ t, readProgresses file groups start = .ok t := by
  induction groups generalizing start with
  | nil => exact ⟨start, rfl⟩
  | cons group groups ih =>
      obtain ⟨n, hn⟩ := h group List.mem_cons_self
      rw [readProgresses, hn]
      simp only [isValidSerial_toInt64, Bool.not_true, Bool.false_eq_true, if_false]
      exact ih fun g hg => h g (List.mem_cons_of_mem _ hg)

/-- The table that is read has the progress of each group. -/
theorem lookup_of_read (h : applicationProgressInStateFile (.ok file) = .ok t) (name : String) :
    t.lookup name = (file.getInteger name "Progress").toOption := by
  rw [(readProgresses_ok h).2 name]
  split
  · rfl
  · next hmem =>
      cases hget : file.getInteger name "Progress" with
      | error e => rfl
      | ok n => exact absurd (KeyFile.mem_getGroups_of_getInteger hget) hmem

/-! ### What is written -/

/-- A progress that is written is read back if its name can be a group. -/
theorem getInteger_writeProgresses (file : KeyFile) (new : Progresses) (name : String) :
    (writeProgresses file new.entries).getInteger name "Progress" =
      if isGroupName name = true then
        (new.lookup name).elim (file.getInteger name "Progress") Except.ok
      else file.getInteger name "Progress" := by
  obtain ⟨entries, hnodup⟩ := new
  simp only [GHashTable.lookup]
  induction entries generalizing file with
  | nil => simp [writeProgresses]
  | cons entry entries ih =>
      rw [List.map_cons, List.nodup_cons] at hnodup
      rw [writeProgresses, List.foldl_cons, ← writeProgresses, ih _ hnodup.2,
        KeyFile.getInteger_setInt64]
      by_cases heq : entry.1 = name
      · -- no later entry is on the same file
        have hnone : entries.find? (fun e => decide (e.1 = name)) = none := by
          rw [List.find?_eq_none]
          intro e he hname
          have hkey : e.1 = entry.1 := by rw [heq]; simpa using hname
          exact hnodup.1 (hkey ▸ List.mem_map_of_mem he)
        simp [hnone, heq]
      · simp [heq]

theorem mem_getGroups_writeProgresses (file : KeyFile) (entries : List (String × Int32)) :
    name ∈ (writeProgresses file entries).getGroups ↔
      name ∈ file.getGroups ∨ name ∈ entries.map Prod.fst ∧ isGroupName name = true := by
  induction entries generalizing file with
  | nil => simp [writeProgresses]
  | cons entry entries ih =>
      rw [writeProgresses, List.foldl_cons, ← writeProgresses, ih, KeyFile.mem_getGroups_setInt64,
        List.map_cons, List.mem_cons]
      by_cases heq : entry.1 = name
      · simp [heq]
        tauto
      · simp [heq, Ne.symm heq]

/-- What is written to a key file that can be read can be read. -/
theorem exists_read_writeProgresses (hold : applicationProgressInStateFile (.ok file) = .ok old)
    (new : Progresses) :
    ∃ t, applicationProgressInStateFile (.ok (writeProgresses file new.entries)) = .ok t := by
  refine readProgresses_of_ok fun group hgroup => ?_
  rw [getInteger_writeProgresses]
  -- the group has a new progress, or it was read before
  cases hlookup : new.lookup group with
  | some n =>
      -- every group of a key file can be named
      rw [if_pos (KeyFile.isGroupName_of_mem hgroup)]
      exact ⟨n, rfl⟩
  | none =>
      rw [Option.elim_none, ite_self]
      rcases (mem_getGroups_writeProgresses file new.entries).1 hgroup with hgroup | ⟨hmem, -⟩
      · exact (readProgresses_ok hold).1 group hgroup
      · obtain ⟨n, hn⟩ := (new.mem_getKeys_iff group).1 hmem
        rw [hlookup] at hn
        cases hn

/-! ### The round trip -/

variable {io : CounterIO} {counterFile : Option KeyFile}

/-- `t` is the old table, overridden by the new progresses. -/
def Overridden (old new t : Progresses) : Prop :=
  ∀ name, t.lookup name = (old.setAll new).lookup name

/-- A key file is read as the table overridden by the progresses that can be written. -/
theorem overridden_iff (new : Progresses)
    (hold : applicationProgressInStateFile (.ok file) = .ok old) :
    (∃ t, applicationProgressInStateFile (.ok (writeProgresses file new.entries)) = .ok t ∧
        Overridden old new t) ↔
      ∀ name ∈ new.getKeys, isGroupName name = true := by
  constructor
  · rintro ⟨t, hread, hover⟩ name hname
    obtain ⟨n, hn⟩ := (new.mem_getKeys_iff name).1 hname
    have hlookup := hover name
    rw [GHashTable.lookup_setAll, hn, Option.some_or, lookup_of_read hread] at hlookup
    -- the name is that of a group that has been read
    cases hget : (writeProgresses file new.entries).getInteger name "Progress" with
    | error e =>
        rw [hget] at hlookup
        cases hlookup
    | ok m => exact KeyFile.isGroupName_of_mem (KeyFile.mem_getGroups_of_getInteger hget)
  · intro hnamed
    obtain ⟨t, hread⟩ := exists_read_writeProgresses hold new
    refine ⟨t, hread, fun name => ?_⟩
    rw [GHashTable.lookup_setAll, lookup_of_read hread, lookup_of_read hold,
      getInteger_writeProgresses]
    cases hlookup : new.lookup name with
    | some n =>
        rw [if_pos (hnamed name ((new.mem_getKeys_iff name).2 ⟨n, hlookup⟩))]
        rfl
    | none =>
        rw [Option.elim_none, ite_self]
        rfl

/-- The first error that an update of the counter reports. -/
def CounterIO.error (io : CounterIO) : Option GError :=
  ((io.makeDirectoryWithParents.filter fun e => e.code ≠ .ioExists).or
    (io.loadFromFile.filter fun e => e.code ≠ .fileNoent)).or io.saveToFile

theorem updateCounterFile_eq (io : CounterIO) (counterFile : Option KeyFile) (new : Progresses) :
    updateCounterFile io counterFile new =
      match io.error with
      | some e => (.error e, counterFile)
      | none => (.ok (), some (writeProgresses
          (if io.loadFromFile.isSome then KeyFile.empty else counterFile.getD KeyFile.empty)
          new.entries)) := by
  rw [updateCounterFile, CounterIO.error]
  cases io.makeDirectoryWithParents.filter fun e => e.code ≠ .ioExists with
  | some e => rfl
  | none =>
      cases io.loadFromFile.filter fun e => e.code ≠ .fileNoent with
      | some e => rfl
      | none => cases io.saveToFile <;> rfl

theorem updateCounter_eq (io : CounterIO) (counter : Option Progresses) (new : Progresses) :
    updateCounter io counter new =
      match io.error with
      | some e => (.error e, counter)
      | none => (.ok (), some
          ((if io.loadFromFile.isSome then GHashTable.empty
            else counter.getD GHashTable.empty).setAll new)) := by
  rw [updateCounter, CounterIO.error]
  cases io.makeDirectoryWithParents.filter fun e => e.code ≠ .ioExists with
  | some e => rfl
  | none =>
      cases io.loadFromFile.filter fun e => e.code ≠ .fileNoent with
      | some e => rfl
      | none => cases io.saveToFile <;> rfl

/-- If no error is reported, loading has failed only for want of a file. -/
theorem eq_none_of_load
    (hload : ∀ e, io.loadFromFile = some e → e.code = .fileNoent → counterFile = none)
    (herror : io.error = none) (hsome : io.loadFromFile.isSome = true) : counterFile = none := by
  obtain ⟨e, he⟩ := Option.isSome_iff_exists.1 hsome
  refine hload e he ?_
  rw [ CounterIO.error, Option.or_eq_none_iff, Option.or_eq_none_iff, he] at herror
  simpa using herror.1.2

/-- A successful update has written to the key file that there was, or to an empty one. -/
theorem updateCounterFile_of_no_error (new : Progresses)
    (hload : ∀ e, io.loadFromFile = some e → e.code = .fileNoent → counterFile = none)
    (herror : io.error = none) :
    updateCounterFile io counterFile new =
      (.ok (), some (writeProgresses (counterFile.getD KeyFile.empty) new.entries)) := by
  rw [updateCounterFile_eq, herror]
  by_cases hsome : io.loadFromFile.isSome = true
  · rw [eq_none_of_load hload herror hsome, if_pos hsome]
    rfl
  · rw [if_neg hsome]

/-- What there was can be read also if that is nothing. -/
private theorem read_getD (hold : applicationProgressInStateFile (loadKeyFile counterFile) =
      .ok old) :
    applicationProgressInStateFile (.ok (counterFile.getD KeyFile.empty)) = .ok old := by
  cases counterFile with
  | none => exact hold
  | some file => exact hold

/-- **When the counter makes the round trip.** After an update that succeeds, the counter is read as
the old table overridden by the new progresses exactly if all of these are on files that a key file
can name. -/
theorem counter_roundtrip_iff (io : CounterIO) (counterFile : Option KeyFile)
    (old new : Progresses)
    (hload : ∀ e, io.loadFromFile = some e → e.code = .fileNoent → counterFile = none)
    (hold : applicationProgressInStateFile (loadKeyFile counterFile) = .ok old)
    (hok : (updateCounterFile io counterFile new).1 = .ok ()) :
    (∃ t, applicationProgressInStateFile
        (loadKeyFile (updateCounterFile io counterFile new).2) = .ok t ∧ Overridden old new t) ↔
      ∀ name ∈ new.getKeys, isGroupName name = true := by
  have herror : io.error = none := by
    rw [updateCounterFile_eq] at hok
    split at hok
    · cases hok
    · assumption
  rw [updateCounterFile_of_no_error new hload herror]
  exact overridden_iff new (read_getD hold)

/-- On files that can be named, the key file follows the table of `updateCounter`. -/
theorem updateCounterFile_refines (new : Progresses)
    (hload : ∀ e, io.loadFromFile = some e → e.code = .fileNoent → counterFile = none)
    (hold : applicationProgressInStateFile (loadKeyFile counterFile) = .ok old)
    (hnamed : ∀ name ∈ new.getKeys, isGroupName name = true) :
    let counter := counterFile.map fun _ => old
    (updateCounterFile io counterFile new).1 = (updateCounter io counter new).1 ∧
      ∃ t t', applicationProgressInStateFile
          (loadKeyFile (updateCounterFile io counterFile new).2) = .ok t ∧
        applicationProgressInStatePath .reliable (updateCounter io counter new).2 = .ok t' ∧
        ∀ name, t.lookup name = t'.lookup name := by
  intro counter
  have hcounter : ∀ name, (counter.getD GHashTable.empty).lookup name = old.lookup name := by
    intro name
    cases hfile : counterFile with
    | some file => simp [counter, hfile]
    | none =>
        rw [hfile] at hold
        cases hold
        simp [counter, hfile]
  cases herror : io.error with
  | some e =>
      -- neither is changed
      rw [updateCounterFile_eq, updateCounter_eq, herror]
      exact ⟨rfl, old, _, hold, rfl, fun name => (hcounter name).symm⟩
  | none =>
      obtain ⟨t, hread, hover⟩ := (overridden_iff new (read_getD hold)).2 hnamed
      rw [updateCounterFile_of_no_error new hload herror, updateCounter_eq, herror]
      refine ⟨rfl, t, _, hread, rfl, fun name => ?_⟩
      rw [hover name, Option.getD_some, GHashTable.lookup_setAll, GHashTable.lookup_setAll]
      by_cases hsome : io.loadFromFile.isSome = true
      · rw [if_pos hsome, ← hcounter name]
        simp [counter, eq_none_of_load hload herror hsome]
      · rw [if_neg hsome, hcounter name]

/-- The serial of a file with brackets in its name is lost, although the update succeeds. The parser
reads such a file as any other. -/
theorem brackets_lost :
    let counterFile := some (KeyFile.empty.setInt64 "10-a.json" "Progress" 1)
    let old := GHashTable.empty.replace "10-a.json" (1 : Int32)
    let new := GHashTable.empty.replace "a[b].json" (3 : Int32)
    ".json".toList.isSuffixOf "a[b].json".toList = true ∧
      applicationProgressInStateFile (loadKeyFile counterFile) = .ok old ∧
      (updateCounterFile .reliable counterFile new).1 = .ok () ∧
      ¬ ∃ t, applicationProgressInStateFile
          (loadKeyFile (updateCounterFile .reliable counterFile new).2) = .ok t ∧
        Overridden old new t := by
  intro counterFile old new
  have hold : applicationProgressInStateFile (loadKeyFile counterFile) = .ok old := by
    decide +kernel
  refine ⟨by decide +kernel, hold, by decide +kernel, fun hread => ?_⟩
  have hnamed := (overridden_iff new hold).1 hread "a[b].json" (by decide +kernel)
  revert hnamed
  decide +kernel

/-- The serial of a file with a plain name is kept, beside that of another. -/
theorem plainName_kept :
    let counterFile := some (KeyFile.empty.setInt64 "10-a.json" "Progress" 1)
    let old := GHashTable.empty.replace "10-a.json" (1 : Int32)
    let new := GHashTable.empty.replace "20-b.json" (3 : Int32)
    ∃ t, applicationProgressInStateFile
        (loadKeyFile (updateCounterFile .reliable counterFile new).2) = .ok t ∧
      Overridden old new t := by
  intro counterFile old new
  exact (counter_roundtrip_iff .reliable counterFile old new (fun _ h => by cases h)
    (by decide +kernel) (by decide +kernel)).2 (by decide +kernel)

end Eufi
