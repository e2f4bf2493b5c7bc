import EosUpdater.Avahi.ServiceFile
import EosUpdater.GLib.Unsigned

/-!
# Cleaning up the service files

`eos_ostree_avahi_service_file_cleanup_directory` deletes the service files of all repositories. It
knows them by a regular expression, and by the number in their names being a repository index,
whereas `get_ostree_service_file` writes this number without zeros in front, and nothing behind
`.service`. A file with a zero too many, or with a newline at the end, which `$` allows, therefore
passes for one of them (`Lookalike`), and the cleanup deletes exactly the service files where there
is no such file (`cleanup_exact_iff`).
-/

namespace Avahi

open Euu Updater GLib

/-! ### The names -/

/-- What `$` matches: the end of the text, and one newline in front of it, of any kind. -/
def dollarEndings : List String :=
  ["", "\n", "\r", "\r\n", "\x0b", "\x0c", "\u0085", "\u2028", "\u2029"]

/-- The match of `^eos-ostree-updater-([0-9]+)\.service$`: its group. The digits end where there is
none, as no other end is followed by a dot. -/
def matchServiceFile (filename : String) : Option String :=
  if "eos-ostree-updater-".toList <+: filename.toList then
    let text := filename.toList.drop "eos-ostree-updater-".length
    let digits := text.takeWhile Char.isDigit
    let rest := text.dropWhile Char.isDigit
    if digits ≠ [] ∧ ∃ ending ∈ dollarEndings, rest = (".service" ++ ending).toList then
      some (String.ofList digits)
    else none
  else none

/-- `iterate_and_remove_ostree_service_files`, over the names that the enumerator has yet to come
to, and the error that it ends with, if any. -/
def iterateAndRemoveOstreeServiceFiles (io : DirectoryIO) (failure : Option GError) :
    List String → Directory → Except GError Unit × Directory
  | [], directory => (failure.elim (.ok ()) .error, directory)
  | filename :: filenames, directory =>
      match matchServiceFile filename with
      | none => iterateAndRemoveOstreeServiceFiles io failure filenames directory
      | some matchedRepositoryIndex =>
          match asciiStringToUnsigned matchedRepositoryIndex 0 65535 with
          | .error _ => iterateAndRemoveOstreeServiceFiles io failure filenames directory
          | .ok _ =>
              match deleteFileIfExists io directory filename with
              | (.error e, directory) => (.error e, directory)
              | (.ok (), directory) =>
                  iterateAndRemoveOstreeServiceFiles io failure filenames directory

/-- What an enumerator of a directory yields: every name once, in some order, unless it fails. -/
structure Enumerator (directory : Directory) where
  names : List String
  failure : Option GError
  complete : failure = none → names.Perm directory.getKeys

/-- `eos_ostree_avahi_service_file_cleanup_directory`, from what `g_file_enumerate_children`
returns. -/
def serviceFileCleanupDirectory (io : DirectoryIO) (directory : Directory)
    (enumerator : Except GError (Enumerator directory)) : Except GError Unit × Directory :=
  match enumerator with
  | .error e => (.error e, directory)
  | .ok enumerator =>
      iterateAndRemoveOstreeServiceFiles io enumerator.failure enumerator.names directory

/-- The cleanup takes a file of this name for a service file. -/
def isRecognised (filename : String) : Bool :=
  match matchServiceFile filename with
  | none => false
  | some matchedRepositoryIndex =>
      (asciiStringToUnsigned matchedRepositoryIndex 0 65535).toOption.isSome

/-- The name with this repository index and this ending. -/
def serviceName (repositoryIndex ending : String) : String :=
  "eos-ostree-updater-" ++ repositoryIndex ++ ".service" ++ ending

theorem serviceName_eq (repositoryIndex ending : String) :
    serviceName repositoryIndex ending =
      "eos-ostree-updater-" ++ repositoryIndex ++ ".service" ++ ending := rfl

theorem toList_serviceName (repositoryIndex ending : String) :
    (serviceName repositoryIndex ending).toList =
      "eos-ostree-updater-".toList ++
        (repositoryIndex.toList ++ (".service" ++ ending).toList) := by
  simp only [serviceName_eq, String.toList_append, List.append_assoc]

/-- A name that passes for that of a service file: the repository index in it has a zero to spare,
or there is a newline at the end. -/
def Lookalike (filename : String) : Prop :=
  ∃ digits ending, IsDecimal digits ∧ Nat.ofDigitChars 10 digits 0 ≤ 65535 ∧
    ending ∈ dollarEndings ∧ (HasLeadingZero digits ∨ ending ≠ "") ∧
    filename = serviceName (String.ofList digits) ending

/-- A prefix of digits ends where the dot of `.service` is. -/
theorem takeWhile_digits {digits : List Char} (h : ∀ c ∈ digits, c.isDigit = true)
    (ending : String) :
    (digits ++ (".service" ++ ending).toList).takeWhile Char.isDigit = digits ∧
      (digits ++ (".service" ++ ending).toList).dropWhile Char.isDigit =
        (".service" ++ ending).toList := by
  rw [List.takeWhile_append_of_pos h, List.dropWhile_append_of_pos h, String.toList_append]
  exact ⟨List.append_nil _, rfl⟩

/-- **The regular expression.** -/
theorem matchServiceFile_eq_some_iff {filename digits : String} :
    matchServiceFile filename = some digits ↔ IsDecimal digits.toList ∧ ∃ ending ∈ dollarEndings,
      filename = serviceName digits ending := by
  rw [matchServiceFile]
  constructor
  · intro h
    dsimp only at h
    split_ifs at h with hprefix hmatch
    obtain ⟨text, htext⟩ := hprefix
    obtain ⟨hne, ending, hending, hrest⟩ := hmatch
    have hdrop : filename.toList.drop "eos-ostree-updater-".length = text := by
      rw [← htext, ← String.length_toList, List.drop_left]
    rw [hdrop] at h hne hrest
    have hdigits := Option.some.inj h
    have hlist : digits.toList = text.takeWhile Char.isDigit := by
      rw [← hdigits, String.toList_ofList]
    refine ⟨⟨hlist ▸ hne, fun c hc => List.mem_takeWhile_imp (hlist ▸ hc)⟩, ending, hending, ?_⟩
    apply String.toList_inj.1
    rw [← htext, toList_serviceName, hlist, ← hrest, List.takeWhile_append_dropWhile]
  · rintro ⟨⟨hne, hdigits⟩, ending, hending, rfl⟩
    obtain ⟨hfirst, hrest⟩ := takeWhile_digits hdigits ending
    rw [toList_serviceName, ← String.length_toList, List.drop_left, if_pos (List.prefix_append _ _)]
    simp only [hfirst, hrest]
    rw [if_pos ⟨hne, ending, hending, rfl⟩, String.ofList_toList]

/-- A name is recognised exactly if there is a repository index in it, however it is written. -/
theorem isRecognised_iff {filename : String} : isRecognised filename = true ↔
    ∃ digits ending, IsDecimal digits ∧ Nat.ofDigitChars 10 digits 0 ≤ 65535 ∧
      ending ∈ dollarEndings ∧
      filename = serviceName (String.ofList digits) ending := by
  have hmatched : isRecognised filename = true ↔ ∃ digits, matchServiceFile filename = some digits ∧
      ∃ n, asciiStringToUnsigned digits 0 65535 = .ok n := by
    rw [isRecognised]
    cases matchServiceFile filename with
    | none => simp
    | some digits => simp [Option.isSome_iff_exists]
  rw [hmatched]
  constructor
  · rintro ⟨digits, hmatch, n, hn⟩
    obtain ⟨-, ending, hending, rfl⟩ := matchServiceFile_eq_some_iff.1 hmatch
    obtain ⟨hdecimal, rfl, -, hmax⟩ := (asciiStringToUnsigned_eq_ok_iff (by decide)).1 hn
    exact ⟨digits.toList, ending, hdecimal, hmax, hending, by rw [String.ofList_toList]⟩
  · rintro ⟨digits, ending, hdecimal, hmax, hending, rfl⟩
    have hdecimal' : IsDecimal (String.ofList digits).toList := by rwa [String.toList_ofList]
    refine ⟨String.ofList digits,
      matchServiceFile_eq_some_iff.2 ⟨hdecimal', ending, hending, rfl⟩, _,
      (asciiStringToUnsigned_eq_ok_iff (by decide)).2 ⟨hdecimal', rfl, Nat.zero_le _, ?_⟩⟩
    rwa [String.toList_ofList]

/-- The digits and the ending can be told from the name. -/
theorem serviceName_inj {digits digits' ending ending' : String}
    (h : IsDecimal digits.toList) (h' : IsDecimal digits'.toList)
    (heq : serviceName digits ending = serviceName digits' ending') :
    digits = digits' ∧ ending = ending' := by
  have hlist := congrArg String.toList heq
  rw [toList_serviceName, toList_serviceName] at hlist
  have htext := List.append_cancel_left hlist
  obtain ⟨hdigits, hrest⟩ := takeWhile_digits h.2 ending
  obtain ⟨hdigits', hrest'⟩ := takeWhile_digits h'.2 ending'
  rw [htext] at hdigits hrest
  have hending := hrest.symm.trans hrest'
  rw [String.toList_append, String.toList_append] at hending
  exact ⟨String.toList_inj.1 (hdigits.symm.trans hdigits'),
    String.toList_inj.1 (List.append_cancel_left hending)⟩

theorem ostreeServiceFile_eq (repositoryIndex : UInt16) :
    ostreeServiceFile repositoryIndex =
      serviceName (String.ofList (Nat.toDigits 10 repositoryIndex.toNat)) "" := by
  rw [serviceName_eq, String.append_empty, ← Nat.toString_eq_ofList_toDigits]
  rfl

/-- The names of service files are recognised, and those of lookalikes. -/
theorem isRecognised_iff_service {filename : String} : isRecognised filename = true ↔
    (∃ repositoryIndex, filename = ostreeServiceFile repositoryIndex) ∨ Lookalike filename := by
  rw [isRecognised_iff]
  constructor
  · rintro ⟨digits, ending, hdecimal, hmax, hending, hname⟩
    by_cases hspare : HasLeadingZero digits ∨ ending ≠ ""
    · exact Or.inr ⟨digits, ending, hdecimal, hmax, hending, hspare, hname⟩
    · rw [not_or, not_not] at hspare
      refine Or.inl ⟨UInt16.ofNat (Nat.ofDigitChars 10 digits 0), ?_⟩
      have hlt : Nat.ofDigitChars 10 digits 0 < 2 ^ 16 := by omega
      rw [ostreeServiceFile_eq, UInt16.toNat_ofNat_of_lt' hlt,
        (toDigits_ofDigitChars_iff hdecimal).2 hspare.1, hname, hspare.2]
  · rintro (⟨repositoryIndex, hname⟩ | ⟨digits, ending, hdecimal, hmax, hending, -, hname⟩)
    · have hlt := repositoryIndex.toNat_lt
      rw [ostreeServiceFile_eq] at hname
      refine ⟨_, "", isDecimal_toDigits _, ?_, List.mem_cons_self, hname⟩
      rw [Nat.ofDigitChars_ten_toDigits]
      omega
    · exact ⟨digits, ending, hdecimal, hmax, hending, hname⟩

/-- A lookalike is not a service file. -/
theorem Lookalike.ne_ostreeServiceFile {filename : String} (h : Lookalike filename)
    (repositoryIndex : UInt16) : filename ≠ ostreeServiceFile repositoryIndex := by
  obtain ⟨digits, ending, hdecimal, -, -, hspare, hname⟩ := h
  intro heq
  rw [ostreeServiceFile_eq] at heq
  obtain ⟨hdigits, hending⟩ := serviceName_inj (by rwa [String.toList_ofList])
    (by rw [String.toList_ofList]; exact isDecimal_toDigits _) (hname.symm.trans heq)
  refine hspare.elim (fun hzero => ?_) (fun hne => hne hending)
  refine (toDigits_ofDigitChars_iff hdecimal).1 ?_ hzero
  rw [String.ofList_injective hdigits, Nat.ofDigitChars_ten_toDigits]

/-! ### The directory -/

/-- Deleting fails with `G_IO_ERROR_NOT_FOUND` only for want of the file. -/
def DirectoryIO.ReportsMissing (io : DirectoryIO) : Prop :=
  ∀ name e, io.delete name = some e → e.code ≠ .ioNotFound

/-- After the cleanup there is no service file, and everything else is as it was. -/
structure CleansExactly (before after : Directory) : Prop where
  deleted : ∀ repositoryIndex, after.lookup (ostreeServiceFile repositoryIndex) = none
  kept : ∀ name, (∀ repositoryIndex, name ≠ ostreeServiceFile repositoryIndex) →
    after.lookup name = before.lookup name

variable {io : DirectoryIO} {directory directory' : Directory}

/-- Where deleting succeeds, the file is gone, and no other one. -/
theorem lookup_of_deleteFileIfExists {filename : String} (hio : io.ReportsMissing)
    (h : deleteFileIfExists io directory filename = (.ok (), directory')) (name : String) :
    directory'.lookup name = if filename = name then none else directory.lookup name := by
  have hdirectory : (deleteFileIfExists io directory filename).2 = directory' := by rw [h]
  split
  · next heq =>
    cases hdelete : io.delete filename with
    | none => rw [← heq, ← hdirectory, lookup_deleteFileIfExists hdelete]
    | some e =>
        rw [deleteFileIfExists, fileDelete] at h
        cases hlookup : directory.lookup filename with
        | none =>
            simp only [hlookup, ne_eq, not_true, if_false] at h
            rw [← (Prod.mk.inj h).2, ← heq, hlookup]
        | some contents =>
            -- the error is not one that is passed over
            simp only [hlookup, hdelete, if_pos (hio _ e hdelete)] at h
            cases (Prod.mk.inj h).1
  · next hne =>
    have hother : (fileDelete io directory filename).2.lookup name = directory.lookup name :=
      lookup_fileDelete_of_ne hne
    rw [← hdirectory, deleteFileIfExists, ← hother]
    split
    · next hdeleted => rw [hdeleted]
    · next hdeleted => split <;> rw [hdeleted]

/-- A name of the right form is recognised exactly if its digits are a 16-bit number. -/
theorem isRecognised_of_match {filename digits : String}
    (h : matchServiceFile filename = some digits) :
    isRecognised filename = (asciiStringToUnsigned digits 0 65535).toOption.isSome := by
  rw [isRecognised, h]

/-- **The loop.** If it comes to its end, the files whose names are recognised are gone, and no
other ones. -/
theorem lookup_of_iterate {failure : Option GError} {filenames : List String}
    (hio : io.ReportsMissing)
    (h : iterateAndRemoveOstreeServiceFiles io failure filenames directory = (.ok (), directory')) :
    failure = none ∧ ∀ name, directory'.lookup name =
      if name ∈ filenames ∧ isRecognised name = true then none else directory.lookup name := by
  induction filenames generalizing directory with
  | nil =>
      rw [iterateAndRemoveOstreeServiceFiles] at h
      cases failure with
      | none =>
          cases h
          exact ⟨rfl, fun name => by simp⟩
      | some e => cases (Prod.mk.inj h).1
  | cons filename filenames ih =>
      -- a name that is not recognised is passed over
      have hpass : isRecognised filename = false →
          iterateAndRemoveOstreeServiceFiles io failure filenames directory = (.ok (), directory') →
            failure = none ∧ ∀ name, directory'.lookup name =
              if name ∈ filename :: filenames ∧ isRecognised name = true then none
              else directory.lookup name := by
        intro hnot hrest
        refine (ih hrest).imp_right fun hlookup name => ?_
        rw [hlookup name]
        refine if_congr ?_ rfl rfl
        rw [List.mem_cons, or_and_right, or_iff_right]
        rintro ⟨rfl, hrecognised⟩
        rw [hnot] at hrecognised
        cases hrecognised
      rw [iterateAndRemoveOstreeServiceFiles] at h
      split at h
      · next hmatch => exact hpass (by rw [isRecognised, hmatch]) h
      · next digits hmatch =>
        have hrecognised := isRecognised_of_match hmatch
        split at h
        · next hnumber =>
          rw [hnumber] at hrecognised
          exact hpass hrecognised h
        · next hnumber =>
          rw [hnumber] at hrecognised
          split at h
          · cases (Prod.mk.inj h).1
          · next hdelete =>
            refine (ih h).imp_right fun hlookup name => ?_
            rw [hlookup name, lookup_of_deleteFileIfExists hio hdelete]
            by_cases heq : filename = name
            · subst heq
              simp [show isRecognised filename = true from hrecognised]
            · simp [heq, Ne.symm heq]

/-- What the cleanup leaves in the directory. -/
theorem lookup_of_cleanup {enumerator : Except GError (Enumerator directory)}
    (hio : io.ReportsMissing)
    (h : serviceFileCleanupDirectory io directory enumerator = (.ok (), directory'))
    (name : String) : directory'.lookup name =
      if isRecognised name = true then none else directory.lookup name := by
  cases enumerator with
  | error e => cases (Prod.mk.inj h).1
  | ok enumerator =>
      obtain ⟨hfailure, hlookup⟩ := lookup_of_iterate hio h
      have hmem : name ∈ enumerator.names ↔ ∃ contents, directory.lookup name = some contents := by
        rw [(enumerator.complete hfailure).mem_iff, GHashTable.mem_getKeys_iff]
      rw [hlookup name]
      cases hcontents : directory.lookup name with
      | none => simp
      | some contents => simp [hmem.2 ⟨contents, hcontents⟩]

/-- **The cleanup is exact** unless there is a file whose name passes for that of a service file. -/
theorem cleanup_exact_iff {enumerator : Except GError (Enumerator directory)}
    (hio : io.ReportsMissing)
    (h : serviceFileCleanupDirectory io directory enumerator = (.ok (), directory')) :
    CleansExactly directory directory' ↔ ∀ name ∈ directory.getKeys, ¬ Lookalike name := by
  have hlookup := lookup_of_cleanup hio h
  constructor
  · intro hexact name hmem hlookalike
    obtain ⟨contents, hcontents⟩ := (GHashTable.mem_getKeys_iff _ _).1 hmem
    have hkept := hexact.kept name hlookalike.ne_ostreeServiceFile
    rw [hlookup name, if_pos (isRecognised_iff_service.2 (Or.inr hlookalike)), hcontents] at hkept
    cases hkept
  · intro hnone
    refine ⟨fun repositoryIndex => ?_, fun name hname => ?_⟩
    · rw [hlookup, if_pos (isRecognised_iff_service.2 (Or.inl ⟨repositoryIndex, rfl⟩))]
    · rw [hlookup]
      split
      · next hrecognised =>
        have hlookalike := (isRecognised_iff_service.1 hrecognised).resolve_left
          fun ⟨repositoryIndex, heq⟩ => hname repositoryIndex heq
        symm
        rw [Option.eq_none_iff_forall_ne_some]
        intro contents hcontents
        exact hnone name ((GHashTable.mem_getKeys_iff _ _).2 ⟨contents, hcontents⟩) hlookalike
      · rfl

/-! ### An example -/

/-- Where every deletion succeeds and all names are listed, the cleanup succeeds. -/
theorem exists_cleanup (enumerator : Enumerator directory) (h : enumerator.failure = none) :
    ∃ directory',
      serviceFileCleanupDirectory .reliable directory (.ok enumerator) = (.ok (), directory') := by
  suffices hloop : ∀ filenames directory, ∃ directory', iterateAndRemoveOstreeServiceFiles .reliable
      none filenames directory = (.ok (), directory') by
    rw [serviceFileCleanupDirectory, h]
    exact hloop enumerator.names directory
  intro filenames
  induction filenames with
  | nil => exact fun directory => ⟨directory, rfl⟩
  | cons filename filenames ih =>
      intro directory
      rw [iterateAndRemoveOstreeServiceFiles]
      split
      · exact ih directory
      split
      · exact ih directory
      split
      · next hdelete =>
        rw [deleteFileIfExists, fileDelete] at hdelete
        cases hlookup : directory.lookup filename with
        | none => simp [hlookup] at hdelete
        | some contents => simp [hlookup, DirectoryIO.reliable] at hdelete
      · exact ih _

/-- On a reliable disk no deletion fails. -/
theorem reliable_reportsMissing : DirectoryIO.reliable.ReportsMissing := nofun

/-- All names of a directory, in the order in which they are stored. -/
def Enumerator.ofDirectory (directory : Directory) : Enumerator directory :=
  ⟨directory.getKeys, none, fun _ => List.Perm.refl _⟩

/-- A directory with one file. -/
def directoryOf (filename : String) : Directory := GHashTable.empty.replace filename "foo"

/-- A directory with the service file of an index and the file of another service. -/
def sharedDirectory : Directory :=
  (directoryOf "eos-ostree-updater-6.service").replace "ssh.service" "bar"

/-- The service file is deleted, and that of the other service is kept. -/
theorem cleanup_exact_index6 : ∃ directory',
    serviceFileCleanupDirectory .reliable sharedDirectory (.ok (.ofDirectory _)) =
      (.ok (), directory') ∧ CleansExactly sharedDirectory directory' := by
  obtain ⟨directory', hdone⟩ := exists_cleanup (.ofDirectory sharedDirectory) rfl
  refine ⟨directory', hdone, (cleanup_exact_iff reliable_reportsMissing hdone).2 ?_⟩
  intro name hname hlookalike
  have hkeys : sharedDirectory.getKeys = ["ssh.service", "eos-ostree-updater-6.service"] := by
    decide +kernel
  rw [hkeys] at hname
  rcases List.mem_pair.1 hname with rfl | rfl
  · exact absurd (isRecognised_iff_service.2 (Or.inr hlookalike)) (by decide +kernel)
  · exact hlookalike.ne_ostreeServiceFile 6 (by decide +kernel)

/-- A file that no repository index gives its name is deleted. -/
theorem cleanup_index007 : ∃ directory',
    serviceFileCleanupDirectory .reliable (directoryOf "eos-ostree-updater-007.service")
      (.ok (.ofDirectory _)) = (.ok (), directory') ∧
    (directoryOf "eos-ostree-updater-007.service").lookup "eos-ostree-updater-007.service" =
      some "foo" ∧
    (∀ repositoryIndex, "eos-ostree-updater-007.service" ≠ ostreeServiceFile repositoryIndex) ∧
    directory'.lookup "eos-ostree-updater-007.service" = none := by
  obtain ⟨directory', hdone⟩ :=
    exists_cleanup (.ofDirectory (directoryOf "eos-ostree-updater-007.service")) rfl
  have hlookalike : Lookalike "eos-ostree-updater-007.service" :=
    ⟨['0', '0', '7'], "", by decide, by decide, by decide, by decide, by decide⟩
  refine ⟨directory', hdone, by simp [directoryOf], hlookalike.ne_ostreeServiceFile, ?_⟩
  rw [lookup_of_cleanup reliable_reportsMissing hdone]
  exact if_pos (isRecognised_iff_service.2 (Or.inr hlookalike))

end Avahi
