import EosUpdater.GLib.Base64
import EosUpdater.GLib.HashTable
import EosUpdater.GLib.Markup
import EosUpdater.Updater.Ostree

/-!
# Avahi service files

`avahi-service-file.c` of the utility library: the file by which Avahi advertises the refs of a
repository and the timestamp of its summary, as TXT records of a DNS-SD service. The options of the
records are checked as they are used.

A failed generation leaves the directory as it is (`serviceFileGenerate_error`), and a successful
one has put the file there (`serviceFileGenerate_ok`).
-/

namespace Avahi

open Euu Updater

/-! ### Options -/

/-- The options, as far as they are given with a value of their type. -/
structure Options where
  forceVersion : Option UInt8
  bloomHashId : Option UInt8
  bloomK : Option UInt8
  bloomSize : Option UInt32
  repositoryIndex : Option UInt16
  port : Option UInt16
  txtRecordsSizeLevel : Option UInt8
  txtRecordsCustomSize : Option UInt64

/-- No options are given. -/
def Options.default : Options := ⟨none, none, none, none, none, none, none, none⟩

/-- What the code uses of GLib and of the configuration of the build. -/
structure Environment where
  /-- `EOS_AVAHI_PORT`. -/
  avahiPort : UInt16
  /-- `ostree_collection_ref_bloom_hash`. -/
  collectionRefBloomHash : OstreeCollectionRef → UInt8 → UInt64
  /-- `g_base64_encode`. -/
  base64Encode : List UInt8 → String
  /-- `g_markup_escape_text`. -/
  markupEscapeText : String → String

/-- The functions of GLib. -/
def glibEnvironment (avahiPort : UInt16)
    (collectionRefBloomHash : OstreeCollectionRef → UInt8 → UInt64) : Environment where
  avahiPort := avahiPort
  collectionRefBloomHash := collectionRefBloomHash
  base64Encode := GLib.base64Encode
  markupEscapeText := GLib.markupEscapeText

/-- The functions of GLib, with refs hashed by the lengths of their names. -/
def sampleEnvironment : Environment :=
  glibEnvironment 43381 fun ref i =>
    UInt64.ofNat (ref.refName.length * 17) + i.toUInt64 * 31

/-- An error of the domain `G_IO_ERROR` without a code of its own. -/
def failed (message : String) : GError := ⟨.ioFailed, message⟩

/-- `get_and_check_version`. -/
def getAndCheckVersion (options : Options) : Except GError UInt8 :=
  let version := options.forceVersion.getD 1
  if version = 0 || version > 1 then
    .error (failed ("unknown TXT record version: " ++ toString version))
  else .ok version

/-- `get_and_check_avahi_service_port`. -/
def getAndCheckAvahiServicePort (env : Environment) (options : Options) : Except GError UInt16 :=
  let port := options.port.getD env.avahiPort
  if port = 0 then .error (failed "invalid port number 0") else .ok port

/-- The size that is left for the bloom filter in a TXT record. -/
def maxBloomSize : UInt32 := 255 - 2 - 3

/-- `get_and_check_bloom_size`. -/
def getAndCheckBloomSize (options : Options) : Except GError UInt32 :=
  let bloomSize := options.bloomSize.getD maxBloomSize
  if bloomSize = 0 then .error (failed "bloom filter size must be greater than zero")
  else if bloomSize > maxBloomSize then
    .error (failed ("bloom filter with size " ++ toString bloomSize
      ++ " is too large to be sent via DNS-SD records, maximum allowed size is "
      ++ toString maxBloomSize))
  else .ok bloomSize

/-- `get_and_check_bloom_k`. -/
def getAndCheckBloomK (options : Options) : Except GError UInt8 :=
  let bloomK := options.bloomK.getD 1
  if bloomK = 0 then .error (failed "bloom k parameter must be greater than zero") else .ok bloomK

/-- `get_and_check_bloom_hash_func_id`. There is one function. -/
def getAndCheckBloomHashFuncId (options : Options) : Except GError UInt8 :=
  let bloomHashId := options.bloomHashId.getD 1
  if bloomHashId = 1 then .ok bloomHashId
  else .error (failed ("unknown bloom hash function id " ++ toString bloomHashId))

/-- `EosOstreeAvahiSizeLevel`. -/
inductive SizeLevel
  | custom (limit : UInt64)
  | supportFaultyHardware
  | fitSingleDnsMessage
  | fitSingleEthernetPacket
  | fitSingleMulticastDnsPacket
  | fit16BitLimit
  | absolutelyLax
deriving DecidableEq, Repr

/-- `get_and_check_txt_records_size_level`, with the limit of the custom level. -/
def getAndCheckTxtRecordsSizeLevel (options : Options) : Except GError SizeLevel :=
  match (options.txtRecordsSizeLevel.getD 2).toNat with
  | 0 =>
      match options.txtRecordsCustomSize with
      | none => .error (failed ("custom size level set, but no custom size limit passed to the " ++
          "options or it is of wrong type"))
      | some limit => .ok (.custom limit)
  | 1 => .ok .supportFaultyHardware
  | 2 => .ok .fitSingleDnsMessage
  | 3 => .ok .fitSingleEthernetPacket
  | 4 => .ok .fitSingleMulticastDnsPacket
  | 5 => .ok .fit16BitLimit
  | 6 => .ok .absolutelyLax
  | sizeLevel => .error (failed ("unknown value " ++ toString sizeLevel ++
      " for the txt-records-size-level option"))

/-- The limit of a level, if it has one. -/
def SizeLevel.limit : SizeLevel → Option UInt64
  | custom limit => some limit
  | supportFaultyHardware => some 256
  | fitSingleDnsMessage => some 400
  | fitSingleEthernetPacket => some 1300
  | fitSingleMulticastDnsPacket => some 8900
  | fit16BitLimit => some 65535
  | absolutelyLax => none

/-! ### Bloom filters -/

/-- `ostree_bloom_set_bit`. -/
def bloomSetBit (bytes : List UInt8) (idx : ℕ) : List UInt8 :=
  bytes.modify (idx / 8) fun byte => byte ||| 1 <<< UInt8.ofNat (idx % 8)

/-- `ostree_bloom_add_element`. -/
def bloomAddElement (env : Environment) (k : UInt8) (bytes : List UInt8)
    (element : OstreeCollectionRef) : List UInt8 :=
  (List.range k.toNat).foldl
    (fun bytes i => bloomSetBit bytes
      ((env.collectionRefBloomHash element (UInt8.ofNat i)).toNat % (bytes.length * 8)))
    bytes

/-- `get_bloom_filter_data`: `k`, the ID of the hash function, and the bits. -/
def getBloomFilterData (env : Environment) (refsToAdvertise : List OstreeCollectionRef)
    (options : Options) : Except GError (UInt8 × UInt8 × List UInt8) := do
  let bloomSize ← getAndCheckBloomSize options
  let bloomK ← getAndCheckBloomK options
  let bloomHashFuncId ← getAndCheckBloomHashFuncId options
  let filter := List.replicate bloomSize.toNat 0
  return (bloomK, bloomHashFuncId, refsToAdvertise.foldl (bloomAddElement env bloomK) filter)

/-! ### TXT records -/

/-- A TXT record: its key, and its value as the bytes of a variant. -/
abbrev TxtRecord := String × List UInt8

/-- The bytes of a number, the most significant one first. -/
def bigEndian (size n : ℕ) : List UInt8 :=
  (List.range size).reverse.map fun i => UInt8.ofNat (n / 256 ^ i)

/-- The records of version 1. -/
def txtRecords (bloom : UInt8 × UInt8 × List UInt8) (summaryTimestamp : UInt64)
    (repositoryIndex : UInt16) : List TxtRecord :=
  [("v", [1]),
    ("rb", bloom.1 :: bloom.2.1 :: bloom.2.2),
    ("st", bigEndian 8 summaryTimestamp.toNat),
    ("ri", bigEndian 2 repositoryIndex.toNat)]

/-- `record_size` in `handle_binary_record`. -/
def recordSize (record : TxtRecord) : ℕ := record.2.length + record.1.utf8ByteSize + 1

/-- The line of `handle_binary_record` for a record. -/
def recordLine (env : Environment) (record : TxtRecord) : String :=
  "    <txt-record value-format=\"binary-base64\">" ++ env.markupEscapeText record.1 ++ "=" ++
    env.markupEscapeText (env.base64Encode record.2) ++ "</txt-record>\n"

/-- The loop of `txt_records_to_string`: the lines, and the total size. -/
def handleRecords (env : Environment) : List TxtRecord → Except GError (String × ℕ)
  | [] => .ok ("", 0)
  | record :: records =>
      if recordSize record > 255 then
        .error (failed ("the TXT record with key " ++ record.1 ++ " is longer than 255 bytes"))
      else
        match handleRecords env records with
        | .error e => .error e
        | .ok (lines, totalSize) =>
            -- a record is a string with a byte for its length in front
            .ok (recordLine env record ++ lines, 1 + recordSize record + totalSize)

/-- `validate_total_size`. -/
def validateTotalSize (totalSize : ℕ) (options : Options) : Except GError Unit :=
  match getAndCheckTxtRecordsSizeLevel options with
  | .error e => .error e
  | .ok sizeLevel =>
      match sizeLevel.limit with
      | none => .ok ()
      | some limit =>
          if totalSize > limit.toNat then
            .error (failed ("TXT records of size " ++ toString totalSize
              ++ " break the limit of " ++ toString limit ++ " bytes"))
          else .ok ()

/-- `txt_records_to_string`. -/
def txtRecordsToString (env : Environment) (records : List TxtRecord) (options : Options) :
    Except GError String := do
  let (lines, totalSize) ← handleRecords env records
  validateTotalSize totalSize options
  return lines

/-- `generate_from_avahi_service_template`. -/
def generateFromAvahiServiceTemplate (env : Environment) (name type : String) (port : UInt16)
    (records : List TxtRecord) (options : Options) : Except GError String := do
  let txtRecordsStr ← txtRecordsToString env records options
  return "<service-group>\n" ++
    "  <name replace-wildcards=\"yes\">" ++ env.markupEscapeText name ++ "</name>\n" ++
    "  <service>\n" ++
    "    <type>" ++ env.markupEscapeText type ++ "</type>\n" ++
    "    <port>" ++ toString port ++ "</port>\n" ++
    txtRecordsStr ++
    "  </service>\n" ++
    "</service-group>\n"

/-- `get_unix_summary_timestamp`. -/
def getUnixSummaryTimestamp (summaryTimestamp : Int64) : Except GError UInt64 :=
  if summaryTimestamp < 0 then
    .error (failed ("invalid summary timestamp " ++ toString summaryTimestamp.toInt))
  else .ok summaryTimestamp.toUInt64

/-- The contents that `generate_ostree_avahi_v1_service_file` writes. -/
def v1ServiceFile (env : Environment) (refsToAdvertise : List OstreeCollectionRef)
    (summaryTimestamp : Int64) (options : Options) : Except GError String := do
  let bloom ← getBloomFilterData env refsToAdvertise options
  let port ← getAndCheckAvahiServicePort env options
  let summaryTimestampUnix ← getUnixSummaryTimestamp summaryTimestamp
  generateFromAvahiServiceTemplate env "EOS OSTree update service on %h" "_ostree_repo._tcp" port
    (txtRecords bloom summaryTimestampUnix (options.repositoryIndex.getD 0)) options

/-- What `eos_ostree_avahi_service_file_generate` writes. Version 1 is the only one. -/
def serviceFileContents (env : Environment) (refsToAdvertise : List OstreeCollectionRef)
    (summaryTimestamp : Int64) (options : Options) : Except GError String := do
  let _ ← getAndCheckVersion options
  v1ServiceFile env refsToAdvertise summaryTimestamp options

/-! ### The directory -/

/-- The contents of the files in a directory, by name. -/
abbrev Directory := GHashTable String String

/-- How operations on the directory fail, other than for want of a file. -/
structure DirectoryIO where
  /-- `g_file_replace_contents`. -/
  replaceContents : Option GError
  /-- `g_file_delete`, by the name of the file. -/
  delete : String → Option GError

/-- Every operation succeeds. -/
def DirectoryIO.reliable : DirectoryIO := ⟨none, fun _ => none⟩

/-- `g_file_delete`. -/
def fileDelete (io : DirectoryIO) (directory : Directory) (name : String) :
    Except GError Unit × Directory :=
  match directory.lookup name with
  | none => (.error ⟨.ioNotFound, "Error removing file: No such file or directory"⟩, directory)
  | some _ =>
      match io.delete name with
      | some e => (.error e, directory)
      | none => (.ok (), directory.remove name)

/-- `delete_file_if_exists`. -/
def deleteFileIfExists (io : DirectoryIO) (directory : Directory) (name : String) :
    Except GError Unit × Directory :=
  match fileDelete io directory name with
  | (.ok (), directory) => (.ok (), directory)
  | (.error localError, directory) =>
      if localError.code ≠ .ioNotFound then (.error localError, directory) else (.ok (), directory)

/-- `get_ostree_service_file`. -/
def ostreeServiceFile (repositoryIndex : UInt16) : String :=
  "eos-ostree-updater-" ++ toString repositoryIndex ++ ".service"

/-- `eos_ostree_avahi_service_file_generate`. Without refs it is a programming error, and no error
is set. -/
def serviceFileGenerate (env : Environment) (io : DirectoryIO) (directory : Directory)
    (refsToAdvertise : List OstreeCollectionRef) (summaryTimestamp : Int64) (options : Options) :
    Except (Option GError) Unit × Directory :=
  if refsToAdvertise = [] then (.error none, directory)
  else
    -- every check is made before the file is written
    match serviceFileContents env refsToAdvertise summaryTimestamp options with
    | .error e => (.error (some e), directory)
    | .ok contents =>
        match io.replaceContents with
        -- the old file stays in place
        | some e => (.error (some e), directory)
        | none =>
            (.ok (), directory.replace
              (ostreeServiceFile (options.repositoryIndex.getD 0)) contents)

/-- `eos_ostree_avahi_service_file_delete`. -/
def serviceFileDelete (io : DirectoryIO) (directory : Directory) (repositoryIndex : UInt16) :
    Except GError Unit × Directory :=
  deleteFileIfExists io directory (ostreeServiceFile repositoryIndex)

/-! ### What generating and deleting do -/

variable {env : Environment} {io : DirectoryIO} {directory : Directory}
variable {refs : List OstreeCollectionRef} {summaryTimestamp : Int64} {options : Options}

/-- Where generating fails, the directory is as it was. -/
theorem serviceFileGenerate_error {e : Option GError} {directory' : Directory}
    (h : serviceFileGenerate env io directory refs summaryTimestamp options =
      (.error e, directory')) : directory' = directory := by
  rw [serviceFileGenerate] at h
  split at h
  · cases h
    rfl
  split at h
  · cases h
    rfl
  split at h
  · cases h
    rfl
  · cases h

/-- Where it succeeds, the file has the contents made from the refs and the timestamp. -/
theorem serviceFileGenerate_ok {directory' : Directory}
    (h : serviceFileGenerate env io directory refs summaryTimestamp options =
      (.ok (), directory')) :
    ∃ contents, serviceFileContents env refs summaryTimestamp options = .ok contents ∧
      directory'.lookup (ostreeServiceFile (options.repositoryIndex.getD 0)) = some contents := by
  rw [serviceFileGenerate] at h
  split at h
  · cases h
  split at h
  · cases h
  next contents hcontents =>
    split at h
    · cases h
    · cases h
      exact ⟨contents, hcontents, by simp⟩

/-- Deleting another file leaves a file as it is. -/
theorem lookup_fileDelete_of_ne {name name' : String} (hne : name ≠ name') :
    (fileDelete io directory name).2.lookup name' = directory.lookup name' := by
  rw [fileDelete]
  split
  · rfl
  split
  · rfl
  · exact GHashTable.lookup_remove_of_ne _ hne

/-- If deletion works, a file is gone after it. -/
theorem lookup_deleteFileIfExists {name : String} (hdelete : io.delete name = none) :
    (deleteFileIfExists io directory name).2.lookup name = none := by
  rw [deleteFileIfExists, fileDelete]
  cases hlookup : directory.lookup name with
  | none =>
      show directory.lookup name = none
      exact hlookup
  | some contents =>
      simp only [hdelete]
      exact GHashTable.lookup_remove_self _ _

end Avahi
