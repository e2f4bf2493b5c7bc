import EosUpdater.Avahi.ServiceFile
import EosUpdater.Machine.Program

/-!
# Checking options and generating from them

`eos_ostree_avahi_service_file_check_options` makes the checks that
`eos_ostree_avahi_service_file_generate` makes on its way, in another order, and leaves out the one
that needs the records: whether their total size is within the limit of the size level.

The bound on the size of the bloom filter is the space that a record has left for it, so that
options which are accepted never make a record too long. Generating succeeds exactly if the options
are accepted and the total size is within the limit (`serviceFileGenerate_iff`).
-/

namespace Avahi

open Euu Updater Machine

/-! ### The dictionary -/

/-- The value of an option, of one of the types that are looked up, or of another type. -/
inductive OptionValue
  | byte (value : UInt8)
  | uint16 (value : UInt16)
  | uint32 (value : UInt32)
  | uint64 (value : UInt64)
  | other (type : String)
deriving DecidableEq, Repr

namespace OptionValue

/-- `g_variant_dict_lookup` with the format `y`. -/
def byte? : OptionValue → Option UInt8
  | byte value => some value
  | _ => none

/-- `g_variant_dict_lookup` with the format `q`. -/
def uint16? : OptionValue → Option UInt16
  | uint16 value => some value
  | _ => none

/-- `g_variant_dict_lookup` with the format `u`. -/
def uint32? : OptionValue → Option UInt32
  | uint32 value => some value
  | _ => none

/-- `g_variant_dict_lookup` with the format `t`. -/
def uint64? : OptionValue → Option UInt64
  | uint64 value => some value
  | _ => none

end OptionValue

/-- The options as they are given: a `GVariantDict`, which may have other keys. -/
abbrev OptionsDict := GHashTable String OptionValue

/-- The options that the functions look up. A value of another type counts as none. -/
def OptionsDict.options (dict : OptionsDict) : Options where
  forceVersion := (dict.lookup "force-version").bind OptionValue.byte?
  bloomHashId := (dict.lookup "bloom-hash-id").bind OptionValue.byte?
  bloomK := (dict.lookup "bloom-k").bind OptionValue.byte?
  bloomSize := (dict.lookup "bloom-size").bind OptionValue.uint32?
  repositoryIndex := (dict.lookup "repository-index").bind OptionValue.uint16?
  port := (dict.lookup "port").bind OptionValue.uint16?
  txtRecordsSizeLevel := (dict.lookup "txt-records-size-level").bind OptionValue.byte?
  txtRecordsCustomSize := (dict.lookup "txt-records-custom-size").bind OptionValue.uint64?

/-! ### The check -/

/-- `check_v1_options`. -/
def checkV1Options (env : Environment) (options : Options) : Except GError Unit := do
  -- what they return is of no use here; the summary timestamp is no option
  let _ ← getAndCheckBloomSize options
  let _ ← getAndCheckBloomK options
  let _ ← getAndCheckBloomHashFuncId options
  let _ ← getAndCheckAvahiServicePort env options
  let _ ← getAndCheckTxtRecordsSizeLevel options
  return ()

/-- `eos_ostree_avahi_service_file_check_options`. Version 1 is the only one. -/
def serviceFileCheckOptions (env : Environment) (options : Options) : Except GError Unit := do
  let _ ← getAndCheckVersion options
  checkV1Options env options

/-! ### The records -/

/-- The bloom filter of the refs, with its parameters. -/
def bloomOf (env : Environment) (refs : List OstreeCollectionRef) (options : Options) :
    UInt8 × UInt8 × List UInt8 :=
  (options.bloomK.getD 1, options.bloomHashId.getD 1,
    refs.foldl (bloomAddElement env (options.bloomK.getD 1))
      (List.replicate (options.bloomSize.getD maxBloomSize).toNat 0))

/-- The records that are made of the options, whether or not these are accepted. -/
def recordsOf (env : Environment) (refs : List OstreeCollectionRef) (summaryTimestamp : Int64)
    (options : Options) : List TxtRecord :=
  txtRecords (bloomOf env refs options) summaryTimestamp.toUInt64
    (options.repositoryIndex.getD 0)

/-- What the records take up: a byte for the length, the key, an equals sign and the value of
each. -/
def totalTxtSize (records : List TxtRecord) : ℕ :=
  (records.map fun record => 1 + (record.1.utf8ByteSize + 1 + record.2.length)).sum

/-- The total size is within the limit of the size level, if it has one. -/
def WithinLimit (options : Options) (records : List TxtRecord) : Prop :=
  ∀ sizeLevel limit, getAndCheckTxtRecordsSizeLevel options = .ok sizeLevel →
    sizeLevel.limit = some limit → totalTxtSize records ≤ limit.toNat

/-- All checks of the options succeed. -/
structure Accepted (env : Environment) (options : Options) : Prop where
  version : ∃ version, getAndCheckVersion options = .ok version
  bloomSize : ∃ bloomSize, getAndCheckBloomSize options = .ok bloomSize
  bloomK : ∃ bloomK, getAndCheckBloomK options = .ok bloomK
  bloomHashFuncId : ∃ bloomHashFuncId, getAndCheckBloomHashFuncId options = .ok bloomHashFuncId
  port : ∃ port, getAndCheckAvahiServicePort env options = .ok port
  sizeLevel : ∃ sizeLevel, getAndCheckTxtRecordsSizeLevel options = .ok sizeLevel

section

variable {env : Environment} {io : DirectoryIO} {directory : Directory} {options : Options}
variable {refs : List OstreeCollectionRef} {summaryTimestamp : Int64} {records : List TxtRecord}

/-- The check succeeds exactly if all of its parts do. -/
theorem serviceFileCheckOptions_iff :
    serviceFileCheckOptions env options = .ok () ↔ Accepted env options := by
  constructor
  · intro h
    simp only [serviceFileCheckOptions, checkV1Options, bind, except_bind_ok] at h
    obtain ⟨_, hversion, _, hsize, _, hk, _, hid, port, hport, level, hlevel, -⟩ := h
    exact ⟨⟨_, hversion⟩, ⟨_, hsize⟩, ⟨_, hk⟩, ⟨_, hid⟩, ⟨port, hport⟩, ⟨level, hlevel⟩⟩
  · rintro ⟨⟨_, hversion⟩, ⟨_, hsize⟩, ⟨_, hk⟩, ⟨_, hid⟩, ⟨port, hport⟩, ⟨level, hlevel⟩⟩
    simp only [serviceFileCheckOptions, checkV1Options, bind, except_bind_ok]
    exact ⟨_, hversion, _, hsize, _, hk, _, hid, port, hport, level, hlevel, rfl⟩

/-! ### What the checks return -/

/-- The size that is accepted is the one given, or the largest, and at most the largest. -/
theorem getAndCheckBloomSize_ok {bloomSize : UInt32}
    (h : getAndCheckBloomSize options = .ok bloomSize) :
    bloomSize = options.bloomSize.getD maxBloomSize ∧ bloomSize ≤ maxBloomSize := by
  simp only [getAndCheckBloomSize] at h
  split_ifs at h with hzero hlarge
  obtain rfl := Except.ok.inj h
  exact ⟨rfl, UInt32.not_lt.1 hlarge⟩

/-- The number of hash functions that is accepted is the one given, or one. -/
theorem getAndCheckBloomK_ok {bloomK : UInt8} (h : getAndCheckBloomK options = .ok bloomK) :
    bloomK = options.bloomK.getD 1 := by
  simp only [getAndCheckBloomK] at h
  split_ifs at h
  exact (Except.ok.inj h).symm

/-- The hash function that is accepted is the one given, or the first. -/
theorem getAndCheckBloomHashFuncId_ok {bloomHashFuncId : UInt8}
    (h : getAndCheckBloomHashFuncId options = .ok bloomHashFuncId) :
    bloomHashFuncId = options.bloomHashId.getD 1 := by
  simp only [getAndCheckBloomHashFuncId] at h
  split_ifs at h
  exact (Except.ok.inj h).symm

/-- The filter is made if all its parameters are accepted. -/
theorem getBloomFilterData_ok_iff {bloom : UInt8 × UInt8 × List UInt8} :
    getBloomFilterData env refs options = .ok bloom ↔
      (∃ bloomSize, getAndCheckBloomSize options = .ok bloomSize) ∧
        (∃ bloomK, getAndCheckBloomK options = .ok bloomK) ∧
        (∃ bloomHashFuncId, getAndCheckBloomHashFuncId options = .ok bloomHashFuncId) ∧
        bloom = bloomOf env refs options := by
  simp only [getBloomFilterData, bind, except_bind_ok]
  constructor
  · rintro ⟨bloomSize, hsize, bloomK, hk, bloomHashFuncId, hid, heq⟩
    refine ⟨⟨_, hsize⟩, ⟨_, hk⟩, ⟨_, hid⟩, ?_⟩
    rw [← Except.ok.inj heq, (getAndCheckBloomSize_ok hsize).1, getAndCheckBloomK_ok hk,
      getAndCheckBloomHashFuncId_ok hid]
    rfl
  · rintro ⟨⟨bloomSize, hsize⟩, ⟨bloomK, hk⟩, ⟨bloomHashFuncId, hid⟩, rfl⟩
    refine ⟨bloomSize, hsize, bloomK, hk, bloomHashFuncId, hid, ?_⟩
    rw [(getAndCheckBloomSize_ok hsize).1, getAndCheckBloomK_ok hk,
      getAndCheckBloomHashFuncId_ok hid]
    rfl

/-! ### The sizes of the records -/

theorem length_bloomSetBit (bytes : List UInt8) (idx : ℕ) :
    (bloomSetBit bytes idx).length = bytes.length :=
  List.length_modify _ _ _

/-- Setting bits does not change the size of the filter. -/
theorem length_bloomAddElement (env : Environment) (k : UInt8) (bytes : List UInt8)
    (element : OstreeCollectionRef) :
    (bloomAddElement env k bytes element).length = bytes.length := by
  rw [bloomAddElement]
  -- whatever the bits are that are set
  generalize List.range k.toNat = indices
  induction indices generalizing bytes with
  | nil => rfl
  | cons i indices ih => rw [List.foldl_cons, ih, length_bloomSetBit]

theorem length_bloomOf (env : Environment) (refs : List OstreeCollectionRef) (options : Options) :
    (bloomOf env refs options).2.2.length = (options.bloomSize.getD maxBloomSize).toNat := by
  have hfold : ∀ bytes : List UInt8,
      (refs.foldl (bloomAddElement env (options.bloomK.getD 1)) bytes).length = bytes.length := by
    intro bytes
    induction refs generalizing bytes with
    | nil => rfl
    | cons ref refs ih => rw [List.foldl_cons, ih, length_bloomAddElement]
  rw [bloomOf, hfold, List.length_replicate]

@[simp] theorem length_bigEndian (size n : ℕ) : (bigEndian size n).length = size := by
  simp [bigEndian]

/-- The record of the bloom filter is the only one whose size depends on the options. -/
theorem recordSize_recordsOf :
    (recordsOf env refs summaryTimestamp options).map recordSize =
      [3, (options.bloomSize.getD maxBloomSize).toNat + 5, 11, 5] := by
  have hv : "v".utf8ByteSize = 1 := by decide
  have hrb : "rb".utf8ByteSize = 2 := by decide
  have hst : "st".utf8ByteSize = 2 := by decide
  have hri : "ri".utf8ByteSize = 2 := by decide
  simp [recordsOf, txtRecords, recordSize, hv, hrb, hst, hri, length_bloomOf]

/-- What the records take up depends on the size of the filter alone. -/
theorem totalTxtSize_recordsOf :
    totalTxtSize (recordsOf env refs summaryTimestamp options) =
      (options.bloomSize.getD maxBloomSize).toNat + 28 := by
  -- each record takes up its size, and a byte that holds it
  have hsize : ∀ records : List TxtRecord,
      totalTxtSize records = ((records.map recordSize).map (1 + ·)).sum := by
    intro records
    rw [totalTxtSize, List.map_map]
    congr 2
    ext record
    show 1 + (record.1.utf8ByteSize + 1 + record.2.length) = 1 + recordSize record
    rw [recordSize]
    omega
  rw [hsize, recordSize_recordsOf]
  simp only [List.map_cons, List.map_nil, List.sum_cons, List.sum_nil]
  omega

/-- **No record is too long**, since the filter is at most as large as the space it has. -/
theorem recordSize_le (h : ∃ bloomSize, getAndCheckBloomSize options = .ok bloomSize) :
    ∀ record ∈ recordsOf env refs summaryTimestamp options, recordSize record ≤ 255 := by
  intro record hrecord
  obtain ⟨bloomSize, hsize⟩ := h
  obtain ⟨rfl, hle⟩ := getAndCheckBloomSize_ok hsize
  -- 255 bytes, less the key and the equals sign, and the two parameters
  have hspace : (options.bloomSize.getD maxBloomSize).toNat ≤ 250 := UInt32.le_iff_toNat_le.1 hle
  have hmem : recordSize record ∈
      (recordsOf env refs summaryTimestamp options).map recordSize := List.mem_map_of_mem hrecord
  rw [recordSize_recordsOf] at hmem
  simp only [List.mem_cons, List.not_mem_nil, or_false] at hmem
  omega

variable (env) in
/-- What the loop over the records returns if none of them is too long. -/
theorem handleRecords_ok (h : ∀ record ∈ records, recordSize record ≤ 255) :
    ∃ lines, handleRecords env records = .ok (lines, totalTxtSize records) := by
  induction records with
  | nil => exact ⟨"", rfl⟩
  | cons record records ih =>
    rw [List.forall_mem_cons] at h
    obtain ⟨lines, hlines⟩ := ih h.2
    refine ⟨recordLine env record ++ lines, ?_⟩
    have hsize : 1 + recordSize record + totalTxtSize records =
        totalTxtSize (record :: records) := by
      rw [totalTxtSize, totalTxtSize, List.map_cons, List.sum_cons, recordSize]
      omega
    rw [handleRecords, if_neg (not_lt.2 h.1), hlines]
    simp only [hsize]

/-- The limit of the level that is set. -/
theorem withinLimit_iff {sizeLevel : SizeLevel}
    (h : getAndCheckTxtRecordsSizeLevel options = .ok sizeLevel) :
    WithinLimit options records ↔
      ∀ limit, sizeLevel.limit = some limit → totalTxtSize records ≤ limit.toNat := by
  rw [WithinLimit, h]
  constructor
  · exact fun hlimit limit => hlimit sizeLevel limit rfl
  · rintro hlimit sizeLevel' limit heq
    obtain rfl := Except.ok.inj heq
    exact hlimit limit

/-- The total size is valid if there is a level and the size is within its limit. -/
theorem validateTotalSize_iff :
    validateTotalSize (totalTxtSize records) options = .ok () ↔
      (∃ sizeLevel, getAndCheckTxtRecordsSizeLevel options = .ok sizeLevel) ∧
        WithinLimit options records := by
  rw [validateTotalSize]
  cases hlevel : getAndCheckTxtRecordsSizeLevel options with
  | error e => simp
  | ok sizeLevel =>
    rw [withinLimit_iff hlevel]
    cases hlimit : sizeLevel.limit with
    | none => simp [hlimit]
    | some limit => simp [hlimit]

/-! ### Generating -/

/-- Records that are not too long fail only for their total size. -/
theorem exists_generateFromTemplate_iff {name type : String} {port : UInt16}
    (h : ∀ record ∈ records, recordSize record ≤ 255) :
    (∃ contents,
        generateFromAvahiServiceTemplate env name type port records options = .ok contents) ↔
      (∃ sizeLevel, getAndCheckTxtRecordsSizeLevel options = .ok sizeLevel) ∧
        WithinLimit options records := by
  -- the loop over the records goes through, and leaves the total size to be validated
  obtain ⟨lines, hlines⟩ := handleRecords_ok env h
  rw [← validateTotalSize_iff]
  simp only [generateFromAvahiServiceTemplate, txtRecordsToString, bind, Except.bind, hlines]
  cases validateTotalSize (totalTxtSize records) options with
  | error e => simp
  | ok u => simp [pure, Except.pure]

/-- What is generated is made of the records, if the options other than the size level are
accepted. -/
theorem serviceFileContents_eq (htime : 0 ≤ summaryTimestamp)
    (hversion : ∃ version, getAndCheckVersion options = .ok version)
    (hbloom : getBloomFilterData env refs options = .ok (bloomOf env refs options))
    {port : UInt16} (hport : getAndCheckAvahiServicePort env options = .ok port) :
    serviceFileContents env refs summaryTimestamp options =
      generateFromAvahiServiceTemplate env "EOS OSTree update service on %h" "_ostree_repo._tcp"
        port (recordsOf env refs summaryTimestamp options) options := by
  -- the checks return what the options say, and the timestamp is not negative
  obtain ⟨version, hversion⟩ := hversion
  have hsummary : getUnixSummaryTimestamp summaryTimestamp = .ok summaryTimestamp.toUInt64 := by
    rw [getUnixSummaryTimestamp, if_neg (Int64.not_lt.2 htime)]
  simp only [serviceFileContents, v1ServiceFile, bind, Except.bind, hversion, hbloom, hport,
    hsummary]
  rfl

/-- Whether anything can be generated. -/
theorem exists_serviceFileContents_iff (htime : 0 ≤ summaryTimestamp) :
    (∃ contents, serviceFileContents env refs summaryTimestamp options = .ok contents) ↔
      Accepted env options ∧
        WithinLimit options (recordsOf env refs summaryTimestamp options) := by
  constructor
  · rintro ⟨contents, hcontents⟩
    -- the checks on the way to the records
    have hchecks := hcontents
    simp only [serviceFileContents, v1ServiceFile, bind, except_bind_ok] at hchecks
    obtain ⟨_, hversion, bloom, hbloom, port, hport, -⟩ := hchecks
    obtain ⟨hsize, hk, hid, rfl⟩ := getBloomFilterData_ok_iff.1 hbloom
    rw [serviceFileContents_eq htime ⟨_, hversion⟩ hbloom hport] at hcontents
    obtain ⟨hlevel, hlimit⟩ :=
      (exists_generateFromTemplate_iff (recordSize_le hsize)).1 ⟨contents, hcontents⟩
    exact ⟨⟨⟨_, hversion⟩, hsize, hk, hid, ⟨port, hport⟩, hlevel⟩, hlimit⟩
  · rintro ⟨haccepted, hlimit⟩
    obtain ⟨port, hport⟩ := haccepted.port
    have hbloom := getBloomFilterData_ok_iff.2 ⟨haccepted.bloomSize, haccepted.bloomK,
      haccepted.bloomHashFuncId, (rfl : bloomOf env refs options = _)⟩
    rw [serviceFileContents_eq htime haccepted.version hbloom hport]
    exact (exists_generateFromTemplate_iff (recordSize_le haccepted.bloomSize)).2
      ⟨haccepted.sizeLevel, hlimit⟩

/-- With refs and a directory that can be written, the file is written if there are contents. -/
theorem serviceFileGenerate_ok_iff (hrefs : refs ≠ []) (hio : io.replaceContents = none) :
    (serviceFileGenerate env io directory refs summaryTimestamp options).1 = .ok () ↔
      ∃ contents, serviceFileContents env refs summaryTimestamp options = .ok contents := by
  rw [serviceFileGenerate, if_neg hrefs]
  cases serviceFileContents env refs summaryTimestamp options with
  | error e => simp
  | ok contents => simp [hio]

end

/-! ### The check and the generation -/

/-- **The check agrees with the generation.** In a directory that can be written, generating
succeeds exactly if the options are accepted and the total size of the records is within the limit
of the size level. Options that are accepted make no record of more than 255 bytes, and the file is
made of these records, unless their total size breaks the limit. -/
theorem serviceFileGenerate_iff (env : Environment) (io : DirectoryIO) (directory : Directory)
    (refs : List OstreeCollectionRef) (summaryTimestamp : Int64) (dict : OptionsDict)
    (hrefs : refs ≠ []) (htime : 0 ≤ summaryTimestamp) (hio : io.replaceContents = none) :
    ((serviceFileGenerate env io directory refs summaryTimestamp dict.options).1 = .ok () ↔
        serviceFileCheckOptions env dict.options = .ok () ∧
          WithinLimit dict.options (recordsOf env refs summaryTimestamp dict.options)) ∧
      (serviceFileCheckOptions env dict.options = .ok () →
        (∀ record ∈ recordsOf env refs summaryTimestamp dict.options, recordSize record ≤ 255) ∧
        ∃ port, serviceFileContents env refs summaryTimestamp dict.options =
          generateFromAvahiServiceTemplate env "EOS OSTree update service on %h"
            "_ostree_repo._tcp" port (recordsOf env refs summaryTimestamp dict.options)
            dict.options) := by
  rw [serviceFileGenerate_ok_iff hrefs hio, exists_serviceFileContents_iff htime,
    serviceFileCheckOptions_iff]
  refine ⟨Iff.rfl, fun haccepted => ⟨recordSize_le haccepted.bloomSize, ?_⟩⟩
  obtain ⟨port, hport⟩ := haccepted.port
  have hbloom := getBloomFilterData_ok_iff.2 ⟨haccepted.bloomSize, haccepted.bloomK,
    haccepted.bloomHashFuncId, (rfl : bloomOf env refs dict.options = _)⟩
  exact ⟨port, serviceFileContents_eq htime haccepted.version hbloom hport⟩

/-- Options for faulty hardware, with the size of the bloom filter. -/
def faultyHardware (bloomSize : UInt32) : OptionsDict :=
  (GHashTable.empty.replace "txt-records-size-level" (.byte 1)).replace "bloom-size"
    (.uint32 bloomSize)

/-- A ref to advertise. -/
def sampleRefs : List OstreeCollectionRef := [⟨"com.endlessm.Os", "eos3"⟩]

/-- For faulty hardware the filter can have 228 bytes. One more is accepted as an option, but breaks
the limit. -/
theorem faultyHardware_limit :
    (serviceFileGenerate sampleEnvironment .reliable GHashTable.empty sampleRefs 1700000000
        (faultyHardware 228).options).1 = .ok () ∧
      (serviceFileCheckOptions sampleEnvironment (faultyHardware 229).options = .ok () ∧
        (serviceFileGenerate sampleEnvironment .reliable GHashTable.empty sampleRefs 1700000000
          (faultyHardware 229).options).1 ≠ .ok ()) := by
  have hlevel : ∀ bloomSize, getAndCheckTxtRecordsSizeLevel (faultyHardware bloomSize).options =
      .ok .supportFaultyHardware := fun _ => rfl
  have hgenerate := fun bloomSize => (serviceFileGenerate_iff sampleEnvironment .reliable
    GHashTable.empty sampleRefs 1700000000 (faultyHardware bloomSize) (by decide) (by decide) rfl).1
  refine ⟨(hgenerate 228).2 ⟨rfl, ?_⟩, rfl, fun hok => ?_⟩
  · rw [withinLimit_iff (hlevel 228), totalTxtSize_recordsOf]
    intro limit hlimit
    rw [← Option.some_inj.1 hlimit]
    decide
  · have hlimit := ((hgenerate 229).1 hok).2
    rw [withinLimit_iff (hlevel 229), totalTxtSize_recordsOf] at hlimit
    exact absurd (hlimit 256 rfl) (by decide)

end Avahi
