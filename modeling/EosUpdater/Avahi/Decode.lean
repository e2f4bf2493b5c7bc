import EosUpdater.Avahi.Bloom

/-!
# What a peer reads

A service file is read back in the way that it is written: the TXT records are found among its tags,
unescaped and decoded from Base64, and their values are taken apart by the documented layouts.
Escaping and Base64 are those of GLib, of which nothing but `Reads` is used.

Whatever is generated is read as what was advertised (`decodeServiceFile_generated`): the version,
the timestamp and the index of the repository are the given ones, and no ref is missed.
-/

namespace Avahi

open Euu Updater Machine

/-! ### Numbers as bytes -/

/-- The number that bytes stand for, the most significant one first. -/
def ofBigEndian (bytes : List UInt8) : ℕ := bytes.foldl (fun n byte => n * 256 + byte.toNat) 0

/-- `G_BYTE_ORDER`. -/
inductive ByteOrder
  | littleEndian
  | bigEndian
deriving DecidableEq, Repr

/-- A number in memory. -/
def ByteOrder.bytes (order : ByteOrder) (size n : ℕ) : List UInt8 :=
  match order with
  | .littleEndian => (Avahi.bigEndian size n).reverse
  | .bigEndian => Avahi.bigEndian size n

/-- `GUINT64_TO_BE` and `GUINT16_TO_BE`, by the size of the number: the bytes are swapped unless
they are in the right order. -/
def ByteOrder.toBe (order : ByteOrder) (size n : ℕ) : ℕ :=
  match order with
  | .littleEndian => ofBigEndian (Avahi.bigEndian size n).reverse
  | .bigEndian => n

/-! ### The variants of the records -/

/-- `get_version_variant`. There is one version. -/
def getVersionVariant (_version : UInt8) : List UInt8 := [1]

/-- `get_summary_timestamp_variant`. -/
def getSummaryTimestampVariant (order : ByteOrder) (summaryTimestamp : UInt64) : List UInt8 :=
  order.bytes 8 (order.toBe 8 summaryTimestamp.toNat)

/-- `get_repository_index_variant`. -/
def getRepositoryIndexVariant (order : ByteOrder) (repositoryIndex : UInt16) : List UInt8 :=
  order.bytes 2 (order.toBe 2 repositoryIndex.toNat)

/-- `get_bloom_filter_variant`. The array is the last of the members, so nothing is added to its
bytes. -/
def getBloomFilterVariant (bloomK bloomHashFuncId : UInt8) (bloomFilterBits : List UInt8) :
    List UInt8 :=
  bloomK :: bloomHashFuncId :: bloomFilterBits

theorem bigEndian_succ (size n : ℕ) :
    bigEndian (size + 1) n = bigEndian size (n / 256) ++ [UInt8.ofNat n] := by
  have hdiv : ∀ i, n / 256 ^ (i + 1) = n / 256 / 256 ^ i := fun i => by
    rw [pow_succ', Nat.div_div_eq_div_mul]
  simp [bigEndian, List.range_succ_eq_map, Function.comp_def, hdiv]

theorem ofBigEndian_concat (bytes : List UInt8) (byte : UInt8) :
    ofBigEndian (bytes ++ [byte]) = ofBigEndian bytes * 256 + byte.toNat := by
  rw [ofBigEndian, List.foldl_concat]
  rfl

/-- A number that fits is read back from its bytes. -/
theorem ofBigEndian_bigEndian {size n : ℕ} (h : n < 256 ^ size) :
    ofBigEndian (bigEndian size n) = n := by
  induction size generalizing n with
  | zero =>
      obtain rfl := Nat.lt_one_iff.1 h
      rfl
  | succ size ih =>
      rw [pow_succ] at h
      rw [bigEndian_succ, ofBigEndian_concat, ih (Nat.div_lt_of_lt_mul (by rwa [mul_comm])),
        UInt8.toNat_ofNat']
      exact Nat.div_add_mod' n 256

/-- Bytes are those of the number that they stand for. -/
theorem bigEndian_ofBigEndian (bytes : List UInt8) :
    bigEndian bytes.length (ofBigEndian bytes) = bytes := by
  induction bytes using List.reverseRecOn with
  | nil => rfl
  | append_singleton bytes byte ih =>
      have hbyte := byte.toNat_lt
      have hdiv : (ofBigEndian bytes * 256 + byte.toNat) / 256 = ofBigEndian bytes := by omega
      have hlast : UInt8.ofNat (ofBigEndian bytes * 256 + byte.toNat) = byte := by
        apply UInt8.toNat_inj.1
        rw [UInt8.toNat_ofNat']
        omega
      rw [List.length_append, List.length_singleton, bigEndian_succ, ofBigEndian_concat, hdiv,
        hlast, ih]

/-- In both byte orders, a number that is swapped as needed is in memory with its most significant
byte first. -/
theorem ByteOrder.bytes_toBe (order : ByteOrder) (size n : ℕ) :
    order.bytes size (order.toBe size n) = Avahi.bigEndian size n := by
  cases order with
  | bigEndian => rfl
  | littleEndian =>
      have hswap := bigEndian_ofBigEndian (Avahi.bigEndian size n).reverse
      rw [List.length_reverse, length_bigEndian] at hswap
      rw [bytes, toBe, hswap, List.reverse_reverse]

/-- The records are made of the variants, whatever the byte order of the host. -/
theorem txtRecords_eq (order : ByteOrder) (bloom : UInt8 × UInt8 × List UInt8)
    (summaryTimestamp : UInt64) (repositoryIndex : UInt16) :
    txtRecords bloom summaryTimestamp repositoryIndex =
      [("v", getVersionVariant 1),
        ("rb", getBloomFilterVariant bloom.1 bloom.2.1 bloom.2.2),
        ("st", getSummaryTimestampVariant order summaryTimestamp),
        ("ri", getRepositoryIndexVariant order repositoryIndex)] := by
  rw [getSummaryTimestampVariant, getRepositoryIndexVariant, ByteOrder.bytes_toBe,
    ByteOrder.bytes_toBe]
  rfl

/-! ### Reading a service file -/

/-- What a peer uses to read a service file. -/
structure Peer where
  /-- The text that is written with entities. -/
  unescapeText : String → String
  /-- `g_base64_decode`. -/
  base64Decode : String → List UInt8

/-- The peer reads what is escaped and encoded. Texts are escaped character by character, in a way
that no tag starts in them and an equals sign stays one. -/
structure Peer.Reads (peer : Peer) (env : Environment) : Prop where
  escape_append : ∀ text text', env.markupEscapeText (text ++ text') =
    env.markupEscapeText text ++ env.markupEscapeText text'
  escape_equals : env.markupEscapeText "=" = "="
  escape_tag : ∀ text, '<' ∉ (env.markupEscapeText text).toList
  unescape_escape : ∀ text, peer.unescapeText (env.markupEscapeText text) = text
  base64 : ∀ data, peer.base64Decode (env.base64Encode data) = data

/-- The tag of a record, less the bracket that it starts with. -/
def recordTag : List Char := "txt-record value-format=\"binary-base64\">".toList

/-- The texts of the records: what is between the tag of a record and the next tag. -/
def txtRecordTexts : List Char → List (List Char)
  | [] => []
  | c :: text =>
      if c = '<' then
        match text.dropPrefix? recordTag with
        | some content => content.takeWhile (· ≠ '<') :: txtRecordTexts text
        | none => txtRecordTexts text
      else txtRecordTexts text

/-- A record: its key is in front of the first equals sign, its value behind it. -/
def decodeRecord (peer : Peer) (text : List Char) : TxtRecord :=
  let record := (peer.unescapeText (String.ofList text)).toList
  (String.ofList (record.takeWhile (· ≠ '=')),
    peer.base64Decode (String.ofList (record.dropWhile (· ≠ '=')).tail))

/-- What the records of version 1 advertise. -/
structure Advertised where
  version : UInt8
  bloomK : UInt8
  bloomHashId : UInt8
  bloomBits : List UInt8
  summaryTimestamp : UInt64
  repositoryIndex : UInt16

/-- The records by their layouts: a byte, the tuple of the filter, and two numbers of 8 and 2
bytes. -/
def decodeRecords (records : List TxtRecord) : Option Advertised :=
  match records.lookup "v", records.lookup "rb", records.lookup "st", records.lookup "ri" with
  | some [version], some (bloomK :: bloomHashId :: bloomBits), some st, some ri =>
      if st.length = 8 ∧ ri.length = 2 then
        some
          { version, bloomK, bloomHashId, bloomBits
            summaryTimestamp := UInt64.ofNat (ofBigEndian st)
            repositoryIndex := UInt16.ofNat (ofBigEndian ri) }
      else none
  | _, _, _, _ => none

/-- What a service file advertises. -/
def decodeServiceFile (peer : Peer) (contents : String) : Option Advertised :=
  decodeRecords ((txtRecordTexts contents.toList).map (decodeRecord peer))

/-- The advertised filter. -/
def Advertised.bloom (advertised : Advertised) (env : Environment) : Option OstreeBloom :=
  (idToHashFunc env advertised.bloomHashId).bind
    (OstreeBloom.newFromBytes advertised.bloomBits advertised.bloomK)

/-! ### Finding the records -/

/-- There is no tag of a record in the text, nor the start of one at its end. -/
def NoRecord (text : List Char) : Prop :=
  ∀ rest ∈ text.tails, rest.head? = some '<' →
    ¬ rest.tail <+: recordTag ∧ ¬ recordTag <+: rest.tail

/-- The opening tag is looked for at each place. -/
instance (text : List Char) : Decidable (NoRecord text) := by
  unfold NoRecord
  infer_instance

/-- Text without an angle bracket has no record. -/
theorem noRecord_of_notMem {text : List Char} (h : '<' ∉ text) : NoRecord text := by
  intro rest hrest hhead
  rw [List.mem_tails] at hrest
  exact absurd (hrest.subset (List.mem_of_mem_head? hhead)) h

/-- A tag that is not in front cannot be dropped. -/
theorem dropPrefix?_eq_none {tag text : List Char} (h : ¬ tag <+: text) :
    text.dropPrefix? tag = none := by
  cases hdrop : text.dropPrefix? tag with
  | none => rfl
  | some rest =>
      obtain ⟨tag', rfl, htag⟩ := List.dropPrefix?_eq_some_iff.1 hdrop
      exact absurd ⟨rest, by rw [eq_of_beq htag]⟩ h

/-- A text without records can be skipped. -/
theorem txtRecordTexts_append {text : List Char} (h : NoRecord text) (rest : List Char) :
    txtRecordTexts (text ++ rest) = txtRecordTexts rest := by
  induction text with
  | nil => rfl
  | cons c text ih =>
      have htext : NoRecord text := fun rest' hrest' =>
        h rest' (by rw [List.tails_cons]; exact List.mem_cons_of_mem _ hrest')
      rw [List.cons_append, txtRecordTexts]
      split
      · next hc =>
          obtain ⟨hshort, hlong⟩ := h (c :: text) ((List.mem_tails _ _).2 (List.suffix_refl _))
            (by rw [hc]; rfl)
          -- what the bracket starts is another tag, whatever follows
          have hother : ¬ recordTag <+: text ++ rest := fun htag =>
            (List.prefix_or_prefix_of_prefix htag (List.prefix_append text rest)).elim hlong hshort
          rw [dropPrefix?_eq_none hother]
          exact ih htext
      · exact ih htext

/-- The text of a record, as it is in the file. -/
def recordText (env : Environment) (record : TxtRecord) : List Char :=
  (env.markupEscapeText record.1 ++ "=" ++
    env.markupEscapeText (env.base64Encode record.2)).toList

section

variable {env : Environment} {peer : Peer}

/-- A tag of a record is found, with the text up to the next tag. -/
theorem txtRecordTexts_recordTag {text rest : List Char} (h : '<' ∉ text) :
    txtRecordTexts ('<' :: (recordTag ++ (text ++ '<' :: rest))) =
      text :: txtRecordTexts ('<' :: rest) := by
  have hne : ∀ c ∈ text, (decide (c ≠ '<')) = true := fun c hc =>
    decide_eq_true fun heq => h (heq ▸ hc)
  have hcontent : (text ++ '<' :: rest).takeWhile (· ≠ '<') = text := by
    rw [List.takeWhile_append_of_pos hne]
    simp
  rw [txtRecordTexts, if_pos rfl, List.dropPrefix?_append_of_beq _ (beq_self_eq_true recordTag)]
  simp only [hcontent]
  rw [txtRecordTexts_append (noRecord_of_notMem (by decide)),
    txtRecordTexts_append (noRecord_of_notMem h)]

theorem notMem_recordText (hreads : peer.Reads env) (record : TxtRecord) :
    '<' ∉ recordText env record := by
  have hequals : '<' ∉ "=".toList := by decide
  rw [recordText, String.toList_append, String.toList_append, List.mem_append, List.mem_append]
  rintro ((hmem | hmem) | hmem)
  · exact hreads.escape_tag _ hmem
  · exact hequals hmem
  · exact hreads.escape_tag _ hmem

theorem recordLine_eq (record : TxtRecord) :
    recordLine env record = "    <txt-record value-format=\"binary-base64\">" ++
      env.markupEscapeText record.1 ++ "=" ++
        env.markupEscapeText (env.base64Encode record.2) ++ "</txt-record>\n" := rfl

theorem toList_recordLine (record : TxtRecord) :
    (recordLine env record).toList = "    ".toList ++ '<' :: (recordTag ++ (recordText env record ++
      '<' :: "/txt-record>\n".toList)) := by
  have hopen : "    <txt-record value-format=\"binary-base64\">".toList =
    "    ".toList ++ '<' :: recordTag := by decide
  have hclose : "</txt-record>\n".toList = '<' :: "/txt-record>\n".toList := by decide
  rw [recordLine_eq, recordText, String.toList_append, String.toList_append, String.toList_append,
    String.toList_append, hopen, hclose, String.toList_append, String.toList_append]
  simp only [List.append_assoc, List.cons_append]

/-- The text of a record is found in its line. -/
theorem txtRecordTexts_recordLine (hreads : peer.Reads env) (record : TxtRecord)
    (rest : List Char) :
    txtRecordTexts ((recordLine env record).toList ++ rest) =
      recordText env record :: txtRecordTexts rest := by
  have hclose : NoRecord ('<' :: "/txt-record>\n".toList) := by decide
  rw [toList_recordLine]
  simp only [List.append_assoc, List.cons_append]
  rw [txtRecordTexts_append (noRecord_of_notMem (by decide)),
    txtRecordTexts_recordTag (notMem_recordText hreads record), ← List.cons_append,
    txtRecordTexts_append hclose]

/-- The texts of the records are found in their lines, in order. -/
theorem txtRecordTexts_handleRecords (hreads : peer.Reads env) {records : List TxtRecord}
    {lines : String} {totalSize : ℕ} (h : handleRecords env records = .ok (lines, totalSize))
    (rest : List Char) :
    txtRecordTexts (lines.toList ++ rest) =
      records.map (recordText env) ++ txtRecordTexts rest := by
  induction records generalizing lines totalSize with
  | nil =>
      cases h
      rfl
  | cons record records ih =>
      rw [handleRecords] at h
      split at h
      · cases h
      split at h
      · cases h
      next lines' totalSize' hlines =>
        cases h
        rw [String.toList_append, List.append_assoc, txtRecordTexts_recordLine hreads, ih hlines]
        rfl

/-- Text without a record is passed over. -/
theorem txtRecordTexts_string {text : String} (h : NoRecord text.toList) (rest : String) :
    txtRecordTexts (text ++ rest).toList = txtRecordTexts rest.toList := by
  rw [String.toList_append, txtRecordTexts_append h]

theorem notMem_toString (port : UInt16) : '<' ∉ (toString port).toList := by
  have hport : toString port = String.ofList (Nat.toDigits 10 port.toNat) :=
    Nat.toString_eq_ofList_toDigits
  rw [hport, String.toList_ofList]
  intro hmem
  exact absurd (Nat.isDigit_of_mem_toDigits (by decide) (by decide) hmem) (by decide)

/-- The records of a file are found in it. -/
theorem txtRecordTexts_template (hreads : peer.Reads env) {name type : String} {port : UInt16}
    {records : List TxtRecord} {options : Options} {contents : String}
    (h : generateFromAvahiServiceTemplate env name type port records options = .ok contents) :
    txtRecordTexts contents.toList = records.map (recordText env) := by
  simp only [generateFromAvahiServiceTemplate, txtRecordsToString, bind, except_bind_ok] at h
  obtain ⟨lines, ⟨⟨lines', totalSize⟩, hlines, -, -, heq⟩, hcontents⟩ := h
  cases heq
  cases hcontents
  -- the other parts of the template have tags of their own
  have hgroup : NoRecord "<service-group>\n".toList := by decide
  have hopenName : NoRecord "  <name replace-wildcards=\"yes\">".toList := by decide
  have hcloseName : NoRecord "</name>\n".toList := by decide
  have hservice : NoRecord "  <service>\n".toList := by decide
  have hopenType : NoRecord "    <type>".toList := by decide
  have hcloseType : NoRecord "</type>\n".toList := by decide
  have hopenPort : NoRecord "    <port>".toList := by decide
  have hclosePort : NoRecord "</port>\n".toList := by decide
  have hend : txtRecordTexts ("  </service>\n" ++ "</service-group>\n").toList = [] := by decide
  have hescaped : ∀ text, NoRecord (env.markupEscapeText text).toList := fun text =>
    noRecord_of_notMem (hreads.escape_tag text)
  simp only [String.append_assoc]
  rw [txtRecordTexts_string hgroup, txtRecordTexts_string hopenName,
    txtRecordTexts_string (hescaped name), txtRecordTexts_string hcloseName,
    txtRecordTexts_string hservice, txtRecordTexts_string hopenType,
    txtRecordTexts_string (hescaped type), txtRecordTexts_string hcloseType,
    txtRecordTexts_string hopenPort,
    txtRecordTexts_string (noRecord_of_notMem (notMem_toString port)),
    txtRecordTexts_string hclosePort, String.toList_append,
    txtRecordTexts_handleRecords hreads hlines, hend, List.append_nil]

/-! ### Decoding the records -/

/-- A record is read back from its text. -/
theorem decodeRecord_recordText (hreads : peer.Reads env) {record : TxtRecord}
    (hkey : '=' ∉ record.1.toList) : decodeRecord peer (recordText env record) = record := by
  have htext : peer.unescapeText (String.ofList (recordText env record)) =
      record.1 ++ "=" ++ env.base64Encode record.2 := by
    have hequals := hreads.escape_equals
    rw [recordText, String.ofList_toList, ← hreads.unescape_escape (record.1 ++ "=" ++ _),
      hreads.escape_append, hreads.escape_append, hequals]
  have hlist : (record.1 ++ "=" ++ env.base64Encode record.2).toList =
      record.1.toList ++ '=' :: (env.base64Encode record.2).toList := by
    rw [String.toList_append, String.toList_append, List.append_assoc]
    rfl
  have hne : ∀ c ∈ record.1.toList, (decide (c ≠ '=')) = true := fun c hc =>
    decide_eq_true fun heq => hkey (heq ▸ hc)
  simp only [decodeRecord, htext, hlist]
  rw [List.takeWhile_append_of_pos hne, List.dropWhile_append_of_pos hne]
  simp [hreads.base64]

/-- What is found in the file are the records. -/
theorem decodeRecord_template (hreads : peer.Reads env) {name type : String} {port : UInt16}
    {records : List TxtRecord} {options : Options} {contents : String}
    (hkeys : ∀ record ∈ records, '=' ∉ record.1.toList)
    (h : generateFromAvahiServiceTemplate env name type port records options = .ok contents) :
    (txtRecordTexts contents.toList).map (decodeRecord peer) = records := by
  rw [txtRecordTexts_template hreads h, List.map_map]
  exact (List.map_congr_left fun record hrecord =>
    decodeRecord_recordText hreads (hkeys record hrecord)).trans (List.map_id records)

/-- The records of an advertisement are read back as its contents. -/
theorem decodeRecords_txtRecords (bloom : UInt8 × UInt8 × List UInt8) (summaryTimestamp : UInt64)
    (repositoryIndex : UInt16) :
    decodeRecords (txtRecords bloom summaryTimestamp repositoryIndex) =
      some ⟨1, bloom.1, bloom.2.1, bloom.2.2, summaryTimestamp, repositoryIndex⟩ := by
  have htimestamp : ofBigEndian (bigEndian 8 summaryTimestamp.toNat) = summaryTimestamp.toNat :=
    ofBigEndian_bigEndian (by have := summaryTimestamp.toNat_lt; omega)
  have hindex : ofBigEndian (bigEndian 2 repositoryIndex.toNat) = repositoryIndex.toNat :=
    ofBigEndian_bigEndian (by have := repositoryIndex.toNat_lt; omega)
  simp [decodeRecords, txtRecords, List.lookup_cons, htimestamp, hindex]

/-! ### What is generated -/

variable {refs : List OstreeCollectionRef} {summaryTimestamp : Int64} {options : Options}
variable {contents : String}

/-- A timestamp that is accepted is not negative and keeps its value. -/
theorem getUnixSummaryTimestamp_ok {summaryTimestampUnix : UInt64}
    (h : getUnixSummaryTimestamp summaryTimestamp = .ok summaryTimestampUnix) :
    0 ≤ summaryTimestamp ∧ summaryTimestampUnix = summaryTimestamp.toUInt64 := by
  rw [getUnixSummaryTimestamp] at h
  split at h
  · cases h
  · next htime => exact ⟨Int64.not_lt.1 htime, (Except.ok.inj h).symm⟩

/-- Contents are generated of the records, from options that are accepted and a timestamp that is
not negative. -/
theorem serviceFileContents_ok
    (h : serviceFileContents env refs summaryTimestamp options = .ok contents) :
    0 ≤ summaryTimestamp ∧ Accepted env options ∧
      ∃ name type port, generateFromAvahiServiceTemplate env name type port
        (recordsOf env refs summaryTimestamp options) options = .ok contents := by
  have hchecks := h
  simp only [serviceFileContents, v1ServiceFile, bind, except_bind_ok] at hchecks
  obtain ⟨_, -, bloom, hbloom, port, -, _, htime, htemplate⟩ := hchecks
  obtain ⟨-, -, -, rfl⟩ := getBloomFilterData_ok_iff.1 hbloom
  obtain ⟨hnonneg, rfl⟩ := getUnixSummaryTimestamp_ok htime
  exact ⟨hnonneg, ((exists_serviceFileContents_iff hnonneg).1 ⟨contents, h⟩).1, _, _, port,
    htemplate⟩

/-- What a peer reads from contents that are generated. -/
theorem decodeServiceFile_contents (hreads : peer.Reads env)
    (h : serviceFileContents env refs summaryTimestamp options = .ok contents) :
    decodeServiceFile peer contents = some
      { version := 1
        bloomK := (bloomOf env refs options).1
        bloomHashId := (bloomOf env refs options).2.1
        bloomBits := (bloomOf env refs options).2.2
        summaryTimestamp := summaryTimestamp.toUInt64
        repositoryIndex := options.repositoryIndex.getD 0 } := by
  obtain ⟨-, -, name, type, port, htemplate⟩ := serviceFileContents_ok h
  have hkeys : ∀ record ∈ recordsOf env refs summaryTimestamp options,
      '=' ∉ record.1.toList := by
    simp only [recordsOf, txtRecords, List.forall_mem_cons]
    decide
  rw [decodeServiceFile, decodeRecord_template hreads hkeys htemplate, recordsOf,
    decodeRecords_txtRecords]

/-- An accepted hash function is the one for collection refs. -/
theorem idToHashFunc_of_accepted (haccepted : Accepted env options) :
    idToHashFunc env (options.bloomHashId.getD 1) = some env.collectionRefBloomHash := by
  obtain ⟨bloomHashFuncId, hid⟩ := haccepted.bloomHashFuncId
  simp only [getAndCheckBloomHashFuncId] at hid
  split_ifs at hid with hone
  rw [hone]
  rfl

theorem toNat_toUInt64 (h : 0 ≤ summaryTimestamp) :
    (summaryTimestamp.toUInt64.toNat : ℤ) = summaryTimestamp.toInt := by
  rw [Int64.toNat_toUInt64_of_le h]
  exact Int.toNat_of_nonneg (Int64.le_iff_toInt_le.1 h)

end

/-- **What is advertised is what a peer reads.** Whatever is generated, from options that are
accepted, at least one ref and a timestamp that is not negative, its records are of version 1, have
the timestamp of the summary and the index of the repository, and have a filter that may contain
every ref. -/
theorem decodeServiceFile_generated (env : Environment) (peer : Peer) (hreads : peer.Reads env)
    (io : DirectoryIO) (directory directory' : Directory) (refs : List OstreeCollectionRef)
    (summaryTimestamp : Int64) (dict : OptionsDict)
    (h : serviceFileGenerate env io directory refs summaryTimestamp dict.options =
      (.ok (), directory')) :
    ∃ contents advertised bloom,
      directory'.lookup (ostreeServiceFile (dict.options.repositoryIndex.getD 0)) =
          some contents ∧
        decodeServiceFile peer contents = some advertised ∧
        advertised.version = 1 ∧
        (advertised.summaryTimestamp.toNat : ℤ) = summaryTimestamp.toInt ∧
        advertised.repositoryIndex = dict.options.repositoryIndex.getD 0 ∧
        advertised.bloom env = some bloom ∧
        ∀ ref ∈ refs, bloom.maybeContains ref = true := by
  obtain ⟨contents, hcontents, hlookup⟩ := serviceFileGenerate_ok h
  obtain ⟨htime, haccepted, -⟩ := serviceFileContents_ok hcontents
  obtain ⟨bloom, hbloom, hmaybe⟩ :=
    maybeContains_bloomOf env refs haccepted.bloomSize haccepted.bloomK
  refine ⟨contents, _, bloom, hlookup, decodeServiceFile_contents hreads hcontents, rfl,
    toNat_toUInt64 htime, rfl, ?_, hmaybe⟩
  show (idToHashFunc env (dict.options.bloomHashId.getD 1)).bind _ = some bloom
  rw [idToHashFunc_of_accepted haccepted]
  exact hbloom

/-- A peer that uses GLib as well. -/
def glibPeer : Peer := ⟨GLib.markupUnescapeText, GLib.base64Decode⟩

/-- A reader with GLib's own algorithms undoes the writer's. -/
theorem glibPeer_reads (avahiPort : UInt16)
    (collectionRefBloomHash : OstreeCollectionRef → UInt8 → UInt64) :
    glibPeer.Reads (glibEnvironment avahiPort collectionRefBloomHash) where
  escape_append := GLib.markupEscapeText_append
  escape_equals := (by decide +kernel : GLib.markupEscapeText "=" = "=")
  escape_tag := GLib.notMem_markupEscapeText
  unescape_escape := GLib.markupUnescapeText_markupEscapeText
  base64 := GLib.base64Decode_base64Encode

/-- Options for a small filter with several hash functions. -/
def smallFilter : OptionsDict :=
  ((GHashTable.empty.replace "bloom-size" (.uint32 16)).replace "bloom-k" (.byte 3)).replace
    "repository-index" (.uint16 7)

/-- Two refs, hashed by the lengths of their names, in the file of the repository with index 7. -/
theorem decodeServiceFile_generated_glib :
    let env := glibEnvironment 43381 fun ref i =>
      UInt64.ofNat (ref.refName.length * 17) + i.toUInt64 * 31
    let refs : List OstreeCollectionRef :=
      [⟨"com.endlessm.Os", "os/eos/amd64/eos3a"⟩, ⟨"com.endlessm.Os", "os/eos/amd64/latest2"⟩]
    let directory :=
      (serviceFileGenerate env .reliable GHashTable.empty refs 1700000000 smallFilter.options).2
    ∃ contents advertised bloom,
      directory.lookup (ostreeServiceFile 7) = some contents ∧
        decodeServiceFile glibPeer contents = some advertised ∧
        advertised.version = 1 ∧ (advertised.summaryTimestamp.toNat : ℤ) = 1700000000 ∧
        advertised.repositoryIndex = 7 ∧ advertised.bloom env = some bloom ∧
        ∀ ref ∈ refs, bloom.maybeContains ref = true := by
  intro env refs directory
  have hok : (serviceFileGenerate env .reliable GHashTable.empty refs 1700000000
      smallFilter.options).1 = .ok () := by
    rw [serviceFileGenerate_ok_iff (by decide) rfl, exists_serviceFileContents_iff (by decide)]
    refine ⟨serviceFileCheckOptions_iff.1 rfl, ?_⟩
    have hlevel : getAndCheckTxtRecordsSizeLevel smallFilter.options = .ok .fitSingleDnsMessage :=
      rfl
    rw [withinLimit_iff hlevel, totalTxtSize_recordsOf]
    intro limit hlimit
    rw [← Option.some_inj.1 hlimit]
    decide
  exact decodeServiceFile_generated env glibPeer (glibPeer_reads _ _) .reliable GHashTable.empty _
    refs 1700000000 smallFilter (Prod.ext hok rfl)

end Avahi
