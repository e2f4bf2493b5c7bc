import EosUpdater.Machine.Saturated
import EosUpdater.Updater.Exclusion
import Mathlib.Algebra.Order.Group.Nat

/-!
# The sizes of an update

`get_commit_sizes` adds up the sizes of all objects of a commit, and of those that the local
repository does not have, in four saturated sums; `metadata_fetch_finished` clamps them to signed
numbers and shows them.

Whatever the objects and their order, what is shown are the sums, or the largest signed number if
that is less (`publishes_sizes`).
-/

namespace Updater

open Euu

variable {ρ : Type}

/-! ### The macros -/

/-- `G_MAXUINT64`. -/
def maxUint64 : ℕ := 2 ^ 64 - 1

/-- `G_MAXINT64`. -/
def maxInt64 : ℕ := 2 ^ 63 - 1

/-- `SATURATED_INCREMENT_GUINT64`, on machine words. -/
def saturatedIncrementGuint64 (a b : UInt64) : UInt64 :=
  -- the subtraction cannot wrap, and the addition is made only if it does not
  if a < 0xffffffffffffffff - b then a + b else 0xffffffffffffffff

/-- `CLAMP_GUINT64_TO_GINT64`, on machine words. -/
def clampGuint64ToGint64 (a : UInt64) : UInt64 :=
  if a > 0x7fffffffffffffff then 0x7fffffffffffffff else a

/-- The test is strict, and a sum that is the largest number is that number either way. -/
theorem saturatedIncrement_eq (a b : ℕ) :
    saturatedIncrement a b = Saturated.add maxUint64 a b := by
  rw [saturatedIncrement, Saturated.add, maxUint64]
  split <;> omega

/-- On machine words nothing wraps. -/
theorem toNat_saturatedIncrementGuint64 (a b : UInt64) :
    (saturatedIncrementGuint64 a b).toNat = saturatedIncrement a.toNat b.toNat := by
  have ha := a.toNat_lt
  have hb := b.toNat_lt
  have hsub : (0xffffffffffffffff - b).toNat = 2 ^ 64 - 1 - b.toNat := by
    rw [UInt64.toNat_sub, Saturated.toNat_max]
    omega
  rw [saturatedIncrementGuint64, saturatedIncrement]
  simp only [UInt64.lt_iff_toNat_lt, hsub]
  split
  · rw [UInt64.toNat_add, Nat.mod_eq_of_lt (by omega)]
  · exact Saturated.toNat_max

/-- What is clamped has the same value as a signed number. -/
theorem toInt_clampGuint64ToGint64 (a : UInt64) :
    (clampGuint64ToGint64 a).toInt64.toInt = clampToInt64 a.toNat := by
  have hmax : (0x7fffffffffffffff : UInt64).toNat = 2 ^ 63 - 1 := by decide
  have hclamped : (clampGuint64ToGint64 a).toNat = min a.toNat (2 ^ 63 - 1) := by
    rw [clampGuint64ToGint64]
    simp only [gt_iff_lt, UInt64.lt_iff_toNat_lt, hmax]
    split
    · rw [hmax]
      omega
    · omega
  -- the highest bit is not set, so that the word means the same with a sign
  have hsmall : 2 * (clampGuint64ToGint64 a).toBitVec.toNat < 2 ^ 64 := by
    rw [UInt64.toNat_toBitVec, hclamped]
    omega
  rw [← Int64.toInt_toBitVec, UInt64.toBitVec_toInt64, BitVec.toInt_eq_toNat_of_lt hsmall,
    UInt64.toNat_toBitVec, hclamped, clampToInt64]
  omega

/-! ### The sums -/

/-- The object of the entry is not in the local repository. -/
def CommitSizesEntry.isMissing (entry : CommitSizesEntry) : Bool :=
  match entry.hasObject with
  | .ok false => true
  | _ => false

/-- The repository can say of each object whether it has it. -/
def AllKnown (entries : List CommitSizesEntry) : Prop :=
  ∀ entry ∈ entries, ∃ hasObject, entry.hasObject = .ok hasObject

/-- The saturated sums over all entries, and over those that are missing. -/
def totalSizes (entries : List CommitSizesEntry) : CommitSizes where
  newArchived := Saturated.sum maxUint64 ((entries.filter (·.isMissing)).map (·.archived))
  newUnpacked := Saturated.sum maxUint64 ((entries.filter (·.isMissing)).map (·.unpacked))
  archived := Saturated.sum maxUint64 (entries.map (·.archived))
  unpacked := Saturated.sum maxUint64 (entries.map (·.unpacked))

/-- The properties of the daemon that show the sizes of an update have the exact sums over its
entries, or the largest signed number. -/
structure PublishesSizes (entries : List CommitSizesEntry) (updater : EosUpdater) : Prop where
  fullDownloadSize : updater.fullDownloadSize = min (entries.map (·.archived)).sum maxInt64
  fullUnpackedSize : updater.fullUnpackedSize = min (entries.map (·.unpacked)).sum maxInt64
  downloadSize : updater.downloadSize =
    min ((entries.filter (·.isMissing)).map (·.archived)).sum maxInt64
  unpackedSize : updater.unpackedSize =
    min ((entries.filter (·.isMissing)).map (·.unpacked)).sum maxInt64

section Sums

variable {seen entries entries' : List CommitSizesEntry} {entry : CommitSizesEntry}
variable {sizes : CommitSizes} {objects objects' : CommitObjects} {updater : EosUpdater}

@[simp] theorem allKnown_cons : AllKnown (entry :: entries) ↔
    (∃ hasObject, entry.hasObject = .ok hasObject) ∧ AllKnown entries := by
  rw [AllKnown, List.forall_mem_cons, AllKnown]

/-- One more entry, whose object is in the repository. -/
theorem totalSizes_concat_present (h : entry.isMissing = false) :
    totalSizes (seen ++ [entry]) =
      { totalSizes seen with
        archived := saturatedIncrement (totalSizes seen).archived entry.archived
        unpacked := saturatedIncrement (totalSizes seen).unpacked entry.unpacked } := by
  simp only [totalSizes, saturatedIncrement_eq, List.filter_append, List.map_append, List.map_cons,
    List.map_nil, Saturated.sum_concat, List.filter_cons, h, List.filter_nil, List.append_nil,
    Bool.false_eq_true, if_false]

/-- One more entry, whose object is not in the repository. -/
theorem totalSizes_concat_missing (h : entry.isMissing = true) :
    totalSizes (seen ++ [entry]) =
      { newArchived := saturatedIncrement (totalSizes seen).newArchived entry.archived
        newUnpacked := saturatedIncrement (totalSizes seen).newUnpacked entry.unpacked
        archived := saturatedIncrement (totalSizes seen).archived entry.archived
        unpacked := saturatedIncrement (totalSizes seen).unpacked entry.unpacked } := by
  simp only [totalSizes, saturatedIncrement_eq, List.filter_append, List.map_append, List.map_cons,
    List.map_nil, Saturated.sum_concat, List.filter_cons, h, List.filter_nil, if_true]

/-- What the loop adds to the sums over the entries that it has seen. -/
theorem addCommitSizes_totalSizes (seen entries : List CommitSizesEntry) :
    addCommitSizes (totalSizes seen) entries = .ok sizes ↔
      AllKnown entries ∧ sizes = totalSizes (seen ++ entries) := by
  induction entries generalizing seen with
  | nil => simp [addCommitSizes, AllKnown, eq_comm]
  | cons entry entries ih =>
    -- the entry goes over to those that have been seen, with what the loop adds for it
    have hcons : seen ++ entry :: entries = seen ++ [entry] ++ entries := by simp
    rw [addCommitSizes, allKnown_cons, hcons]
    cases hobject : entry.hasObject with
    | error e => simp
    | ok hasObject =>
      cases hasObject with
      | false =>
        have hmissing : entry.isMissing = true := by rw [CommitSizesEntry.isMissing, hobject]
        have hih := ih (seen ++ [entry])
        rw [totalSizes_concat_missing hmissing] at hih
        simpa using hih
      | true =>
        have hpresent : entry.isMissing = false := by rw [CommitSizesEntry.isMissing, hobject]
        have hih := ih (seen ++ [entry])
        rw [totalSizes_concat_present hpresent] at hih
        simpa using hih

/-- `get_commit_sizes` succeeds with the sums. -/
theorem getCommitSizes_ok (hload : objects.loadVariant = .ok ())
    (hentries : objects.objectSizes = .ok entries) :
    getCommitSizes objects = .ok sizes ↔ AllKnown entries ∧ sizes = totalSizes entries := by
  rw [getCommitSizes, hload, hentries]
  exact addCommitSizes_totalSizes [] entries

/-- Sizes can only be had of a commit that loads. -/
theorem loadVariant_of_getCommitSizes (h : getCommitSizes objects = .ok sizes) :
    objects.loadVariant = .ok () := by
  rw [getCommitSizes] at h
  split at h
  · cases h
  · assumption

/-! ### Clamping -/

/-- Clamping a saturated sum leaves nothing of the first bound. -/
theorem clampToInt64_sum (l : List ℕ) :
    clampToInt64 (Saturated.sum maxUint64 l) = min l.sum maxInt64 := by
  -- the least of the sum and both bounds, of which the signed one is the smaller
  have hsum : Saturated.sum maxUint64 l = min l.sum maxUint64 := Saturated.sum_eq maxUint64 l
  rw [hsum, clampToInt64, maxUint64, maxInt64]
  omega

/-- The sizes of a commit are published. -/
theorem publishesSizes_offerSizes (updater : EosUpdater)
    (hentries : objects.objectSizes = .ok entries) (h : getCommitSizes objects = .ok sizes) :
    PublishesSizes entries (updater.offerSizes objects).1 := by
  obtain ⟨-, rfl⟩ := (getCommitSizes_ok (loadVariant_of_getCommitSizes h) hentries).1 h
  rw [EosUpdater.offerSizes, h]
  exact ⟨clampToInt64_sum _, clampToInt64_sum _, clampToInt64_sum _, clampToInt64_sum _⟩

/-- The sum over some of the entries is no more than the sum over all of them. -/
theorem sum_missing_le (size : CommitSizesEntry → ℕ) (entries : List CommitSizesEntry) :
    ((entries.filter (·.isMissing)).map size).sum ≤ (entries.map size).sum :=
  (List.filter_sublist.map size).sum_le_sum fun _ _ => Nat.zero_le _

namespace PublishesSizes

theorem downloadSize_le (h : PublishesSizes entries updater) :
    updater.downloadSize ≤ updater.fullDownloadSize := by
  have hle := sum_missing_le (·.archived) entries
  rw [h.downloadSize, h.fullDownloadSize]
  omega

theorem unpackedSize_le (h : PublishesSizes entries updater) :
    updater.unpackedSize ≤ updater.fullUnpackedSize := by
  have hle := sum_missing_le (·.unpacked) entries
  rw [h.unpackedSize, h.fullUnpackedSize]
  omega

/-- What is shown is a sum, or the largest number, and so not negative. -/
theorem nonneg (h : PublishesSizes entries updater) :
    0 ≤ updater.fullDownloadSize ∧ 0 ≤ updater.fullUnpackedSize ∧ 0 ≤ updater.downloadSize ∧
      0 ≤ updater.unpackedSize := by
  rw [h.fullDownloadSize, h.fullUnpackedSize, h.downloadSize, h.unpackedSize]
  omega

/-- The order of the entries is of no account. -/
theorem of_perm (h : PublishesSizes entries' updater) (hperm : entries.Perm entries') :
    PublishesSizes entries updater where
  fullDownloadSize := by rw [h.fullDownloadSize, (hperm.map _).sum_eq]
  fullUnpackedSize := by rw [h.fullUnpackedSize, (hperm.map _).sum_eq]
  downloadSize := by rw [h.downloadSize, ((hperm.filter _).map _).sum_eq]
  unpackedSize := by rw [h.unpackedSize, ((hperm.filter _).map _).sum_eq]

end PublishesSizes

end Sums

/-! ### What is shown -/

/-- The objects of a commit in another order. -/
def CommitObjects.reorder (objects : CommitObjects) (entries' : List CommitSizesEntry) :
    CommitObjects :=
  { objects with objectSizes := .ok entries' }

/-- The sizes can be added up in any order, if they can be in one. -/
theorem getCommitSizes_reorder {objects : CommitObjects} {entries entries' : List CommitSizesEntry}
    {sizes : CommitSizes} (hentries : objects.objectSizes = .ok entries)
    (h : getCommitSizes objects = .ok sizes) (hperm : entries.Perm entries') :
    getCommitSizes (objects.reorder entries') = .ok (totalSizes entries') := by
  have hload := loadVariant_of_getCommitSizes h
  have hknown := ((getCommitSizes_ok hload hentries).1 h).1
  -- it can fail only for an object that the repository cannot tell of, wherever its entry is
  refine (getCommitSizes_ok ?_ rfl).2 ⟨fun entry hentry => ?_, rfl⟩
  · exact hload
  · exact hknown entry (hperm.mem_iff.2 hentry)

/-- The daemon after a poll that has found an update, with its sizes. -/
theorem metadataFetchFinished_sizes (daemon : Daemon ρ) {task : Task}
    {result : Except GError (Option (EosUpdateInfo ρ))} {info : EosUpdateInfo ρ}
    {objects : CommitObjects} {entries : List CommitSizesEntry} {sizes : CommitSizes}
    (hinfo : daemon.propagate task result = .ok (some info))
    (hentries : objects.objectSizes = .ok entries) (h : getCommitSizes objects = .ok sizes) :
    PublishesSizes entries (daemon.metadataFetchFinished task result objects).updater := by
  have hsizes := publishesSizes_offerSizes (daemon.updater.offerUpdate info) hentries h
  -- the sizes could be added up, so there is no error to be set afterwards
  have herror : ((daemon.updater.offerUpdate info).offerSizes objects).2 = none := by
    rw [EosUpdater.offerSizes, h]
  rw [Daemon.metadataFetchFinished, hinfo]
  show PublishesSizes entries (Daemon.setErrorIfAny _ _).updater
  rw [herror]
  exact hsizes

/-- **The sizes of an update.** If the sizes of its objects can be added up, what is shown is the
exact sum over all of them, and over those that are missing, or the largest signed number; this is
not negative, the part is no more than the whole, and any other order of the entries gives the
same. -/
theorem publishes_sizes (daemon : Daemon ρ) (task : Task)
    (result : Except GError (Option (EosUpdateInfo ρ))) (info : EosUpdateInfo ρ)
    (objects : CommitObjects) (entries : List CommitSizesEntry) (sizes : CommitSizes)
    (hinfo : daemon.propagate task result = .ok (some info))
    (hentries : objects.objectSizes = .ok entries) (h : getCommitSizes objects = .ok sizes) :
    let updater := (daemon.metadataFetchFinished task result objects).updater
    PublishesSizes entries updater ∧
      (0 ≤ updater.fullDownloadSize ∧ 0 ≤ updater.fullUnpackedSize ∧ 0 ≤ updater.downloadSize ∧
        0 ≤ updater.unpackedSize) ∧
      updater.downloadSize ≤ updater.fullDownloadSize ∧
      updater.unpackedSize ≤ updater.fullUnpackedSize ∧
      ∀ entries', entries.Perm entries' →
        PublishesSizes entries
          (daemon.metadataFetchFinished task result (objects.reorder entries')).updater := by
  have hsizes := metadataFetchFinished_sizes daemon hinfo hentries h
  refine ⟨hsizes, hsizes.nonneg, hsizes.downloadSize_le, hsizes.unpackedSize_le,
    fun entries' hperm => ?_⟩
  have hreordered := getCommitSizes_reorder hentries h hperm
  exact (metadataFetchFinished_sizes daemon hinfo rfl hreordered).of_perm hperm

/-- An update with three objects, whose archived sizes add up to more than a word can hold, and of
which the repository has the largest. -/
def largeObjects : List CommitSizesEntry :=
  [⟨2 ^ 64 - 1, 2 ^ 63, .ok true⟩, ⟨2 ^ 63 - 2, 7, .ok false⟩, ⟨1, 0, .ok false⟩]

/-- What a poll has found, with these objects. -/
def largeUpdate : EosUpdateInfo Unit where
  checksum := "large"
  commit := ⟨"", ""⟩
  newRefspec := "eos:os"
  oldRefspec := "eos:os"
  version := none
  urls := none
  offlineResultsOnly := false
  isUserVisible := false
  releaseNotesUri := none
  results := none

/-- Its sizes are shown. -/
theorem largeUpdate_sizes :
    let updater := ((Daemon.onBusAcquired (.ok "booted") true).metadataFetchFinished
      ⟨0, .metadataFetch⟩ (.ok (some largeUpdate)) ⟨.ok (), .ok largeObjects⟩).updater
    updater.fullDownloadSize = 2 ^ 63 - 1 ∧ updater.fullUnpackedSize = 2 ^ 63 - 1 ∧
      updater.downloadSize = 2 ^ 63 - 1 ∧ updater.unpackedSize = 7 := by
  have hsizes := (publishes_sizes (Daemon.onBusAcquired (.ok "booted") true) ⟨0, .metadataFetch⟩
    (.ok (some largeUpdate)) largeUpdate ⟨.ok (), .ok largeObjects⟩ largeObjects
    (totalSizes largeObjects) rfl rfl rfl).1
  refine ⟨?_, ?_, ?_, ?_⟩
  · rw [hsizes.fullDownloadSize]
    decide
  · rw [hsizes.fullUnpackedSize]
    decide
  · rw [hsizes.downloadSize]
    decide
  · rw [hsizes.unpackedSize]
    decide

end Updater
