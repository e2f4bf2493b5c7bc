import Mathlib.Data.Nat.Bitwise
import EosUpdater.Avahi.Options

/-!
# Reading the advertised Bloom filter

The filter of `ostree-bloom.c` as a peer uses it: loaded from the bytes that were advertised, it is
asked whether it may contain a ref.

A filter is thought of as the set of the bits that are set in it. The bits of the filter that is
made of the refs are those of the refs, and no others (`bits_bloomOf`), so that none of the refs is
missed (`maybeContains_bloomOf`).
-/

namespace Avahi

open Euu Updater

/-! ### The functions -/

/-- `ostree_bloom_get_bit`. The callers ask for bits of the filter only. -/
def bloomGetBit (bytes : List UInt8) (idx : ℕ) : Bool :=
  bytes.getD (idx / 8) 0 &&& 1 <<< UInt8.ofNat (idx % 8) ≠ 0

/-- `OstreeBloom`, when it is immutable. -/
structure OstreeBloom where
  bytes : List UInt8
  k : UInt8
  hashFunc : OstreeCollectionRef → UInt8 → UInt64
  bytes_ne_nil : bytes ≠ []
  length_le : bytes.length ≤ (2 ^ 64 - 1) / 8
  k_pos : 0 < k

/-- `ostree_bloom_new_from_bytes`. -/
def OstreeBloom.newFromBytes (bytes : List UInt8) (k : UInt8)
    (hashFunc : OstreeCollectionRef → UInt8 → UInt64) : Option OstreeBloom :=
  if h : bytes ≠ [] ∧ bytes.length ≤ (2 ^ 64 - 1) / 8 ∧ 0 < k then
    some ⟨bytes, k, hashFunc, h.1, h.2.1, h.2.2⟩
  else none

/-- `ostree_bloom_maybe_contains`. -/
def OstreeBloom.maybeContains (bloom : OstreeBloom) (element : OstreeCollectionRef) : Bool :=
  (List.range bloom.k.toNat).all fun i =>
    bloomGetBit bloom.bytes
      ((bloom.hashFunc element (UInt8.ofNat i)).toNat % (bloom.bytes.length * 8))

/-- `id_to_hash_func`, which is not to be called with any other ID. -/
def idToHashFunc (env : Environment) (id : UInt8) :
    Option (OstreeCollectionRef → UInt8 → UInt64) :=
  if id = 1 then some env.collectionRefBloomHash else none

/-! ### Filters as sets of bits -/

section Abstract

variable {α ι : Type} (index : α → ℕ → ι) (k : ℕ)

/-- The bits of an element. -/
def elementBits (x : α) : Set ι := {b | ∃ i < k, index x i = b}

/-- The bits of a filter that has the elements. -/
def filterBits (xs : List α) : Set ι := {b | ∃ x ∈ xs, b ∈ elementBits index k x}

variable {index k}

/-- The bits of an element are in every filter with it. -/
theorem elementBits_subset_filterBits {x : α} {xs : List α} (hx : x ∈ xs) :
    elementBits index k x ⊆ filterBits index k xs :=
  fun _ hb => ⟨x, hx, hb⟩

theorem filterBits_cons (x : α) (xs : List α) :
    filterBits index k (x :: xs) = elementBits index k x ∪ filterBits index k xs := by
  ext b
  simp [filterBits]

end Abstract

/-- The bits that are set. -/
def bits (bytes : List UInt8) : Set ℕ := {idx | bloomGetBit bytes idx = true}

/-- The index of a bit of an element, in a filter of `n` bytes. -/
def bloomIndex (hashFunc : OstreeCollectionRef → UInt8 → UInt64) (n : ℕ)
    (element : OstreeCollectionRef) (i : ℕ) : ℕ :=
  (hashFunc element (UInt8.ofNat i)).toNat % (n * 8)

@[simp] theorem mem_bits {bytes : List UInt8} {idx : ℕ} :
    idx ∈ bits bytes ↔ bloomGetBit bytes idx = true := Iff.rfl

/-! ### What is set and what is read -/

theorem toNat_bit : ∀ i < 8, ((1 : UInt8) <<< UInt8.ofNat i).toNat = 2 ^ i := by
  decide

/-- Reading a bit of the filter tests a bit of its byte. -/
theorem bloomGetBit_eq_testBit (bytes : List UInt8) (idx : ℕ) :
    bloomGetBit bytes idx = (bytes.getD (idx / 8) 0).toNat.testBit (idx % 8) := by
  have hbit := toNat_bit (idx % 8) (Nat.mod_lt _ (by decide))
  have hzero : bytes.getD (idx / 8) 0 &&& 1 <<< UInt8.ofNat (idx % 8) = 0 ↔
      (bytes.getD (idx / 8) 0).toNat.testBit (idx % 8) = false := by
    rw [← UInt8.toNat_inj, UInt8.toNat_and, hbit, Nat.and_two_pow]
    simp
  rw [bloomGetBit, Bool.eq_iff_iff, decide_eq_true_iff, ne_eq, hzero, Bool.not_eq_false]

/-- Setting a bit adds it to the filter and changes no other. -/
theorem bits_bloomSetBit {bytes : List UInt8} {idx : ℕ} (h : idx / 8 < bytes.length) :
    bits (bloomSetBit bytes idx) = insert idx (bits bytes) := by
  ext p
  have hp : p % 8 < 8 := Nat.mod_lt _ (by decide)
  have hbit := toNat_bit (idx % 8) (Nat.mod_lt _ (by decide))
  rw [Set.mem_insert_iff, mem_bits, mem_bits, bloomGetBit_eq_testBit, bloomGetBit_eq_testBit,
    bloomSetBit, List.getD_eq_getElem?_getD, List.getElem?_modify, List.getD_eq_getElem?_getD,
    Option.map_eq_map]
  by_cases hbyte : idx / 8 = p / 8
  · -- a bit of the byte that is changed
    rw [hbyte] at h
    have hidx : p = idx ↔ idx % 8 = p % 8 := by omega
    simp only [if_pos hbyte]
    rw [List.getElem?_eq_getElem h, Option.map_some, Option.getD_some, Option.getD_some,
      UInt8.toNat_or, hbit, Nat.testBit_or, Nat.testBit_two_pow, Bool.or_eq_true,
      decide_eq_true_iff, hidx, or_comm]
  · have hidx : p ≠ idx := fun heq => hbyte (by rw [heq])
    simp only [if_neg hbyte, Option.map_id', hidx, false_or]

/-- Setting several bits adds these. -/
theorem bits_foldl_bloomSetBit {indices : List ℕ} {bytes : List UInt8}
    (h : ∀ idx ∈ indices, idx / 8 < bytes.length) :
    bits (indices.foldl bloomSetBit bytes) = {b | b ∈ indices} ∪ bits bytes := by
  induction indices generalizing bytes with
  | nil => simp
  | cons idx indices ih =>
      rw [List.forall_mem_cons] at h
      have hrest : ∀ idx' ∈ indices, idx' / 8 < (bloomSetBit bytes idx).length := by
        rw [length_bloomSetBit]
        exact h.2
      rw [List.foldl_cons, ih hrest, bits_bloomSetBit h.1]
      ext b
      simp only [Set.mem_union, Set.mem_insert_iff, List.mem_cons, Set.mem_ofPred_eq]
      rw [or_left_comm, or_assoc]

/-- The size of the filter does not change, so neither do the indices of an element. -/
theorem bloomAddElement_eq (env : Environment) (k : UInt8) (bytes : List UInt8)
    (element : OstreeCollectionRef) :
    bloomAddElement env k bytes element =
      ((List.range k.toNat).map
        (bloomIndex env.collectionRefBloomHash bytes.length element)).foldl bloomSetBit bytes := by
  rw [bloomAddElement, List.foldl_map]
  generalize hn : bytes.length = n
  generalize List.range k.toNat = indices
  induction indices generalizing bytes with
  | nil => rfl
  | cons i indices ih =>
      rw [List.foldl_cons, List.foldl_cons, hn]
      exact ih _ (by rw [length_bloomSetBit, hn])

/-- Adding an element sets its bits. -/
theorem bits_bloomAddElement {env : Environment} {k : UInt8} {bytes : List UInt8}
    (hbytes : bytes ≠ []) (element : OstreeCollectionRef) :
    bits (bloomAddElement env k bytes element) =
      elementBits (bloomIndex env.collectionRefBloomHash bytes.length) k.toNat element ∪
        bits bytes := by
  have hlength : 0 < bytes.length := List.length_pos_iff.2 hbytes
  rw [bloomAddElement_eq, bits_foldl_bloomSetBit]
  · simp only [elementBits, List.mem_map, List.mem_range]
  · intro idx hidx
    obtain ⟨i, -, rfl⟩ := List.mem_map.1 hidx
    have hlt : bloomIndex env.collectionRefBloomHash bytes.length element i < bytes.length * 8 :=
      Nat.mod_lt _ (by omega)
    omega

/-- Adding elements to a filter adds the bits of each. -/
theorem bits_foldl_bloomAddElement {env : Environment} {k : UInt8} {bytes : List UInt8}
    (hbytes : bytes ≠ []) (refs : List OstreeCollectionRef) :
    bits (refs.foldl (bloomAddElement env k) bytes) =
      filterBits (bloomIndex env.collectionRefBloomHash bytes.length) k.toNat refs ∪
        bits bytes := by
  induction refs generalizing bytes with
  | nil => simp [filterBits]
  | cons ref refs ih =>
      have hlength := length_bloomAddElement env k bytes ref
      have hadded : bloomAddElement env k bytes ref ≠ [] := by
        rw [← List.length_pos_iff, hlength]
        exact List.length_pos_iff.2 hbytes
      rw [List.foldl_cons, ih hadded, hlength, bits_bloomAddElement hbytes, filterBits_cons,
        ← Set.union_assoc, Set.union_comm (filterBits _ _ _)]

theorem bits_replicate_zero (n : ℕ) : bits (List.replicate n 0) = ∅ := by
  ext idx
  rw [mem_bits, bloomGetBit_eq_testBit, List.getD_eq_getElem?_getD,
    List.getElem?_getD_replicate_default_eq]
  simp

/-- The bits of the filter are those of the refs, and no others. -/
theorem bits_bloomOf {env : Environment} {options : Options} (refs : List OstreeCollectionRef)
    (hsize : options.bloomSize.getD maxBloomSize ≠ 0) :
    bits (bloomOf env refs options).2.2 =
      filterBits (bloomIndex env.collectionRefBloomHash
        (options.bloomSize.getD maxBloomSize).toNat) (options.bloomK.getD 1).toNat refs := by
  have hbytes : List.replicate (options.bloomSize.getD maxBloomSize).toNat (0 : UInt8) ≠ [] := by
    intro hnil
    rw [List.replicate_eq_nil_iff] at hnil
    exact hsize (UInt32.toNat_inj.1 hnil)
  rw [bloomOf, bits_foldl_bloomAddElement hbytes, bits_replicate_zero, Set.union_empty,
    List.length_replicate]

/-! ### Asking a filter -/

/-- An element may be in the filter if its bits are among those of the filter. -/
theorem OstreeBloom.maybeContains_iff (bloom : OstreeBloom) (element : OstreeCollectionRef) :
    bloom.maybeContains element = true ↔
      elementBits (bloomIndex bloom.hashFunc bloom.bytes.length) bloom.k.toNat element ⊆
        bits bloom.bytes := by
  rw [OstreeBloom.maybeContains, List.all_eq_true]
  constructor
  · rintro h b ⟨i, hi, rfl⟩
    exact h i (List.mem_range.2 hi)
  · intro h i hi
    exact h ⟨i, List.mem_range.1 hi, rfl⟩

theorem bloomSize_ne_zero {options : Options} {bloomSize : UInt32}
    (h : getAndCheckBloomSize options = .ok bloomSize) :
    options.bloomSize.getD maxBloomSize ≠ 0 := by
  simp only [getAndCheckBloomSize] at h
  split_ifs at h with hzero
  exact hzero

/-- A number of hash functions that is accepted is positive. -/
theorem bloomK_pos {options : Options} {bloomK : UInt8}
    (h : getAndCheckBloomK options = .ok bloomK) : 0 < options.bloomK.getD 1 := by
  simp only [getAndCheckBloomK] at h
  split_ifs at h with hzero
  exact UInt8.pos_iff_ne_zero.2 hzero

/-- The filter that is made of the refs has what a filter needs to be loaded. -/
theorem bloomOf_loadable (env : Environment) {options : Options}
    (refs : List OstreeCollectionRef)
    (hsize : ∃ bloomSize, getAndCheckBloomSize options = .ok bloomSize)
    (hk : ∃ bloomK, getAndCheckBloomK options = .ok bloomK) :
    (bloomOf env refs options).2.2 ≠ [] ∧
      (bloomOf env refs options).2.2.length ≤ (2 ^ 64 - 1) / 8 ∧
        0 < (bloomOf env refs options).1 := by
  obtain ⟨bloomSize, hsize⟩ := hsize
  obtain ⟨bloomK, hk⟩ := hk
  have hle : (options.bloomSize.getD maxBloomSize).toNat ≤ 250 := by
    rw [← (getAndCheckBloomSize_ok hsize).1]
    exact UInt32.le_iff_toNat_le.1 (getAndCheckBloomSize_ok hsize).2
  have hpos : 0 < (options.bloomSize.getD maxBloomSize).toNat :=
    Nat.pos_of_ne_zero fun hzero => bloomSize_ne_zero hsize (UInt32.toNat_inj.1 hzero)
  rw [← List.length_pos_iff, length_bloomOf]
  exact ⟨hpos, by omega, bloomK_pos hk⟩

/-- **No ref is missed.** The filter that is made of the refs can be loaded with its parameters, and
may then contain each of them. -/
theorem maybeContains_bloomOf (env : Environment) {options : Options}
    (refs : List OstreeCollectionRef)
    (hsize : ∃ bloomSize, getAndCheckBloomSize options = .ok bloomSize)
    (hk : ∃ bloomK, getAndCheckBloomK options = .ok bloomK) :
    ∃ bloom, OstreeBloom.newFromBytes (bloomOf env refs options).2.2 (bloomOf env refs options).1
        env.collectionRefBloomHash = some bloom ∧
      ∀ ref ∈ refs, bloom.maybeContains ref = true := by
  refine ⟨_, dif_pos (bloomOf_loadable env refs hsize hk), fun ref href => ?_⟩
  obtain ⟨bloomSize, hsize⟩ := hsize
  rw [OstreeBloom.maybeContains_iff]
  show elementBits (bloomIndex env.collectionRefBloomHash (bloomOf env refs options).2.2.length)
    (options.bloomK.getD 1).toNat ref ⊆ bits (bloomOf env refs options).2.2
  rw [bits_bloomOf refs (bloomSize_ne_zero hsize), length_bloomOf]
  exact elementBits_subset_filterBits href

end Avahi
