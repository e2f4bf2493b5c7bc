import EosUpdater.GLib.Sort
import EosUpdater.GLib.Overwrite
import Mathlib.Algebra.Ring.Int.Defs
import Mathlib.Data.String.Basic

/-!
# Flatpak ref actions

The entries of the autoinstall lists (`flatpak-util.h`), and `sort_flatpak_remote_ref_actions`,
the comparison every array of them is sorted by.

The comparison subtracts two 32-bit serials in a `gint`, so it wraps around when they are `2 ^ 31`
or more apart. `SerialsFit l` says that no two serials in `l` are; under it
`sortFlatpakRemoteRefActions` never contradicts the order of the serials
(`serial_le_of_sorted`, `serial_le_of_not_sorted`). Among equal serials it only ever moves a
dependency, and only past an action of the same direction (`not_sorted_iff_of_serial_eq`); it is
not transitive there.
-/

namespace Euu

/-- `FlatpakRefKind`. -/
inductive FlatpakRefKind
  | app
  | runtime
deriving DecidableEq, Repr

/-- `FlatpakRef`: the kind, name, architecture and branch of a flatpak, which are also what
`euu_flatpak_ref_equal` compares. -/
structure FlatpakRef where
  kind : FlatpakRefKind
  name : String
  arch : String
  branch : String
deriving DecidableEq, Repr

/-- `EuuFlatpakLocationRef`: a ref with the remote to get it from. An update or uninstall entry
names no remote and no collection ID. -/
structure FlatpakLocationRef where
  ref : FlatpakRef
  remote : Option String
  collectionId : Option String
deriving DecidableEq, Repr

/-- `EuuFlatpakRemoteRefActionType`. -/
inductive FlatpakRemoteRefActionType
  | install
  | uninstall
  | update
deriving DecidableEq, Repr

/-- `EuuFlatpakRemoteRefAction`. Its only flag is
`EUU_FLATPAK_REMOTE_REF_ACTION_FLAG_IS_DEPENDENCY`. -/
structure FlatpakRemoteRefAction where
  type : FlatpakRemoteRefActionType
  ref : FlatpakLocationRef
  /-- The basename of the autoinstall file that the action comes from. -/
  source : String
  serial : Int32
  isDependency : Bool
deriving DecidableEq, Repr

namespace FlatpakRemoteRefAction

/-- The action is an install or an update. -/
def isUpdateOrInstall (a : FlatpakRemoteRefAction) : Bool :=
  a.type = .install || a.type = .update

/-- The action takes priority over an update of the same ref: it is an install or an uninstall. -/
def overridesUpdate (a : FlatpakRemoteRefAction) : Bool :=
  a.type = .install || a.type = .uninstall

/-- One of two actions installs, and the other uninstalls. -/
def Reverses (a b : FlatpakRemoteRefAction) : Prop :=
  a.overridesUpdate = true ∧ b.overridesUpdate = true ∧ a.type ≠ b.type

/-- Whether one action reverses another is read off their types. -/
instance (a b : FlatpakRemoteRefAction) : Decidable (Reverses a b) := by
  unfold Reverses
  infer_instance

variable {a b : FlatpakRemoteRefAction}

/-- Only an install and an uninstall reverse each other; an update reverses nothing. -/
theorem reverses_iff :
    a.Reverses b ↔ (a.type = .install ∧ b.type = .uninstall) ∨
      (a.type = .uninstall ∧ b.type = .install) := by
  rw [Reverses, overridesUpdate, overridesUpdate]
  cases a.type <;> cases b.type <;> simp

/-- Of the three types only the uninstall is neither an update nor an install. -/
theorem isUpdateOrInstall_eq_false_iff : a.isUpdateOrInstall = false ↔ a.type = .uninstall := by
  rw [isUpdateOrInstall]
  cases a.type <;> simp

/-- An uninstall takes the place of an earlier update when a list is squashed. -/
theorem overridesUpdate_of_uninstall (h : a.isUpdateOrInstall = false) :
    a.overridesUpdate = true := by
  rw [overridesUpdate, isUpdateOrInstall_eq_false_iff.1 h]
  rfl

/-- An install takes the place of an earlier update when a list is squashed. -/
theorem overridesUpdate_of_install (h : a.type = .install) : a.overridesUpdate = true := by
  rw [overridesUpdate, h]
  rfl

theorem isUpdateOrInstall_of_install (h : a.type = .install) : a.isUpdateOrInstall = true := by
  rw [isUpdateOrInstall, h]
  rfl

/-- An install is what both predicates hold of. -/
theorem type_eq_install (hui : a.isUpdateOrInstall = true) (hstrong : a.overridesUpdate = true) :
    a.type = .install := by
  rw [isUpdateOrInstall] at hui
  rw [overridesUpdate] at hstrong
  cases htype : a.type <;> simp_all

end FlatpakRemoteRefAction

open FlatpakRemoteRefAction

/-- `sort_flatpak_remote_ref_actions`: by serial, and at equal serials a dependency before the
installs and updates, and after the uninstalls, that are none. The difference of the serials is
taken in 32 bits. -/
def sortFlatpakRemoteRefActions (a b : FlatpakRemoteRefAction) : Int32 :=
  -- the difference wraps around if the serials are too far apart
  let position := a.serial - b.serial
  if position = 0 then
    if a.isUpdateOrInstall && b.isUpdateOrInstall then
      if a.isDependency && !b.isDependency then -1
      else if !a.isDependency && b.isDependency then 1
      else position
    else if a.type = .uninstall && b.type = .uninstall then
      if a.isDependency && !b.isDependency then 1
      else if !a.isDependency && b.isDependency then -1
      else position
    else position
  else position

/-- The comparison allows `a` in front of `b`. -/
def sorted (a b : FlatpakRemoteRefAction) : Bool := sortFlatpakRemoteRefActions a b ≤ 0

/-- `g_ptr_array_sort (…, sort_flatpak_remote_ref_actions)`. -/
def ptrArraySort (actions : List FlatpakRemoteRefAction) : List FlatpakRemoteRefAction :=
  GLib.msort sorted actions

/-- No two serials are so far apart that their difference overflows a `gint`. -/
def SerialsFit (actions : List FlatpakRemoteRefAction) : Prop :=
  ∀ a ∈ actions, ∀ b ∈ actions, a.serial.toInt - b.serial.toInt < 2 ^ 31

/-- The serials of a list are compared pair by pair. -/
instance (actions : List FlatpakRemoteRefAction) : Decidable (SerialsFit actions) := by
  unfold SerialsFit
  infer_instance

theorem SerialsFit.mono {l l' : List FlatpakRemoteRefAction} (h : SerialsFit l)
    (hsub : ∀ a ∈ l', a ∈ l) : SerialsFit l' :=
  fun a ha b hb => h a (hsub a ha) b (hsub b hb)

variable {a b : FlatpakRemoteRefAction}

/-- Where the difference fits a `gint`, it is the difference. -/
theorem toInt_serial_sub (hab : a.serial.toInt - b.serial.toInt < 2 ^ 31)
    (hba : b.serial.toInt - a.serial.toInt < 2 ^ 31) :
    (a.serial - b.serial).toInt = a.serial.toInt - b.serial.toInt := by
  rw [Int32.toInt_sub, Int.bmod_eq_of_le] <;> omega

/-- The difference of two serials is zero for equal serials only, whether or not it overflows. -/
theorem serial_sub_eq_zero_iff : a.serial - b.serial = 0 ↔ a.serial = b.serial := by
  constructor
  · intro h
    rw [← Int32.sub_add_cancel a.serial b.serial, h, Int32.zero_add]
  · rintro h
    rw [h, Int32.sub_self]

/-- At different serials the tie rules do not apply. -/
theorem sorted_of_serial_ne (h : a.serial ≠ b.serial) :
    sorted a b = decide (a.serial - b.serial ≤ 0) := by
  rw [sorted, sortFlatpakRemoteRefActions, if_neg (mt serial_sub_eq_zero_iff.1 h)]

/-- The difference of the serials overflows a `gint`. -/
def Overflows (a b : FlatpakRemoteRefAction) : Prop :=
  a.serial.toInt - b.serial.toInt < -2 ^ 31 ∨ 2 ^ 31 ≤ a.serial.toInt - b.serial.toInt

/-- An overflow of the comparator is a comparison of two integers. -/
instance (a b : FlatpakRemoteRefAction) : Decidable (Overflows a b) :=
  inferInstanceAs (Decidable (_ ∨ _))

/-- Where the difference overflows, a greater serial passes for a smaller one, and the other way
round. -/
theorem sorted_iff_of_overflows (h : Overflows a b) :
    sorted a b = true ↔ b.serial.toInt < a.serial.toInt := by
  have hne : a.serial ≠ b.serial := by
    intro heq
    rw [Overflows, heq] at h
    omega
  have ha := Int32.toInt_lt a.serial
  have hb := Int32.le_toInt b.serial
  have ha' := Int32.le_toInt a.serial
  have hb' := Int32.toInt_lt b.serial
  rw [sorted_of_serial_ne hne, decide_eq_true_eq, Int32.le_iff_toInt_le, Int32.toInt_zero,
    Int32.toInt_sub, Int.bmod_eq_emod]
  rcases h with h | h
  · split <;> omega
  · split <;> omega

/-- **The tie rules.** At equal serials the comparison forbids an order in two cases: a dependency
behind an install or update that is none, and a dependency in front of an uninstall that is none,
each of the same direction. -/
theorem not_sorted_iff_of_serial_eq (h : a.serial = b.serial) :
    sorted a b = false ↔
      (a.isUpdateOrInstall ∧ b.isUpdateOrInstall ∧ ¬ a.isDependency ∧ b.isDependency) ∨
      (a.type = .uninstall ∧ b.type = .uninstall ∧ a.isDependency ∧ ¬ b.isDependency) := by
  obtain ⟨typeA, _, _, serial, depA⟩ := a
  obtain ⟨typeB, _, _, _, depB⟩ := b
  cases h
  simp only [sorted, sortFlatpakRemoteRefActions, isUpdateOrInstall, Int32.sub_self, ↓reduceIte]
  -- with the serials gone, the comparison is a table over types and flags
  cases typeA <;> cases typeB <;> cases depA <;> cases depB <;> simp

/-- Distinct serials that fit are compared as integers. -/
theorem sorted_iff_of_serial_ne (hne : a.serial ≠ b.serial)
    (hab : a.serial.toInt - b.serial.toInt < 2 ^ 31)
    (hba : b.serial.toInt - a.serial.toInt < 2 ^ 31) :
    sorted a b = true ↔ a.serial.toInt < b.serial.toInt := by
  rw [sorted_of_serial_ne hne, decide_eq_true_eq, Int32.le_iff_toInt_le,
    toInt_serial_sub hab hba, Int32.toInt_zero]
  have hint : a.serial.toInt ≠ b.serial.toInt := fun h => hne (Int32.toInt_inj.1 h)
  omega

/-- Where the difference does not overflow, the comparator keeps `a` in front of `b` only if its
serial is no larger. -/
theorem serial_le_of_sorted (hab : a.serial.toInt - b.serial.toInt < 2 ^ 31)
    (hba : b.serial.toInt - a.serial.toInt < 2 ^ 31) (h : sorted a b = true) :
    a.serial.toInt ≤ b.serial.toInt := by
  by_cases hne : a.serial = b.serial
  · rw [hne]
  · exact ((sorted_iff_of_serial_ne hne hab hba).1 h).le

/-- Where the difference does not overflow, the comparator moves `b` in front of `a` only if its
serial is no larger. -/
theorem serial_le_of_not_sorted (hab : a.serial.toInt - b.serial.toInt < 2 ^ 31)
    (hba : b.serial.toInt - a.serial.toInt < 2 ^ 31) (h : sorted a b = false) :
    b.serial.toInt ≤ a.serial.toInt := by
  by_cases hne : a.serial = b.serial
  · rw [hne]
  · by_contra hlt
    rw [(sorted_iff_of_serial_ne hne hab hba).2 (by omega)] at h
    cases h

/-- A list whose serials fit comes out of the sort with ascending serials. -/
theorem pairwise_ptrArraySort {l : List FlatpakRemoteRefAction} (hfit : SerialsFit l) :
    (ptrArraySort l).Pairwise fun a b => a.serial.toInt ≤ b.serial.toInt :=
  GLib.pairwise_msort (fun a => a.serial.toInt) fun a ha b hb =>
    ⟨serial_le_of_sorted (hfit a ha b hb) (hfit b hb a ha),
      serial_le_of_not_sorted (hfit a ha b hb) (hfit b hb a ha)⟩

/-- Without dependencies the comparison is that of the serials, if their difference does not
overflow. -/
theorem sorted_iff_of_not_overflows (ha : a.isDependency = false) (hb : b.isDependency = false)
    (h : ¬ Overflows a b) : sorted a b = true ↔ a.serial.toInt ≤ b.serial.toInt := by
  by_cases hne : a.serial = b.serial
  · -- the tie rules only ever move dependencies
    have htie : sorted a b ≠ false := by
      rw [Ne, not_sorted_iff_of_serial_eq hne]
      simp [ha, hb]
    simp [hne, Bool.eq_true_of_not_eq_false htie]
  · rw [Overflows, not_or, not_lt, not_le] at h
    rw [sorted_of_serial_ne hne, decide_eq_true_eq, Int32.le_iff_toInt_le, Int32.toInt_zero,
      Int32.toInt_sub, Int.bmod_eq_of_le (by omega) (by omega)]
    omega

/-- Without dependencies the comparator looks at the serials only. -/
theorem sorted_iff_of_not_dependency (ha : a.isDependency = false) (hb : b.isDependency = false)
    (hab : a.serial.toInt - b.serial.toInt < 2 ^ 31)
    (hba : b.serial.toInt - a.serial.toInt < 2 ^ 31) :
    sorted a b = true ↔ a.serial.toInt ≤ b.serial.toInt :=
  sorted_iff_of_not_overflows ha hb (by rw [Overflows]; omega)

@[simp]
theorem mem_ptrArraySort {l : List FlatpakRemoteRefAction} : a ∈ ptrArraySort l ↔ a ∈ l :=
  GLib.mem_msort

end Euu
