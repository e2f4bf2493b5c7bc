import EosUpdater.Flatpak.Action

/-!
# The comparison as a sorting order

What a sort may ask of `sort_flatpak_remote_ref_actions` on a list of actions: that exchanging the
arguments turns the sign around, that the actions it does not put behind each other form a
preorder, that serials count first, and that any list of these actions comes out of the sort with
its dependencies where they belong (`ValidSortingOrder`).

Two things spoil this. Serials that are too far apart wrap the difference around. And a pair of an
install and an uninstall counts as equal, so that at one serial an action of the one direction
links a dependency and a non-dependency of the other in the wrong order. `TiesUnmixed` excludes
the second, as `SerialsFit` does the first, and the comparison is an order exactly on the lists
that have both (`validSortingOrder_iff`).
-/

namespace Euu

open FlatpakRemoteRefAction

variable {a b c : FlatpakRemoteRefAction} {l l' : List FlatpakRemoteRefAction}

/-- `a` may stand in front of `b` as far as dependencies go: it is not an install or update in
front of a dependency of this direction, and not the uninstall of a dependency in front of an
uninstall that is none. -/
def TieOrdered (a b : FlatpakRemoteRefAction) : Prop :=
  ¬ (a.isUpdateOrInstall ∧ b.isUpdateOrInstall ∧ ¬ a.isDependency ∧ b.isDependency) ∧
  ¬ (a.type = .uninstall ∧ b.type = .uninstall ∧ a.isDependency ∧ ¬ b.isDependency)

/-- The order of a tie is read off two types and two flags. -/
instance (a b : FlatpakRemoteRefAction) : Decidable (TieOrdered a b) := by
  unfold TieOrdered
  infer_instance

/-- The comparison is a valid order to sort the actions of `l` by. -/
structure ValidSortingOrder (l : List FlatpakRemoteRefAction) : Prop where
  /-- Exchanging the arguments turns the sign around. -/
  antisymm : ∀ a ∈ l, ∀ b ∈ l, (sortFlatpakRemoteRefActions a b).toInt.sign =
    -(sortFlatpakRemoteRefActions b a).toInt.sign
  trans : ∀ a ∈ l, ∀ b ∈ l, ∀ c ∈ l, sortFlatpakRemoteRefActions a b ≤ 0 →
    sortFlatpakRemoteRefActions b c ≤ 0 → sortFlatpakRemoteRefActions a c ≤ 0
  serial_first : ∀ a ∈ l, ∀ b ∈ l, a.serial.toInt < b.serial.toInt →
    sortFlatpakRemoteRefActions a b < 0
  /-- Every list of these actions has its dependencies in order once sorted. -/
  sorts : ∀ l' ⊆ l, (ptrArraySort l').Pairwise fun a b => a.serial = b.serial → TieOrdered a b

/-- Where a serial has both a dependency and a non-dependency of one direction, it has no action
of the other direction. -/
def TiesUnmixed (l : List FlatpakRemoteRefAction) : Prop :=
  ∀ a ∈ l, ∀ b ∈ l, ∀ c ∈ l, b.serial = a.serial → c.serial = a.serial →
    b.isUpdateOrInstall = a.isUpdateOrInstall → a.isDependency = true → b.isDependency = false →
      c.isUpdateOrInstall = a.isUpdateOrInstall

/-- The ties of a list are checked triple by triple. -/
instance (l : List FlatpakRemoteRefAction) : Decidable (TiesUnmixed l) := by
  unfold TiesUnmixed
  infer_instance

/-! ### The comparison of two actions -/

/-- The Boolean test is the comparator's sign. -/
theorem sorted_iff : sorted a b = true ↔ sortFlatpakRemoteRefActions a b ≤ 0 := by
  rw [sorted, decide_eq_true_eq]

/-- Between equal serials the comparator decides by the order of ties. -/
theorem sorted_iff_tieOrdered (h : a.serial = b.serial) : sorted a b = true ↔ TieOrdered a b := by
  rw [← Bool.not_eq_false, not_sorted_iff_of_serial_eq h, TieOrdered, not_or]

/-- Actions of different directions tie. -/
theorem tieOrdered_of_mixed (h : a.isUpdateOrInstall ≠ b.isUpdateOrInstall) : TieOrdered a b := by
  rw [TieOrdered, ← isUpdateOrInstall_eq_false_iff, ← isUpdateOrInstall_eq_false_iff]
  cases ha : a.isUpdateOrInstall <;> cases hb : b.isUpdateOrInstall <;> simp_all

/-- Of two actions of one direction, exactly one order of a dependency and a non-dependency is
allowed. -/
theorem not_tieOrdered_iff : ¬ TieOrdered a b ↔
    b.isUpdateOrInstall = a.isUpdateOrInstall ∧ a.isDependency = !a.isUpdateOrInstall ∧
      b.isDependency = a.isUpdateOrInstall := by
  rw [TieOrdered, ← isUpdateOrInstall_eq_false_iff, ← isUpdateOrInstall_eq_false_iff]
  cases a.isUpdateOrInstall <;> cases b.isUpdateOrInstall <;> cases a.isDependency <;>
    cases b.isDependency <;> decide

section Fit

variable (hab : a.serial.toInt - b.serial.toInt < 2 ^ 31)
  (hba : b.serial.toInt - a.serial.toInt < 2 ^ 31)
include hab hba

/-- At different serials that fit, the comparison is their difference. -/
theorem toInt_sortFlatpakRemoteRefActions (hne : a.serial ≠ b.serial) :
    (sortFlatpakRemoteRefActions a b).toInt = a.serial.toInt - b.serial.toInt := by
  rw [sortFlatpakRemoteRefActions, if_neg (mt serial_sub_eq_zero_iff.1 hne),
    toInt_serial_sub hab hba]

/-- Where the serials fit, they are compared first, and the ties by direction and dependency. -/
theorem sorted_iff_lex : sorted a b = true ↔
    a.serial.toInt < b.serial.toInt ∨ (a.serial = b.serial ∧ TieOrdered a b) := by
  by_cases hne : a.serial = b.serial
  · rw [sorted_iff_tieOrdered hne, hne]
    simp
  · rw [sorted_iff_of_serial_ne hne hab hba]
    simp [hne]

/-- Exchanging the two actions changes the comparator's sign, also where the difference
overflows. -/
theorem sign_antisymm : (sortFlatpakRemoteRefActions a b).toInt.sign =
    -(sortFlatpakRemoteRefActions b a).toInt.sign := by
  by_cases hne : a.serial = b.serial
  · obtain ⟨typeA, _, _, serial, depA⟩ := a
    obtain ⟨typeB, _, _, _, depB⟩ := b
    cases hne
    simp only [sortFlatpakRemoteRefActions, isUpdateOrInstall, Int32.sub_self, ↓reduceIte]
    -- with the serials gone, the comparison is a table over types and flags
    cases typeA <;> cases typeB <;> cases depA <;> cases depB <;> rfl
  · rw [toInt_sortFlatpakRemoteRefActions hab hba hne,
      toInt_sortFlatpakRemoteRefActions hba hab (Ne.symm hne), ← Int.sign_neg, Int.neg_sub]

end Fit

/-! ### The comparison on a list -/

/-- Unmixed ties are transitive: two actions that may not be exchanged differ in whether they are
a dependency, and whatever stands between them agrees with one of them. -/
theorem TieOrdered.trans (hunmixed : TiesUnmixed l) (ha : a ∈ l) (hb : b ∈ l) (hc : c ∈ l)
    (hab : a.serial = b.serial) (hbc : b.serial = c.serial) (h : TieOrdered a b)
    (h' : TieOrdered b c) : TieOrdered a c := by
  by_contra hac
  obtain ⟨hdir, hdepA, hdepC⟩ := not_tieOrdered_iff.1 hac
  have hac : a.serial = c.serial := hab.trans hbc
  -- one of the two ends is a dependency and the other is not, so `b` has their direction
  have hmid : b.isUpdateOrInstall = a.isUpdateOrInstall := by
    cases ha' : a.isUpdateOrInstall with
    | true =>
        rw [ha'] at hdir hdepA hdepC
        rw [← hdir]
        exact hunmixed c hc a ha b hb hac hbc (ha'.trans hdir.symm) hdepC hdepA
    | false =>
        rw [ha'] at hdir hdepA hdepC
        rw [← ha']
        exact hunmixed a ha c hc b hb hac.symm hab.symm (hdir.trans ha'.symm) hdepA hdepC
  -- and then `b`, a dependency or not, is out of order with `a` or with `c`
  by_cases hdepB : b.isDependency = a.isUpdateOrInstall
  · exact not_tieOrdered_iff.2 ⟨hmid, hdepA, hdepB⟩ h
  · have hdepB' : b.isDependency = !b.isUpdateOrInstall := by
      rw [hmid]
      exact Bool.eq_not_of_ne hdepB
    exact not_tieOrdered_iff.2 ⟨hdir.trans hmid.symm, hdepB', hdepC.trans hmid.symm⟩ h'

/-- Under both conditions what the comparison does not put behind each other is a preorder. -/
theorem sorted_trans (hfit : SerialsFit l) (hunmixed : TiesUnmixed l) (ha : a ∈ l) (hb : b ∈ l)
    (hc : c ∈ l) (h : sorted a b = true) (h' : sorted b c = true) : sorted a c = true := by
  rw [sorted_iff_lex (hfit a ha b hb) (hfit b hb a ha)] at h
  rw [sorted_iff_lex (hfit b hb c hc) (hfit c hc b hb)] at h'
  rw [sorted_iff_lex (hfit a ha c hc) (hfit c hc a ha)]
  rcases h with hlt | ⟨heq, htie⟩
  · rcases h' with hlt' | ⟨heq', -⟩
    · exact Or.inl (hlt.trans hlt')
    · exact Or.inl (heq' ▸ hlt)
  · rcases h' with hlt' | ⟨heq', htie'⟩
    · exact Or.inl (heq ▸ hlt')
    · exact Or.inr ⟨heq.trans heq', htie.trans hunmixed ha hb hc heq heq' htie'⟩

/-- Without overflow and without mixed ties the merge sort may rely on the comparator. -/
theorem follows_sorted (hfit : SerialsFit l) (hunmixed : TiesUnmixed l) :
    GLib.Follows sorted (fun a b => sorted a b = true) l where
  decides := by
    refine fun a ha b hb => ⟨fun h => h, fun h => ?_⟩
    by_contra hnot
    rw [Bool.not_eq_true] at hnot
    -- neither may precede the other: then both comparisons are positive
    have hpos := sign_antisymm (hfit a ha b hb) (hfit b hb a ha)
    simp only [sorted, decide_eq_false_iff_not, Int32.le_iff_toInt_le, Int32.toInt_zero,
      not_le] at h hnot
    rw [Int.sign_eq_one_of_pos h, Int.sign_eq_one_of_pos hnot] at hpos
    cases hpos
  trans := fun a ha b hb c hc => sorted_trans hfit hunmixed ha hb hc

/-- Serials that fit and unmixed ties make the comparator a sorting order. -/
theorem ValidSortingOrder.of_fit (hfit : SerialsFit l) (hunmixed : TiesUnmixed l) :
    ValidSortingOrder l where
  antisymm := fun a ha b hb => sign_antisymm (hfit a ha b hb) (hfit b hb a ha)
  trans := by
    intro a ha b hb c hc h h'
    rw [← sorted_iff] at h h' ⊢
    exact sorted_trans hfit hunmixed ha hb hc h h'
  serial_first := by
    intro a ha b hb hlt
    have hne : a.serial ≠ b.serial := fun heq => by rw [heq] at hlt; exact hlt.false
    rw [Int32.lt_iff_toInt_lt, Int32.toInt_zero,
      toInt_sortFlatpakRemoteRefActions (hfit a ha b hb) (hfit b hb a ha) hne]
    omega
  sorts := by
    intro l' hsub
    have hsorted := ((follows_sorted hfit hunmixed).mono hsub).pairwise_msort
    exact hsorted.imp fun h heq => (sorted_iff_tieOrdered heq).1 h

/-- A sorting order leaves no pair of serials whose difference overflows. -/
theorem ValidSortingOrder.serialsFit (h : ValidSortingOrder l) : SerialsFit l := by
  intro a ha b hb
  by_contra hfar
  rw [not_lt] at hfar
  -- the greater serial passes for the smaller one, and the other way round
  have hwrong := sorted_iff.1 ((sorted_iff_of_overflows (Or.inr hfar)).2 (by omega))
  have hright := h.serial_first b hb a ha (by omega)
  have hsign := h.antisymm a ha b hb
  rw [Int32.le_iff_toInt_le, Int32.toInt_zero] at hwrong
  rw [Int32.lt_iff_toInt_lt, Int32.toInt_zero] at hright
  rw [Int.sign_eq_neg_one_of_neg hright, Int.neg_neg, Int.sign_eq_one_iff_pos] at hsign
  omega

/-- A sorting order leaves no mixed ties. -/
theorem ValidSortingOrder.tiesUnmixed (h : ValidSortingOrder l) : TiesUnmixed l := by
  intro a ha b hb c hc hba hca hdir hdepA hdepB
  by_contra hmixed
  -- `c` ties with both, in either order
  have htie : ∀ x ∈ [a, b], sorted x c = true ∧ sorted c x = true := by
    intro x hx
    have hx' : x.serial = c.serial ∧ x.isUpdateOrInstall ≠ c.isUpdateOrInstall := by
      rcases List.mem_pair.1 hx with rfl | rfl
      · exact ⟨hca.symm, fun heq => hmixed heq.symm⟩
      · exact ⟨hba.trans hca.symm, fun heq => hmixed (heq.symm.trans hdir)⟩
    exact ⟨(sorted_iff_tieOrdered hx'.1).2 (tieOrdered_of_mixed hx'.2),
      (sorted_iff_tieOrdered hx'.1.symm).2 (tieOrdered_of_mixed hx'.2.symm)⟩
  have htieA := htie a (by simp)
  have htieB := htie b (by simp)
  rw [sorted_iff, sorted_iff] at htieA htieB
  cases hui : a.isUpdateOrInstall with
  | true =>
      have hlink := sorted_iff.2 (h.trans b hb c hc a ha htieB.1 htieA.2)
      refine not_tieOrdered_iff.2 ⟨hdir.symm, ?_, ?_⟩ ((sorted_iff_tieOrdered hba).1 hlink)
      · rw [hdir, hui, hdepB]; rfl
      · rw [hdir, hui, hdepA]
  | false =>
      have hlink := sorted_iff.2 (h.trans a ha c hc b hb htieA.1 htieB.2)
      refine not_tieOrdered_iff.2 ⟨hdir, ?_, ?_⟩ ((sorted_iff_tieOrdered hba.symm).1 hlink)
      · rw [hui, hdepA]; rfl
      · rw [hui, hdepB]

/-- **The comparison is a sorting order of exactly these lists**: no two serials are `2 ^ 31` or
more apart, and no serial with a dependency and a non-dependency of one direction has an action of
the other. -/
theorem validSortingOrder_iff (l : List FlatpakRemoteRefAction) :
    ValidSortingOrder l ↔ SerialsFit l ∧ TiesUnmixed l :=
  ⟨fun h => ⟨h.serialsFit, h.tiesUnmixed⟩, fun h => .of_fit h.1 h.2⟩

/-- An action of one autoinstall file, with nothing that the comparison looks at left open. -/
def tieSample (type : FlatpakRemoteRefActionType) (serial : Int32) (isDependency : Bool) :
    FlatpakRemoteRefAction where
  type := type
  ref := { ref := ⟨.app, "org.example.App", "x86_64", "stable"⟩, remote := none,
           collectionId := none }
  source := "00-default.json"
  serial := serial
  isDependency := isDependency

/-- An uninstall between an install and its dependency keeps the dependency behind, as it ties
with both; and serials that are too far apart are compared the wrong way round, or put each in
front of the other. -/
theorem not_validSortingOrder :
    ptrArraySort [tieSample .install 1 false, tieSample .uninstall 1 false,
        tieSample .install 1 true] =
      [tieSample .install 1 false, tieSample .uninstall 1 false, tieSample .install 1 true] ∧
    ¬ TieOrdered (tieSample .install 1 false) (tieSample .install 1 true) ∧
    ¬ ValidSortingOrder [tieSample .install 1 false, tieSample .uninstall 1 false,
        tieSample .install 1 true] ∧
    sortFlatpakRemoteRefActions (tieSample .install 2147483647 false)
      (tieSample .install (-1) false) < 0 ∧
    sortFlatpakRemoteRefActions (tieSample .install 0 false)
      (tieSample .install (-2147483648) false) < 0 ∧
    sortFlatpakRemoteRefActions (tieSample .install (-2147483648) false)
      (tieSample .install 0 false) < 0 := by
  refine ⟨by decide, by decide, fun h => ?_, by decide, by decide, by decide⟩
  have htie := h.sorts _ (List.Subset.refl _)
  revert htie
  decide

end Euu
