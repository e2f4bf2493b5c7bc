import EosUpdater.Flatpak.DependencyOrder

/-!
# Dependencies are uninstalled last

For an uninstall `A` and a related uninstall of a ref `R`, the result of
`addDependencyRefActionsForInstallation` should uninstall `R` behind `A`, if it does.

It does so unless there are four actions of one serial in the result (`uninstall_last`): `A`, an
uninstall of `R` that another file asks for, one that is related to an action in front of `A`, and
an install or update. Of the last three the comparison wants the second behind the first, but allows
the second in front of the third and the third in front of the first. So it is not transitive, and
where the merge sort happens to halve the array decides (`uninstall_out_of_order`).
-/

namespace Euu

open Overwrite FlatpakRemoteRefAction

variable {related : FlatpakRemoteRefAction → List FlatpakRemoteRefAction}
variable {L : List FlatpakRemoteRefAction} {A c u w : FlatpakRemoteRefAction} {R : FlatpakRef}

/-- The action is what is left on its ref when the list is squashed with the dependencies. -/
def Left (related : FlatpakRemoteRefAction → List FlatpakRemoteRefAction)
    (L : List FlatpakRemoteRefAction) (a : FlatpakRemoteRefAction) : Prop :=
  winner refKey FlatpakRemoteRefAction.overridesUpdate (addDependencies related L) (refKey a) =
    some a

/-- Of the serial of `A` there are left an uninstall `w` of `R` that the list itself asks for, one
that is related to an action in front of `A`, and an install or update. -/
def Tied (related : FlatpakRemoteRefAction → List FlatpakRemoteRefAction)
    (L : List FlatpakRemoteRefAction) (A w : FlatpakRemoteRefAction) : Prop :=
  (w ∈ L ∧ w.serial = A.serial) ∧
    (∃ z c, GLib.Before L c A ∧ z ∈ related c ∧ z.type = .uninstall ∧ z.serial = A.serial ∧
      Left related L z) ∧
    ∃ v, v.isUpdateOrInstall = true ∧ v.serial = A.serial ∧ Left related L v

/-- A file has no two entries of one serial. -/
def SerialsDiffer (L : List FlatpakRemoteRefAction) : Prop :=
  ∀ a ∈ L, ∀ b ∈ L, a.source = b.source → a.serial = b.serial → a = b

section

variable (hrel : RelatedActions related) (hL : FlattenedList L) (hinj : SerialsDiffer L)
include hrel hL hinj

omit hL in
/-- The action that something is related to can be told from its source and serial. -/
private theorem eq_of_mem_related {c' : FlatpakRemoteRefAction} (hc : c ∈ L) (hc' : c' ∈ L)
    (hu : u ∈ related c) (hu' : u ∈ related c') : c = c' :=
  hinj c hc c' hc' ((hrel.source c u hu).symm.trans (hrel.source c' u hu'))
    ((hrel.serial c u hu).symm.trans (hrel.serial c' u hu'))

/-- What is related to an action in front of `A` is never behind `A`. -/
private theorem not_before_related (hA : A ∈ L) (hc : GLib.Before L c A) (hu : u ∈ related c) :
    ¬ GLib.Before (addDependencies related L) A u := by
  intro hAu
  rcases (placement hrel hL hA).of_after u hAu with h | ⟨c', hc', huc', -⟩
  · have hdep := hrel.isDependency c u hu
    rw [hL.not_dependency u h.mem_right] at hdep
    cases hdep
  · rcases hc' with hAc' | ⟨rfl, -⟩
    · obtain rfl := eq_of_mem_related hrel hinj hc.mem_left hAc'.mem_right hu huc'
      exact hc.asymm hL.nodup hAc'
    · obtain rfl := eq_of_mem_related hrel hinj hc.mem_left hA hu huc'
      exact hc.asymm hL.nodup hc

/-- What is left on a ref that is related to `A` is behind `A` before the sort. -/
private theorem survivors_before (hA : A ∈ L) (hAui : A.isUpdateOrInstall = false)
    (hAS : A ∈ survivors (addDependencies related L)) (hu : u ∈ related A)
    (huninstall : u.isUpdateOrInstall = false) (hwu : refKey w = refKey u)
    (hwS : w ∈ survivors (addDependencies related L)) :
    GLib.Before (survivors (addDependencies related L)) A w := by
  have hsub := survivors_sublist refKey FlatpakRemoteRefAction.overridesUpdate
    (addDependencies related L)
  have hplace := placement hrel hL hA
  have hne : A ≠ w := by
    rintro rfl
    exact hrel.ref_ne A u hu hwu.symm
  rcases GLib.Before.total hAS hwS hne with h | h
  · exact h
  -- `u` itself is behind `A` and strong, so it would have replaced a `w` in front
  have hwA := h.mono hsub
  have hAw : ¬ GLib.Before (addDependencies related L) A w := by
    rcases hplace.of_before w hwA with hw | ⟨c, hc, hwc⟩
    · intro hAw
      exact not_before_self hrel hL (Or.inl hw.mem_left) (hwA.trans hAw hplace.once)
    · rcases hc with hc | ⟨-, hui⟩
      · exact not_before_related hrel hL hinj hA hc hwc
      · rw [hAui] at hui
        cases hui
  have hw := mem_survivors.1 hwS
  rw [hwu] at hw
  have hAu := hplace.uninstall_after A (Or.inr ⟨rfl, hAui⟩) u hu huninstall
  have hweak := (weak_behind hw hAw hAu rfl).1
  rw [overridesUpdate_of_uninstall huninstall] at hweak
  cases hweak

end

/-- What stands in front of an uninstall of the list and must not stay there is a related uninstall
of the same serial. -/
private theorem tied_of_not_sorted (hrel : RelatedActions related) (hL : SortedList L)
    (hwtype : w.type = .uninstall) {z : FlatpakRemoteRefAction}
    (hzw : GLib.Before (addDependencies related L) z w) (hsorted : sorted z w = false) :
    z.serial = w.serial ∧ z.isUpdateOrInstall = false ∧ z.isDependency = true := by
  have hfit := serialsFit_addDependencies hrel hL
  have hasc := pairwise_serial_addDependencies hrel hL.not_dependency hL.ascending
  have hz : z.serial = w.serial := by
    by_contra hne
    have hzle := GLib.pairwise_iff_before.1 hasc z w hzw
    have hint : z.serial.toInt ≠ w.serial.toInt := fun h => hne (Int32.toInt_inj.1 h)
    rw [(sorted_iff_of_serial_ne hne (hfit z hzw.mem_left w hzw.mem_right)
      (hfit w hzw.mem_right z hzw.mem_left)).2 (by omega)] at hsorted
    cases hsorted
  rcases (not_sorted_iff_of_serial_eq hz).1 hsorted with ⟨-, hui, -⟩ | ⟨htype, -, hdep, -⟩
  · rw [isUpdateOrInstall_eq_false_iff.2 hwtype] at hui
    cases hui
  · exact ⟨hz, isUpdateOrInstall_eq_false_iff.2 htype, hdep⟩

/-- What is left before the sort is what is left. -/
private theorem left_iff_mem {a : FlatpakRemoteRefAction} :
    Left related L a ↔ a ∈ squashRefActionsPtrArray (addDependencies related L) :=
  mem_squash_iff_winner.symm

/-- Without a related uninstall of the serial in front of `A`, an uninstall of the list with this
serial stays behind `A`. -/
private theorem before_uninstall_of_no_related (hrel : RelatedActions related) (hL : SortedList L)
    (hA : A ∈ L) (hAtype : A.type = .uninstall) (hwtype : w.type = .uninstall)
    (hserial : w.serial = A.serial)
    (hnone : ¬ ∃ z c, GLib.Before L c A ∧ z ∈ related c ∧ z.type = .uninstall ∧
      z.serial = A.serial ∧ Left related L z)
    (hAw : GLib.Before (survivors (addDependencies related L)) A w) :
    GLib.Before (squashRefActionsPtrArray (addDependencies related L)) A w := by
  have hfit := serialsFit_addDependencies hrel hL
  have hasc := pairwise_serial_addDependencies hrel hL.not_dependency hL.ascending
  have hsub := survivors_sublist refKey FlatpakRemoteRefAction.overridesUpdate
    (addDependencies related L)
  have hplace := placement hrel hL.toFlattenedList hA
  -- no action is left twice, so `A` and `w` have one place each
  have hnodup : (survivors (addDependencies related L)).Nodup :=
    (pairwise_survivors _).imp fun hne heq => hne (congrArg refKey heq)
  rw [squashRefActionsPtrArray_eq]
  refine GLib.before_msort_of_guard hnodup hAw ?_ ?_ ?_
  · by_contra hsorted
    rw [Bool.not_eq_true] at hsorted
    have hdep := (tied_of_not_sorted hrel hL hwtype (hAw.mono hsub) hsorted).2.2
    rw [hL.not_dependency A hA] at hdep
    cases hdep
  · -- what must not stay in front of `w` would be such a related uninstall
    intro z hzA
    by_contra hsorted
    rw [Bool.not_eq_true] at hsorted
    have hzw : GLib.Before (addDependencies related L) z w :=
      (hzA.mono hsub).trans (hAw.mono hsub) hplace.once
    obtain ⟨hzserial, hzui, hzdep⟩ := tied_of_not_sorted hrel hL hwtype hzw hsorted
    rcases hplace.of_before z (hzA.mono hsub) with hzL | ⟨c, hc, hzc⟩
    · rw [hL.not_dependency z hzL.mem_left] at hzdep
      cases hzdep
    · rcases hc with hc | ⟨-, hui⟩
      · exact hnone ⟨z, c, hc, hzc, isUpdateOrInstall_eq_false_iff.1 hzui,
          hzserial.trans hserial, mem_survivors.1 hzA.mem_left⟩
      · rw [isUpdateOrInstall_eq_false_iff.2 hAtype] at hui
        cases hui
  · -- those between `A` and `w` stay where they are
    intro z hAz hzw hsorted v hvz
    obtain ⟨-, hzui, hzdep⟩ := tied_of_not_sorted hrel hL hwtype (hzw.mono hsub) hsorted
    refine sorted_of_stays hfit hasc (hvz.mono hsub) ?_
    rw [Stays, hzui, hzdep]
    rfl

/-- The order of the actions, in which those of the serial `s` that are related to others come
last among those of this serial. -/
private def lastKey (s : Int32) (a : FlatpakRemoteRefAction) : ℤ ×ₗ ℕ :=
  toLex (a.serial.toInt, if a.serial = s ∧ a.isDependency = true then 1 else 0)

/-- Without an install or update of the serial, the comparison is that of this order. -/
private theorem lastKey_le {l : List FlatpakRemoteRefAction} {s : Int32} (hfit : SerialsFit l)
    (hnone : ∀ v ∈ l, v.serial = s → v.type = .uninstall) {a b : FlatpakRemoteRefAction}
    (ha : a ∈ l) (hb : b ∈ l) :
    (sorted a b = true → lastKey s a ≤ lastKey s b) ∧
      (sorted a b = false → lastKey s b ≤ lastKey s a) := by
  rw [lastKey, lastKey, Prod.Lex.toLex_le_toLex, Prod.Lex.toLex_le_toLex]
  by_cases hne : a.serial = b.serial
  · rw [hne]
    by_cases hs : b.serial = s
    · have hatype := hnone a ha (hne.trans hs)
      have hbtype := hnone b hb hs
      have htie := not_sorted_iff_of_serial_eq hne
      rw [hatype, hbtype, isUpdateOrInstall_eq_false_iff.2 hatype] at htie
      cases hsorted : sorted a b <;> rw [hsorted] at htie <;>
        cases hadep : a.isDependency <;> cases hbdep : b.isDependency <;> simp_all
    · simp [hs]
  · have hint : a.serial.toInt ≠ b.serial.toInt := fun h => hne (Int32.toInt_inj.1 h)
    have hlt := sorted_iff_of_serial_ne hne (hfit a ha b hb) (hfit b hb a ha)
    constructor
    · exact fun h => Or.inl (hlt.1 h)
    · intro h
      rw [h] at hlt
      have hnot : ¬ a.serial.toInt < b.serial.toInt := fun hab => nomatch hlt.2 hab
      exact Or.inl (by omega)

/-- Without an install or update of the serial, an uninstall of the list with this serial stays
behind `A`. -/
private theorem before_uninstall_of_no_install (hrel : RelatedActions related) (hL : SortedList L)
    (hA : A ∈ L) (hwL : w ∈ L) (hwtype : w.type = .uninstall) (hserial : w.serial = A.serial)
    (hnone : ¬ ∃ v, v.isUpdateOrInstall = true ∧ v.serial = A.serial ∧ Left related L v)
    (hAw : GLib.Before (survivors (addDependencies related L)) A w) :
    GLib.Before (squashRefActionsPtrArray (addDependencies related L)) A w := by
  have hsub := survivors_sublist refKey FlatpakRemoteRefAction.overridesUpdate
    (addDependencies related L)
  have hfit := (serialsFit_addDependencies hrel hL).mono fun a ha => hsub.subset ha
  -- the comparison of uninstalls with each other is transitive, so the key describes the sort
  have huninstall : ∀ v ∈ survivors (addDependencies related L), v.serial = A.serial →
      v.type = .uninstall := fun v hv hvserial => by
    by_contra htype
    have hui : v.isUpdateOrInstall = true := by
      rw [← Bool.not_eq_false]
      exact fun h => htype (isUpdateOrInstall_eq_false_iff.1 h)
    exact hnone ⟨v, hui, hvserial, mem_survivors.1 hv⟩
  have hwdep := hL.not_dependency w hwL
  rw [squashRefActionsPtrArray_eq]
  refine GLib.before_msort_of_key (lastKey A.serial)
    (fun a ha b hb => lastKey_le hfit huninstall ha hb) (fun z hz hzw => ?_) hAw ?_
  · -- what comes before `w` in this order may do so
    by_contra hsorted
    rw [Bool.not_eq_true] at hsorted
    by_cases hne : z.serial = w.serial
    · rcases (not_sorted_iff_of_serial_eq hne).1 hsorted with ⟨-, hui, -⟩ | ⟨-, -, hdep, -⟩
      · rw [isUpdateOrInstall_eq_false_iff.2 hwtype] at hui
        cases hui
      · rw [lastKey, lastKey, Prod.Lex.toLex_le_toLex, hne] at hzw
        simp [hserial, hdep, hwdep] at hzw
    · have hint : z.serial.toInt ≠ w.serial.toInt := fun h => hne (Int32.toInt_inj.1 h)
      have hle : w.serial.toInt ≤ z.serial.toInt := serial_le_of_not_sorted
        (hfit z hz w hAw.mem_right) (hfit w hAw.mem_right z hz) hsorted
      rw [lastKey, lastKey, Prod.Lex.toLex_le_toLex] at hzw
      rcases hzw with hlt | ⟨heq, -⟩
      · exact absurd hlt (by omega)
      · exact hint heq
  · rw [lastKey, lastKey, hserial, hL.not_dependency A hA, hwdep]

/-- The uninstall that is left on a ref related to `A` stays behind `A`. -/
private theorem before_uninstall (hrel : RelatedActions related) (hL : SortedList L)
    (hinj : SerialsDiffer L) (hA : A ∈ L) (hAtype : A.type = .uninstall)
    (hAO : A ∈ squashRefActionsPtrArray (addDependencies related L)) (hu : u ∈ related A)
    (huninstall : u.isUpdateOrInstall = false)
    (hwO : w ∈ squashRefActionsPtrArray (addDependencies related L)) (hwu : refKey w = refKey u)
    (hwtype : w.type = .uninstall) (huntied : ¬ Tied related L A w) :
    GLib.Before (squashRefActionsPtrArray (addDependencies related L)) A w := by
  have hfit := serialsFit_addDependencies hrel hL
  have hasc := pairwise_serial_addDependencies hrel hL.not_dependency hL.ascending
  have hsub := survivors_sublist refKey FlatpakRemoteRefAction.overridesUpdate
    (addDependencies related L)
  have hAui := isUpdateOrInstall_eq_false_iff.2 hAtype
  have hplace := placement hrel hL.toFlattenedList hA
  have hAw := survivors_before hrel hL.toFlattenedList hinj hA hAui (mem_squash_iff.1 hAO) hu
    huninstall hwu (mem_squash_iff.1 hwO)
  cases hwdep : w.isDependency with
  | true =>
      refine before_squash hfit hasc hAw ?_
      rw [Stays, isUpdateOrInstall_eq_false_iff.2 hwtype, hwdep]
      rfl
  | false =>
      -- an entry of the list, behind `A`
      have hAwL : GLib.Before L A w := by
        rcases hplace.of_after w (hAw.mono hsub) with h | ⟨c, -, hwc, -⟩
        · exact h
        · rw [hrel.isDependency c w hwc] at hwdep
          cases hwdep
      by_cases hserial : w.serial = A.serial
      · by_cases hrelated : ∃ z c, GLib.Before L c A ∧ z ∈ related c ∧ z.type = .uninstall ∧
            z.serial = A.serial ∧ Left related L z
        · exact before_uninstall_of_no_install hrel hL hA hAwL.mem_right hwtype hserial
            (fun hinstall => huntied ⟨⟨hAwL.mem_right, hserial⟩, hrelated, hinstall⟩) hAw
        · exact before_uninstall_of_no_related hrel hL hA hAtype hwtype hserial hrelated hAw
      · -- different serials: the list and the result ascend
        have hle := GLib.pairwise_iff_before.1 hL.ascending A w hAwL
        have hne : w ≠ A := fun heq => hserial (congrArg FlatpakRemoteRefAction.serial heq)
        have hsorted : (squashRefActionsPtrArray (addDependencies related L)).Pairwise
            fun a b => a.serial.toInt ≤ b.serial.toInt := by
          rw [squashRefActionsPtrArray_eq]
          exact pairwise_ptrArraySort (hfit.mono fun a ha => hsub.subset ha)
        have hint : w.serial.toInt ≠ A.serial.toInt := fun h => hserial (Int32.toInt_inj.1 h)
        rcases GLib.Before.total hwO hAO hne with h | h
        · have hge := GLib.pairwise_iff_before.1 hsorted w A h
          omega
        · exact h

/-- The comparison is not transitive on what is tied. -/
private theorem Tied.not_transitive (hrel : RelatedActions related)
    (hL : ∀ a ∈ L, a.isDependency = false) (hwtype : w.type = .uninstall) (h : Tied related L A w) :
    ∃ z ∈ squashRefActionsPtrArray (addDependencies related L),
      ∃ v ∈ squashRefActionsPtrArray (addDependencies related L),
        sorted z v = true ∧ sorted v w = true ∧ sorted z w = false := by
  obtain ⟨⟨hwL, hserial⟩, ⟨z, c, -, hzc, hztype, hzserial, hzleft⟩, v, hvui, hvserial, hvleft⟩ := h
  have hzui := isUpdateOrInstall_eq_false_iff.2 hztype
  have hwui := isUpdateOrInstall_eq_false_iff.2 hwtype
  have hvtype : v.type ≠ .uninstall := fun htype => by
    rw [isUpdateOrInstall_eq_false_iff.2 htype] at hvui
    cases hvui
  refine ⟨z, left_iff_mem.1 hzleft, v, left_iff_mem.1 hvleft, ?_, ?_, ?_⟩
  · rw [← Bool.not_eq_false, not_sorted_iff_of_serial_eq (hzserial.trans hvserial.symm)]
    simp [hzui, hvtype]
  · rw [← Bool.not_eq_false, not_sorted_iff_of_serial_eq (hvserial.trans hserial.symm)]
    simp [hwui, hvtype]
  · rw [not_sorted_iff_of_serial_eq (hzserial.trans hserial.symm)]
    simp [hztype, hwtype, hrel.isDependency c z hzc, hL w hwL]

/-- **Dependencies are uninstalled last**, unless actions of one serial are tied; where they are,
the comparison that sorts the result is not transitive on it. -/
theorem uninstall_last {σ : Type} (installation : FlatpakInstallation σ) (s : σ)
    {t : RefActionsTable} (hdep : ∀ a ∈ concatenatedActions t, a.isDependency = false)
    (hinj : SerialsDiffer (concatenatedActions t)) (hfit : SerialsFit (concatenatedActions t))
    {O : List FlatpakRemoteRefAction}
    (hO : addDependencyRefActionsForInstallation installation s
      (flattenFlatpakRefActionsTable t) = .ok O)
    (hA : A ∈ flattenFlatpakRefActionsTable t) (hAO : A ∈ O) (hAtype : A.type = .uninstall)
    (hu : u ∈ reportedActions installation s A) (hutype : u.type = .uninstall)
    (hwO : w ∈ O) (hwu : refKey w = refKey u) (hwtype : w.type = .uninstall) :
    (¬ Tied (reportedActions installation s) (flattenFlatpakRefActionsTable t) A w →
      GLib.Before O A w) ∧
    (Tied (reportedActions installation s) (flattenFlatpakRefActionsTable t) A w →
      ∃ z ∈ O, ∃ v ∈ O, sorted z v = true ∧ sorted v w = true ∧ sorted z w = false) := by
  obtain rfl := (addDependencyRefActions_eq_ok hO).symm
  have hrel := relatedActions_reportedActions installation s
  have hL := sortedList_flatten hdep hfit
  exact ⟨before_uninstall hrel hL
    (fun a ha b hb => hinj a (mem_of_mem_squash ha) b (mem_of_mem_squash hb)) hA hAtype hAO hu
    (isUpdateOrInstall_eq_false_iff.2 hutype) hwO hwu hwtype,
    Tied.not_transitive hrel hL.not_dependency hwtype⟩

/-! ### A dependency that is uninstalled first -/

/-- Two installed apps: uninstalling `org.example.Old` also removes its locale, and uninstalling
`org.example.App` the runtime `org.example.Platform`. -/
def appsWithRelated : FlatpakInstallation Unit :=
  let uninstalling (name : String) (ref : FlatpakRef) : TransactionOperation :=
    ⟨.uninstall, { ref with name := name }, some "eos-apps"⟩
  reportingInstallation (fun _ => true) fun request =>
    match request with
    | .uninstall ref =>
        if ref.name = "org.example.Old" then [uninstalling "org.example.Old.Locale" ref]
        else if ref.name = "org.example.App" then [uninstalling "org.example.Platform" ref]
        else []
    | _ => []

/-- Seven files with one entry each, all of serial 1. -/
def equalSerials : RefActionsTable :=
  ⟨[("10-a", [sampleAction .uninstall "org.example.Old" "10-a" 1]),
    ("20-b", [sampleAction .install "org.example.New" "20-b" 1]),
    ("30-c", [sampleAction .uninstall "org.example.App" "30-c" 1]),
    ("40-d", [sampleAction .uninstall "org.example.Platform" "40-d" 1]),
    ("50-e", [sampleAction .install "org.example.X" "50-e" 1]),
    ("60-f", [sampleAction .install "org.example.Y" "60-f" 1]),
    ("70-g", [sampleAction .install "org.example.Z" "70-g" 1])], by decide⟩

/-- The runtime is uninstalled before the app it is a dependency of. -/
theorem uninstall_out_of_order :
    let L := flattenFlatpakRefActionsTable equalSerials
    let A := sampleAction .uninstall "org.example.App" "30-c" 1
    let w := sampleAction .uninstall "org.example.Platform" "40-d" 1
    ∃ O, addDependencyRefActionsForInstallation appsWithRelated () L = .ok O ∧
      A ∈ L ∧ A ∈ O ∧ w ∈ O ∧
      (∃ u ∈ reportedActions appsWithRelated () A, u.type = .uninstall ∧ refKey w = refKey u) ∧
      GLib.Before O w A ∧ ¬ GLib.Before O A w := by
  refine ⟨squashRefActionsPtrArray (addDependencies (reportedActions appsWithRelated ())
    (flattenFlatpakRefActionsTable equalSerials)), rfl, ?_⟩
  decide +kernel

/-- Three of these files, without an install: the runtime is uninstalled behind the app. -/
theorem uninstall_last_sample :
    let t : RefActionsTable :=
      ⟨[("10-a", [sampleAction .uninstall "org.example.Old" "10-a" 1]),
        ("30-c", [sampleAction .uninstall "org.example.App" "30-c" 1]),
        ("40-d", [sampleAction .uninstall "org.example.Platform" "40-d" 1])], by decide⟩
    let old := sampleAction .uninstall "org.example.Old" "10-a" 1
    let A := sampleAction .uninstall "org.example.App" "30-c" 1
    let w := sampleAction .uninstall "org.example.Platform" "40-d" 1
    let oldLocale := { old with
      ref := ⟨{ old.ref.ref with name := "org.example.Old.Locale" }, some "eos-apps",
        some "com.endlessm.Apps"⟩, isDependency := true }
    addDependencyRefActionsForInstallation appsWithRelated ()
        (flattenFlatpakRefActionsTable t) = .ok [old, A, w, oldLocale] ∧
      GLib.Before [old, A, w, oldLocale] A w := by
  intro t old A w oldLocale
  have hresult : addDependencyRefActionsForInstallation appsWithRelated ()
      (flattenFlatpakRefActionsTable t) = .ok [old, A, w, oldLocale] := by decide +kernel
  let u := { w with
    ref := ⟨w.ref.ref, some "eos-apps", some "com.endlessm.Apps"⟩
    source := "30-c"
    isDependency := true }
  have huninstall : ∀ v ∈ [old, A, w, oldLocale], v.isUpdateOrInstall = false := by decide +kernel
  have hleft : squashRefActionsPtrArray (addDependencies (reportedActions appsWithRelated ())
      (flattenFlatpakRefActionsTable t)) = [old, A, w, oldLocale] :=
    (addDependencyRefActions_eq_ok hresult).symm
  refine ⟨hresult, (uninstall_last (A := A) (u := u) (w := w) appsWithRelated () (by decide +kernel)
    (by unfold SerialsDiffer; decide +kernel) (by decide +kernel) hresult (by decide +kernel)
    (by decide +kernel) (by decide +kernel) (by decide +kernel) (by decide +kernel)
    (by decide +kernel) (by decide +kernel) (by decide +kernel)).1 ?_⟩
  -- no install or update is left
  rintro ⟨-, -, v, hinstall, -, hv⟩
  rw [left_iff_mem, hleft] at hv
  rw [huninstall v hv] at hinstall
  cases hinstall

end Euu
