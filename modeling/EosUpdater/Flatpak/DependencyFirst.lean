import EosUpdater.Flatpak.DependencyOrder

/-!
# Dependencies come first

For an install or update `A` and a related install or update on a ref `R`, the result of
`addDependencyRefActionsForInstallation` should install or update `R` before `A`.

What is left on `R` need not be the action added for `A`: any other action on `R` is squashed
together with it. `DependencyKept` says, in terms of the list and of the related actions, when an
install or update in front of `A` remains, and `dependency_first_iff` that this is exactly when.
-/

namespace Euu

open Overwrite FlatpakRemoteRefAction

variable {related : FlatpakRemoteRefAction → List FlatpakRemoteRefAction}
variable {L : List FlatpakRemoteRefAction} {A r w : FlatpakRemoteRefAction} {R : FlatpakRef}

/-- The conditions under which `R` is installed or updated in front of `A`. -/
structure DependencyKept (related : FlatpakRemoteRefAction → List FlatpakRemoteRefAction)
    (L : List FlatpakRemoteRefAction) (A : FlatpakRemoteRefAction) (R : FlatpakRef) : Prop where
  /-- No action behind `A` has a related uninstall of `R`. -/
  uninstalls_before : ∀ c, GLib.Before L A c → ∀ u ∈ related c, refKey u = R →
    u.isUpdateOrInstall = true
  /-- The list does not install `R` behind `A`. -/
  installs_before : ∀ E, GLib.Before L A E → refKey E = R → E.type ≠ .install
  /-- Where `R` is uninstalled in front of `A`, or related to be so, the list installs it again
  before `A`. -/
  reinstalled : ∀ c, (GLib.Before L c A ∨ c = A) → ∀ u ∈ c :: related c, refKey u = R →
    u.isUpdateOrInstall = false →
      ∃ E, refKey E = R ∧ E.type = .install ∧ GLib.Before L c E ∧ GLib.Before L E A
  /-- If the list updates `R` behind `A`, then the first action on `R` is an install. -/
  first_install : ∀ E, GLib.Before L A E → refKey E = R → E.type = .update →
    ∃ b, (mentions related L).find? (fun a => decide (refKey a = R)) = some b ∧ b.type = .install

/-- Of two actions of the list, other than the same. -/
private theorem before_or_eq_or_before {a b : FlatpakRemoteRefAction} (ha : a ∈ L) (hb : b ∈ L) :
    (GLib.Before L a b ∨ a = b) ∨ GLib.Before L b a := by
  by_cases h : a = b
  · exact Or.inl (Or.inr h)
  · rcases GLib.Before.total ha hb h with h | h
    · exact Or.inl (Or.inl h)
    · exact Or.inr h

/-- Under the conditions, what is left on `R` is not an uninstall. -/
private theorem DependencyKept.winner_isUpdateOrInstall (hrel : RelatedActions related)
    (hL : FlattenedList L) (hA : A ∈ L) (hAR : refKey A ≠ R)
    (hno : ∀ E, GLib.Before L A E → refKey E = R → E.isUpdateOrInstall = true)
    (h : DependencyKept related L A R)
    (hw : winner refKey FlatpakRemoteRefAction.overridesUpdate (addDependencies related L) R =
      some w) : w.isUpdateOrInstall = true := by
  by_contra hui
  rw [Bool.not_eq_true] at hui
  have hwR := key_of_winner hw
  have hwD := mem_of_winner hw
  rcases (extension_addDependencies hrel hL.not_dependency).mem w hwD with hwL | ⟨c, hc, hwc, -⟩
  · -- an explicit uninstall: the list has no other action on `R`
    have hne : w ≠ A := fun heq => hAR (by rw [← heq, hwR])
    rcases GLib.Before.total hwL hA hne with hwA | hAw
    · obtain ⟨E, hER, hE, hwE, -⟩ := h.reinstalled w (Or.inl hwA) w List.mem_cons_self hwR hui
      obtain rfl := hL.eq_of_refKey_eq hwL hwE.mem_right (hwR.trans hER.symm)
      rw [isUpdateOrInstall_of_install hE] at hui
      cases hui
    · rw [hno w hAw hwR] at hui
      cases hui
  · -- an uninstall that is related to some `c`
    rcases before_or_eq_or_before hc hA with hcA | hAc
    · obtain ⟨E, hER, hE, hcE, hEA⟩ :=
        h.reinstalled c hcA w (List.mem_cons_of_mem _ hwc) hwR hui
      have hEL : E ∈ L := hcE.mem_right
      have hEui := isUpdateOrInstall_of_install hE
      have hEw : E ≠ w := fun heq => by rw [heq, hui] at hEui; cases hEui
      have hplace := placement hrel hL hEL
      have hafter := (before_winner hw
        (before_addDependencies hrel hL hcE).mem_right hER (overridesUpdate_of_install hE) hEw).1
      -- so `w` is also related to an action behind `E`, which cannot be reinstalled
      rcases hplace.of_after w hafter with hwL | ⟨c', hc', hwc', -⟩
      · exact hEw (hL.eq_of_refKey_eq hEL hwL.mem_right (hER.trans hwR.symm))
      · have hEc' : GLib.Before L E c' := by
          rcases hc' with hc' | ⟨-, hui'⟩
          · exact hc'
          · rw [hEui] at hui'
            cases hui'
        rcases before_or_eq_or_before hEc'.mem_right hA with hcA' | hAc'
        · obtain ⟨E', hER', -, hcE', -⟩ :=
            h.reinstalled c' hcA' w (List.mem_cons_of_mem _ hwc') hwR hui
          obtain rfl := hL.eq_of_refKey_eq hEL hcE'.mem_right (hER.trans hER'.symm)
          exact hEc'.asymm hL.nodup hcE'
        · rw [h.uninstalls_before c' hAc' w hwc' hwR] at hui
          cases hui
    · rw [h.uninstalls_before c hAc w hwc hwR] at hui
      cases hui

/-- A related install or update never stands behind `A` alone. -/
private theorem before_of_after (hrel : RelatedActions related) (hL : FlattenedList L)
    (hA : A ∈ L) (hAui : A.isUpdateOrInstall = true) (hr : r ∈ related A)
    (hwR : refKey w = refKey r) (hui : w.isUpdateOrInstall = true)
    (hAw : GLib.Before (addDependencies related L) A w) : GLib.Before L A w := by
  have hplace := placement hrel hL hA
  rcases hplace.of_after w hAw with h | ⟨c, -, -, hfresh⟩
  · exact h
  · obtain ⟨d, hdA, hdr⟩ := hplace.mentioned_before A (Or.inr ⟨rfl, hAui⟩) r hr
    exact absurd (hdr.trans hwR.symm) (hfresh hui d hdA)

/-- Under the conditions, what is left on `R` is not behind `A`. -/
private theorem DependencyKept.not_after (hrel : RelatedActions related) (hL : FlattenedList L)
    (hA : A ∈ L) (hAui : A.isUpdateOrInstall = true) (hr : r ∈ related A)
    (h : DependencyKept related L A (refKey r))
    (hw : winner refKey FlatpakRemoteRefAction.overridesUpdate (addDependencies related L)
      (refKey r) = some w) (hui : w.isUpdateOrInstall = true) :
    ¬ GLib.Before (addDependencies related L) A w := by
  intro hAw
  have hwR := key_of_winner hw
  have hexplicit := before_of_after hrel hL hA hAui hr hwR hui hAw
  cases htype : w.type with
  | install => exact h.installs_before w hexplicit hwR htype
  | uninstall =>
      rw [isUpdateOrInstall_eq_false_iff.2 htype] at hui
      cases hui
  | update =>
      obtain ⟨b, hb, hinstall⟩ := h.first_install w hexplicit hwR htype
      rw [← find?_addDependencies] at hb
      have hbR : refKey b = refKey r := by simpa using List.find?_some hb
      have hweak : w.overridesUpdate = false := by
        rw [FlatpakRemoteRefAction.overridesUpdate, htype]
        rfl
      have hb' := weak_of_winner hw hweak (List.mem_of_find?_eq_some hb) hbR
      rw [overridesUpdate_of_install hinstall] at hb'
      cases hb'

/-- A dependency that is left on `R` is the first action on `R`. -/
private theorem find?_of_dependency (hrel : RelatedActions related) (hL : FlattenedList L)
    (hw : winner refKey FlatpakRemoteRefAction.overridesUpdate (addDependencies related L) R =
      some w) (hui : w.isUpdateOrInstall = true) (hdep : w.isDependency = true) :
    (mentions related L).find? (fun a => decide (refKey a = R)) = some w := by
  have hwR := key_of_winner hw
  have hext := extension_addDependencies hrel hL.not_dependency
  rw [← find?_addDependencies]
  obtain ⟨D₁, D₂, heq, -, -⟩ := winner_split hw
  have hnone : D₁.find? (fun a => decide (refKey a = R)) = none := by
    rw [List.find?_eq_none]
    intro d hd hdR
    refine GLib.pairwise_iff_before.1 hext.first d w ?_ hdep hui ?_
    · rw [heq]
      exact GLib.Before.of_mem_append hd List.mem_cons_self
    · exact (of_decide_eq_true hdR).trans hwR.symm
  rw [heq, List.find?_append, hnone, Option.none_or, List.find?_cons_of_pos (by simpa using hwR)]

/-- If what is left on `R` stands in front of `A`, an uninstall of `R` in front of `A` has been
replaced by an install of the list between the two. -/
private theorem reinstalled_of_before (hrel : RelatedActions related) (hL : FlattenedList L)
    (hA : A ∈ L) (hAR : refKey A ≠ R)
    (hw : winner refKey FlatpakRemoteRefAction.overridesUpdate (addDependencies related L) R =
      some w) (hui : w.isUpdateOrInstall = true)
    (hwA : GLib.Before (addDependencies related L) w A) {c u : FlatpakRemoteRefAction}
    (hcA : GLib.Before L c A ∨ c = A) (hu : u ∈ c :: related c) (huR : refKey u = R)
    (huninstall : u.isUpdateOrInstall = false) :
    ∃ E, refKey E = R ∧ E.type = .install ∧ GLib.Before L c E ∧ GLib.Before L E A := by
  have hwR := key_of_winner hw
  have hplace := placement hrel hL hA
  have hext := extension_addDependencies hrel hL.not_dependency
  have honce := not_before_self hrel hL (Or.inr hui)
  have hcL : c ∈ L := by
    rcases hcA with hcA | rfl
    · exact hcA.mem_left
    · exact hA
  have huD : u ∈ addDependencies related L := by
    rcases List.mem_cons.1 hu with rfl | hu
    · exact hext.sublist.subset hcL
    · exact hext.uninstalls c hcL u hu huninstall
  have huw : u ≠ w := fun heq => by rw [heq, hui] at huninstall; cases huninstall
  obtain ⟨huw', hstrong⟩ :=
    before_winner hw huD huR (overridesUpdate_of_uninstall huninstall) huw
  have hinstall := type_eq_install hui hstrong
  -- `w` is not the first action on `R`, so it is no dependency
  have hwL : w ∈ L := by
    rcases hext.mem w (mem_of_winner hw) with hwL | ⟨c', -, hwc', -⟩
    · exact hwL
    · exact absurd (huR.trans hwR.symm) (GLib.pairwise_iff_before.1 hext.first u w huw'
        (hrel.isDependency c' w hwc') hui)
  have hwA' : GLib.Before L w A := by
    rcases GLib.Before.total hwL hA (fun heq => hAR (heq ▸ hwR)) with h | h
    · exact h
    · exact absurd (hwA.trans (before_addDependencies hrel hL h) hplace.once) honce
  have hcw : c ≠ w := by
    rintro rfl
    rcases List.mem_cons.1 hu with rfl | hu
    · exact huw rfl
    · exact hrel.ref_ne c u hu (huR.trans hwR.symm)
  refine ⟨w, hwR, hinstall, ?_, hwA'⟩
  rcases GLib.Before.total hcL hwL hcw with h | h
  · exact h
  · have hwu : GLib.Before (addDependencies related L) w u := by
      rcases List.mem_cons.1 hu with rfl | hu
      · exact before_addDependencies hrel hL h
      · exact (placement hrel hL hwL).uninstall_after c (Or.inl h) u hu huninstall
    have hweak := (weak_behind hw honce hwu huR).1
    rw [overridesUpdate_of_uninstall huninstall] at hweak
    cases hweak

/-- Conversely, an install or update of `R` that is left in front of `A` needs the conditions. -/
private theorem dependencyKept_of_before (hrel : RelatedActions related) (hL : FlattenedList L)
    (hA : A ∈ L) (hAR : refKey A ≠ R)
    (hw : winner refKey FlatpakRemoteRefAction.overridesUpdate (addDependencies related L) R =
      some w) (hui : w.isUpdateOrInstall = true)
    (hwA : GLib.Before (addDependencies related L) w A) : DependencyKept related L A R := by
  have hwR := key_of_winner hw
  have hplace := placement hrel hL hA
  have hext := extension_addDependencies hrel hL.not_dependency
  have honce := not_before_self hrel hL (Or.inr hui)
  -- nothing that could replace `w` is behind `A`
  have hbehind : ∀ x, GLib.Before (addDependencies related L) A x → refKey x = R →
      x.overridesUpdate = false ∧ w.overridesUpdate = true :=
    fun x hx => weak_behind hw honce (hwA.trans hx hplace.once)
  refine ⟨?_, ?_, ?_, ?_⟩
  · -- a related uninstall behind `A` would have replaced `w`
    intro c hAc u hu huR
    by_contra huninstall
    rw [Bool.not_eq_true] at huninstall
    have hstrong := (hbehind u (hplace.uninstall_after c (Or.inl hAc) u hu huninstall) huR).1
    rw [overridesUpdate_of_uninstall huninstall] at hstrong
    cases hstrong
  · -- so would an install of the list
    intro E hAE hER hinstall
    have hstrong := (hbehind E (before_addDependencies hrel hL hAE) hER).1
    rw [overridesUpdate_of_install hinstall] at hstrong
    cases hstrong
  · exact fun c hcA u hu huR huninstall =>
      reinstalled_of_before hrel hL hA hAR hw hui hwA hcA hu huR huninstall
  · -- an update behind `A` did not replace `w`, which is an install then
    intro E hAE hER hupdate
    have hstrong := (hbehind E (before_addDependencies hrel hL hAE) hER).2
    have hinstall := type_eq_install hui hstrong
    have hdep : w.isDependency = true := by
      rcases hext.mem w (mem_of_winner hw) with hwL | ⟨c', -, hwc', -⟩
      · rw [hL.eq_of_refKey_eq hwL hAE.mem_right (hwR.trans hER.symm), hupdate] at hinstall
        cases hinstall
      · exact hrel.isDependency c' w hwc'
    exact ⟨w, find?_of_dependency hrel hL hw hui hdep, hinstall⟩

/-- An install or update on `R` is left in front of `A` exactly under the conditions. -/
theorem dependency_before_iff (hrel : RelatedActions related) (hL : SortedList L) (hA : A ∈ L)
    (hAui : A.isUpdateOrInstall = true)
    (hAO : A ∈ squashRefActionsPtrArray (addDependencies related L)) (hr : r ∈ related A)
    (hno : ∀ E, GLib.Before L A E → refKey E = refKey r → E.isUpdateOrInstall = true) :
    (∃ B ∈ squashRefActionsPtrArray (addDependencies related L), refKey B = refKey r ∧
      B.isUpdateOrInstall = true ∧
      GLib.Before (squashRefActionsPtrArray (addDependencies related L)) B A) ↔
      DependencyKept related L A (refKey r) := by
  have hfit := serialsFit_addDependencies hrel hL
  have hasc := pairwise_serial_addDependencies hrel hL.not_dependency hL.ascending
  have hAR : refKey A ≠ refKey r := (hrel.ref_ne A r hr).symm
  have hplace := placement hrel hL.toFlattenedList hA
  have hstays : ∀ x ∈ L, x.isUpdateOrInstall = true → Stays x := fun x hx hui => by
    rw [Stays, hui, hL.not_dependency x hx]
    rfl
  have hsub := survivors_sublist refKey FlatpakRemoteRefAction.overridesUpdate
    (addDependencies related L)
  constructor
  · rintro ⟨B, hBO, hBR, hui, hBA⟩
    have hne : B ≠ A := fun heq => hAR (heq ▸ hBR)
    have hw := mem_squash_iff_winner.1 hBO
    rw [hBR] at hw
    refine dependencyKept_of_before hrel hL.toFlattenedList hA hAR hw hui ?_
    rcases GLib.Before.total (mem_squash_iff.1 hBO) (mem_squash_iff.1 hAO) hne with h | h
    · exact h.mono hsub
    · -- were `B` behind `A` before the sort, it would be an entry, and stay there
      have hAB := before_of_after hrel hL.toFlattenedList hA hAui hr hBR hui (h.mono hsub)
      exact absurd (before_squash hfit hasc h (hstays B hAB.mem_right hui))
        (hBA.asymm (nodup_squash _))
  -- the array has an action on the ref in front of `A`, so one wins the ref and is left
  · intro hkept
    obtain ⟨d, hdA, hdr⟩ := hplace.mentioned_before A (Or.inr ⟨rfl, hAui⟩) r hr
    obtain ⟨w, hw⟩ := exists_winner refKey FlatpakRemoteRefAction.overridesUpdate hdA.mem_left
    rw [hdr] at hw
    have hwR := key_of_winner hw
    have hui := hkept.winner_isUpdateOrInstall hrel hL.toFlattenedList hA hAR hno hw
    have hwS : w ∈ survivors (addDependencies related L) :=
      mem_survivors.2 (by rw [hwR]; exact hw)
    refine ⟨w, mem_squash_iff.2 hwS, hwR, hui, before_squash hfit hasc ?_ (hstays A hA hAui)⟩
    rcases GLib.Before.total hwS (mem_squash_iff.1 hAO) (fun heq => hAR (heq ▸ hwR)) with h | h
    · exact h
    · exact absurd (h.mono hsub) (hkept.not_after hrel hL.toFlattenedList hA hAui hr hw hui)

/-- **When dependencies come first.** For a flattened list, an install or update `A` in it that is
in the result, and an install or update related to it, on a ref that the list does not uninstall
behind `A`: the result has an install or update on that ref in front of `A` exactly under the
conditions. -/
theorem dependency_first_iff {σ : Type} (installation : FlatpakInstallation σ) (s : σ)
    {t : RefActionsTable}
    (hdep : ∀ a ∈ concatenatedActions t, a.isDependency = false)
    (hfit : SerialsFit (concatenatedActions t)) {O : List FlatpakRemoteRefAction}
    (hO : addDependencyRefActionsForInstallation installation s
      (flattenFlatpakRefActionsTable t) = .ok O)
    (hA : A ∈ flattenFlatpakRefActionsTable t) (hAO : A ∈ O) (hAui : A.isUpdateOrInstall = true)
    (hr : r ∈ reportedActions installation s A) (_ : r.isUpdateOrInstall = true)
    (hno : ∀ E, GLib.Before (flattenFlatpakRefActionsTable t) A E → refKey E = refKey r →
      E.type ≠ .uninstall) :
    (∃ B ∈ O, refKey B = refKey r ∧ B.isUpdateOrInstall = true ∧ GLib.Before O B A) ↔
      DependencyKept (reportedActions installation s) (flattenFlatpakRefActionsTable t) A
        (refKey r) := by
  obtain rfl := (addDependencyRefActions_eq_ok hO).symm
  refine dependency_before_iff (relatedActions_reportedActions installation s)
    (sortedList_flatten hdep hfit) hA hAui hAO hr fun E hAE hER => ?_
  cases hui : E.isUpdateOrInstall with
  | true => rfl
  | false => exact absurd (isUpdateOrInstall_eq_false_iff.1 hui) (hno E hAE hER)

/-! ### A dependency that is lost -/

/-- `org.example.App` needs the runtime `org.example.Platform`. -/
def appWithRuntime : FlatpakInstallation Unit :=
  reportingInstallation (fun _ => false) fun request =>
    match request with
    | .install remote ref =>
        [⟨.install, (sampleAction .install "org.example.Platform" "" 0).ref.ref, remote⟩,
          ⟨.install, ref, remote⟩]
    | _ => []

/-- One file uninstalls the runtime, which is not installed, and a later one installs the app. -/
def uninstallBeforeApp : RefActionsTable :=
  ⟨[("10-a", [sampleAction .uninstall "org.example.Platform" "10-a" 1]),
    ("20-b", [sampleAction .install "org.example.App" "20-b" 2])], by decide⟩

/-- The entry for the runtime keeps the dependency from being added, although it is an
uninstall. -/
theorem dependency_suppressed :
    let L := flattenFlatpakRefActionsTable uninstallBeforeApp
    let A := sampleAction .install "org.example.App" "20-b" 2
    addDependencyRefActionsForInstallation appWithRuntime () L = .ok L ∧ A ∈ L ∧
      (∃ r ∈ reportedActions appWithRuntime () A, r.type = .install ∧
        refKey r = refKey (sampleAction .install "org.example.Platform" "" 0) ∧
        (∀ E ∈ L, GLib.Before L A E → refKey E = refKey r → E.type ≠ .uninstall) ∧
        ¬ ∃ B ∈ L, refKey B = refKey r ∧ B.isUpdateOrInstall = true ∧ GLib.Before L B A) := by
  decide +kernel

/-- Without that uninstall the dependency is added, in front of the app and behind what another file
uninstalls. -/
theorem dependency_first_sample :
    let t : RefActionsTable :=
      ⟨[("10-a", [sampleAction .uninstall "org.example.Other" "10-a" 1]),
        ("20-b", [sampleAction .install "org.example.App" "20-b" 2])], by decide⟩
    let other := sampleAction .uninstall "org.example.Other" "10-a" 1
    let A := sampleAction .install "org.example.App" "20-b" 2
    let r := { sampleAction .install "org.example.Platform" "20-b" 2 with isDependency := true }
    addDependencyRefActionsForInstallation appWithRuntime ()
        (flattenFlatpakRefActionsTable t) = .ok [other, r, A] ∧
      r ∈ reportedActions appWithRuntime () A ∧
      DependencyKept (reportedActions appWithRuntime ()) (flattenFlatpakRefActionsTable t) A
        (refKey r) := by
  intro t other A r
  have hresult : addDependencyRefActionsForInstallation appWithRuntime ()
      (flattenFlatpakRefActionsTable t) = .ok [other, r, A] := by decide +kernel
  have hlist : flattenFlatpakRefActionsTable t = [other, A] := by decide +kernel
  have hnone : ∀ E ∈ [other, A], refKey E ≠ refKey r := by decide +kernel
  refine ⟨hresult, by decide +kernel, ?_⟩
  refine (dependency_first_iff appWithRuntime () (by decide +kernel) (by decide +kernel) hresult
    (by decide +kernel) (by decide +kernel) (by decide +kernel) (by decide +kernel)
    (by decide +kernel) fun E h hkey => ?_).1 ⟨r, by decide +kernel⟩
  have hmem := h.mem_right
  rw [hlist] at hmem
  exact absurd hkey (hnone E hmem)

end Euu
