import EosUpdater.Flatpak.Dependencies

/-!
# The order of dependencies

Where the elements of the array before squashing stand. `placement` says, for an action of the list,
what is in front of it and what behind; `find?_addDependencies` which action on a ref comes first,
and `pairwise_serial_addDependencies` that the serials ascend. `before_squash` carries an order
over to the squashed and sorted array.
-/

namespace Euu

open Overwrite FlatpakRemoteRefAction

variable {related : FlatpakRemoteRefAction → List FlatpakRemoteRefAction}
variable {D L L₁ L₂ : List FlatpakRemoteRefAction} {A : FlatpakRemoteRefAction}

/-! ### What is in front of an action and what behind it -/

/-- The actions of a list with what is related to them, where the outer loop puts it, as if nothing
were skipped. -/
def mentions (related : FlatpakRemoteRefAction → List FlatpakRemoteRefAction)
    (L : List FlatpakRemoteRefAction) : List FlatpakRemoteRefAction :=
  L.flatMap fun a => if a.isUpdateOrInstall then related a ++ [a] else a :: related a

/-- The first action on a ref is the same, whether or not the repeated ones are left out. -/
private theorem find?_foldl_addRelatedRefAction (k : FlatpakRef)
    (l D : List FlatpakRemoteRefAction) :
    (l.foldl addRelatedRefAction D).find? (fun a => decide (refKey a = k)) =
      (D ++ l).find? fun a => decide (refKey a = k) := by
  induction l generalizing D with
  | nil => simp
  | cons r l ih =>
      rw [List.foldl_cons, ih, addRelatedRefAction]
      split
      · next hskip =>
          rw [Bool.and_eq_true, List.any_eq_true] at hskip
          obtain ⟨-, d, hd, hdr⟩ := hskip
          simp only [List.find?_append, List.find?_cons]
          by_cases hr : refKey r = k
          · -- skipped, since another action on the ref comes before
            have hfound : (D.find? fun a => decide (refKey a = k)).isSome = true := by
              rw [List.find?_isSome]
              exact ⟨d, hd, decide_eq_true ((of_decide_eq_true hdr).trans hr)⟩
            obtain ⟨e, he⟩ := Option.isSome_iff_exists.1 hfound
            rw [he, Option.some_or, Option.some_or]
          · simp [hr]
      · simp

/-- What is skipped is never the first action on a ref. -/
theorem find?_addDependencies (L : List FlatpakRemoteRefAction) (k : FlatpakRef) :
    (addDependencies related L).find? (fun a => decide (refKey a = k)) =
      (mentions related L).find? fun a => decide (refKey a = k) := by
  -- from the right, as the last action is the one added last
  induction L using List.reverseRecOn with
  | nil => rfl
  | append_singleton L a ih =>
      have hdeps : addDependencies related (L ++ [a]) =
          addWithRelated (addDependencies related L) a (related a) := by
        rw [addDependencies, List.foldl_append]
        rfl
      have hmentions : mentions related (L ++ [a]) = mentions related L ++
          if a.isUpdateOrInstall then related a ++ [a] else a :: related a := by
        simp [mentions]
      rw [hdeps, hmentions, List.find?_append, ← ih, ← List.find?_append, addWithRelated]
      cases hui : a.isUpdateOrInstall with
      | true =>
          have htype : a.type ≠ .uninstall := fun h => by
            rw [isUpdateOrInstall_eq_false_iff.2 h] at hui
            cases hui
          simp only [htype, if_false, if_true]
          rw [List.find?_append, find?_foldl_addRelatedRefAction, ← List.find?_append,
            List.append_assoc]
      | false =>
          simp only [isUpdateOrInstall_eq_false_iff.1 hui, if_true, Bool.false_eq_true, if_false]
          rw [find?_foldl_addRelatedRefAction, List.append_assoc]
          rfl

/-- What one step of the outer loop adds. -/
theorem addWithRelated_cases (D : List FlatpakRemoteRefAction) (a : FlatpakRemoteRefAction)
    (relatedRefActions : List FlatpakRemoteRefAction) :
    (a.isUpdateOrInstall = true ∧ ∃ added, RelatedPart D relatedRefActions added ∧
      addWithRelated D a relatedRefActions = D ++ added ++ [a]) ∨
    (a.isUpdateOrInstall = false ∧ ∃ added, RelatedPart (D ++ [a]) relatedRefActions added ∧
      addWithRelated D a relatedRefActions = D ++ a :: added) := by
  cases hui : a.isUpdateOrInstall with
  | true =>
      obtain ⟨added, heq, hpart⟩ := exists_relatedPart D relatedRefActions
      have htype : a.type ≠ .uninstall := fun h => by
        rw [isUpdateOrInstall_eq_false_iff.2 h] at hui
        cases hui
      refine Or.inl ⟨rfl, added, hpart, ?_⟩
      simp [addWithRelated, hui, htype, heq]
  | false =>
      obtain ⟨added, heq, hpart⟩ := exists_relatedPart (D ++ [a]) relatedRefActions
      refine Or.inr ⟨rfl, added, hpart, ?_⟩
      simp [addWithRelated, hui, isUpdateOrInstall_eq_false_iff.1 hui, heq]

/-- What the outer loop adds to an array `D` for the actions of `L`. -/
structure Extension (related : FlatpakRemoteRefAction → List FlatpakRemoteRefAction)
    (D L added : List FlatpakRemoteRefAction) : Prop where
  mem : ∀ x ∈ added, x ∈ L ∨ ∃ c ∈ L, x ∈ related c ∧
    (x.isUpdateOrInstall = true → ∀ d ∈ D, refKey d ≠ refKey x)
  sublist : L.Sublist added
  uninstalls : ∀ c ∈ L, ∀ r ∈ related c, r.isUpdateOrInstall = false → r ∈ added
  mentioned : ∀ c ∈ L, ∀ r ∈ related c, ∃ d ∈ D ++ added, refKey d = refKey r
  first : added.Pairwise fun x y =>
    y.isDependency = true → y.isUpdateOrInstall = true → refKey x ≠ refKey y

/-- No action that is added comes behind another one on the ref it installs or updates. -/
private theorem RelatedPart.first_of_dependency {related added : List FlatpakRemoteRefAction}
    (hpart : RelatedPart D related added) : added.Pairwise fun x y =>
      y.isDependency = true → y.isUpdateOrInstall = true → refKey x ≠ refKey y := by
  refine hpart.first.imp ?_
  intro x y h _
  exact h

/-- One action extends the array by its block. -/
private theorem extension_singleton (hrel : RelatedActions related)
    (hA : A.isDependency = false) (D : List FlatpakRemoteRefAction) :
    ∃ added, addWithRelated D A (related A) = D ++ added ∧ Extension related D [A] added := by
  rcases addWithRelated_cases D A (related A) with ⟨-, added, hpart, heq⟩ | ⟨-, added, hpart, heq⟩
  · -- an install or update, behind what is related to it
    refine ⟨added ++ [A], by rw [heq, List.append_assoc], ?_, ?_, ?_, ?_, ?_⟩
    · intro x hx
      rcases List.mem_append.1 hx with hx | hx
      · exact Or.inr ⟨A, by simp, hpart.sublist.subset hx, hpart.fresh x hx⟩
      · exact Or.inl hx
    · exact List.sublist_append_right _ _
    · intro c hc r hr huninstall
      rw [List.mem_singleton.1 hc] at hr
      exact List.mem_append_left _ (hpart.uninstalls r hr huninstall)
    · intro c hc r hr
      rw [List.mem_singleton.1 hc] at hr
      obtain ⟨d, hd, hkey⟩ := hpart.mentioned r hr
      exact ⟨d, by rw [← List.append_assoc]; exact List.mem_append_left _ hd, hkey⟩
    · refine List.pairwise_append.2 ⟨hpart.first_of_dependency, by simp, ?_⟩
      intro x _ y hy hdep
      rw [List.mem_singleton.1 hy, hA] at hdep
      cases hdep
  · -- an uninstall, in front of it
    refine ⟨A :: added, heq, ?_, ?_, ?_, ?_, ?_⟩
    · intro x hx
      rcases List.mem_cons.1 hx with rfl | hx
      · exact Or.inl (by simp)
      · exact Or.inr ⟨A, by simp, hpart.sublist.subset hx, fun hui d hd =>
          hpart.fresh x hx hui d (List.mem_append_left _ hd)⟩
    · exact List.singleton_sublist.2 List.mem_cons_self
    · intro c hc r hr huninstall
      rw [List.mem_singleton.1 hc] at hr
      exact List.mem_cons_of_mem _ (hpart.uninstalls r hr huninstall)
    · intro c hc r hr
      rw [List.mem_singleton.1 hc] at hr
      obtain ⟨d, hd, hkey⟩ := hpart.mentioned r hr
      exact ⟨d, by simpa using hd, hkey⟩
    · refine List.pairwise_cons.2 ⟨fun y hy _ _ => ?_, hpart.first_of_dependency⟩
      exact (hrel.ref_ne A y (hpart.sublist.subset hy)).symm

/-- Two blocks extend the array one behind the other. -/
private theorem Extension.append {block added : List FlatpakRemoteRefAction}
    (h₁ : Extension related D L₁ block) (h₂ : Extension related (D ++ block) L₂ added)
    (hL₂ : ∀ a ∈ L₂, a.isDependency = false) :
    Extension related D (L₁ ++ L₂) (block ++ added) := by
  constructor
  case mem =>
    intro x hx
    rcases List.mem_append.1 hx with hx | hx
    · rcases h₁.mem x hx with hx | ⟨c, hc, hxc, hfresh⟩
      · exact Or.inl (List.mem_append_left _ hx)
      · exact Or.inr ⟨c, List.mem_append_left _ hc, hxc, hfresh⟩
    · rcases h₂.mem x hx with hx | ⟨c, hc, hxc, hfresh⟩
      · exact Or.inl (List.mem_append_right _ hx)
      · exact Or.inr ⟨c, List.mem_append_right _ hc, hxc, fun hui d hd =>
          hfresh hui d (List.mem_append_left _ hd)⟩
  case sublist => exact h₁.sublist.append h₂.sublist
  case uninstalls =>
    intro c hc r hr huninstall
    rcases List.mem_append.1 hc with hc | hc
    · exact List.mem_append_left _ (h₁.uninstalls c hc r hr huninstall)
    · exact List.mem_append_right _ (h₂.uninstalls c hc r hr huninstall)
  case mentioned =>
    intro c hc r hr
    rw [← List.append_assoc]
    rcases List.mem_append.1 hc with hc | hc
    · obtain ⟨d, hd, hkey⟩ := h₁.mentioned c hc r hr
      exact ⟨d, List.mem_append_left _ hd, hkey⟩
    · exact h₂.mentioned c hc r hr
  case first =>
    -- a dependency that is added later is on a ref that the first block does not mention
    refine List.pairwise_append.2 ⟨h₁.first, h₂.first, fun x hx y hy hdep hui => ?_⟩
    rcases h₂.mem y hy with hy | ⟨c, -, -, hfresh⟩
    · rw [hL₂ y hy] at hdep
      cases hdep
    · exact hfresh hui x (List.mem_append_right _ hx)

/-- Going through the list appends its actions in their order, each behind the related actions it
adds. -/
theorem exists_extension (hrel : RelatedActions related)
    (hL : ∀ a ∈ L, a.isDependency = false) (D : List FlatpakRemoteRefAction) :
    ∃ added, L.foldl (fun D a => addWithRelated D a (related a)) D = D ++ added ∧
      Extension related D L added := by
  -- over the list: its first action adds a block, and the others are added behind this
  induction L generalizing D with
  | nil => exact ⟨[], by simp, by simp, by simp, by simp, by simp, by simp⟩
  | cons a L ih =>
      have hdep : ∀ b ∈ L, b.isDependency = false := fun b hb => hL b (List.mem_cons_of_mem _ hb)
      obtain ⟨block, hblock, hext⟩ := extension_singleton hrel (hL a List.mem_cons_self) D
      obtain ⟨added, hadded, hext'⟩ := ih hdep (D ++ block)
      refine ⟨block ++ added, ?_, hext.append hext' hdep⟩
      rw [List.foldl_cons, hblock, hadded, List.append_assoc]

/-- The whole array. -/
theorem extension_addDependencies (hrel : RelatedActions related)
    (hL : ∀ a ∈ L, a.isDependency = false) :
    Extension related [] L (addDependencies related L) := by
  obtain ⟨added, heq, hext⟩ := exists_extension hrel hL []
  rw [addDependencies, heq]
  exact hext

/-- The array splits at an action of the list. In front of it are the actions before it in the list,
and what is related to these and, if it is an install or update, to itself; behind it the others.
A related install or update behind it is about a ref that nothing in front is about. -/
structure DependencySplit (related : FlatpakRemoteRefAction → List FlatpakRemoteRefAction)
    (L₁ : List FlatpakRemoteRefAction) (A : FlatpakRemoteRefAction)
    (L₂ X Y : List FlatpakRemoteRefAction) : Prop where
  front : L₁.Sublist X
  mem_front : ∀ x ∈ X, x ∈ L₁ ∨
    ∃ c, (c ∈ L₁ ∨ c = A ∧ A.isUpdateOrInstall = true) ∧ x ∈ related c
  front_uninstalls : ∀ c, (c ∈ L₁ ∨ c = A ∧ A.isUpdateOrInstall = true) →
    ∀ r ∈ related c, r.isUpdateOrInstall = false → r ∈ X
  mentioned : ∀ c, (c ∈ L₁ ∨ c = A ∧ A.isUpdateOrInstall = true) →
    ∀ r ∈ related c, ∃ d ∈ X, refKey d = refKey r
  back : L₂.Sublist Y
  mem_back : ∀ y ∈ Y, y ∈ L₂ ∨
    ∃ c, (c ∈ L₂ ∨ c = A ∧ A.isUpdateOrInstall = false) ∧ y ∈ related c ∧
      (y.isUpdateOrInstall = true → ∀ d ∈ X, refKey d ≠ refKey y)
  back_uninstalls : ∀ c, (c ∈ L₂ ∨ c = A ∧ A.isUpdateOrInstall = false) →
    ∀ r ∈ related c, r.isUpdateOrInstall = false → r ∈ Y

section Split

variable {L₁ L₂ D₁ added : List FlatpakRemoteRefAction}

/-- Each action of the extended list is from the list itself or related to an action of it. -/
private theorem Extension.mem_or_related (h : Extension related [] L₁ D₁) {x} (hx : x ∈ D₁) :
    x ∈ L₁ ∨ ∃ c ∈ L₁, x ∈ related c := by
  rcases h.mem x hx with hx | ⟨c, hc, hxc, -⟩
  · exact Or.inl hx
  · exact Or.inr ⟨c, hc, hxc⟩

/-- What is related to an install or update is in front of it. -/
private theorem exists_dependencySplit_of_install (hrel : RelatedActions related)
    (hL₂ : ∀ a ∈ L₂, a.isDependency = false) (hL₁ : Extension related [] L₁ D₁)
    (hui : A.isUpdateOrInstall = true) (hpart : RelatedPart D₁ (related A) added) :
    ∃ X Y, L₂.foldl (fun D a => addWithRelated D a (related a)) (D₁ ++ added ++ [A]) =
        X ++ A :: Y ∧ DependencySplit related L₁ A L₂ X Y := by
  obtain ⟨rest, hrest, hext⟩ := exists_extension hrel hL₂ (D₁ ++ added ++ [A])
  -- the block of `A` ends with `A`, so what is related to it belongs to the front
  refine ⟨D₁ ++ added, rest, by rw [hrest]; simp, ?_⟩
  constructor
  case front => exact hL₁.sublist.trans (List.sublist_append_left _ _)
  case mem_front =>
    intro x hx
    rcases List.mem_append.1 hx with hx | hx
    · rcases hL₁.mem_or_related hx with hx | ⟨c, hc, hxc⟩
      · exact Or.inl hx
      · exact Or.inr ⟨c, Or.inl hc, hxc⟩
    · exact Or.inr ⟨A, Or.inr ⟨rfl, hui⟩, hpart.sublist.subset hx⟩
  case front_uninstalls =>
    rintro c (hc | ⟨rfl, -⟩) r hr huninstall
    · exact List.mem_append_left _ (hL₁.uninstalls c hc r hr huninstall)
    · exact List.mem_append_right _ (hpart.uninstalls r hr huninstall)
  case mentioned =>
    rintro c (hc | ⟨rfl, -⟩) r hr
    · obtain ⟨d, hd, hkey⟩ := hL₁.mentioned c hc r hr
      exact ⟨d, List.mem_append_left _ hd, hkey⟩
    · exact hpart.mentioned r hr
  case back => exact hext.sublist
  case mem_back =>
    intro y hy
    rcases hext.mem y hy with hy | ⟨c, hc, hyc, hfresh⟩
    · exact Or.inl hy
    · exact Or.inr ⟨c, Or.inl hc, hyc, fun hy d hd => hfresh hy d (List.mem_append_left _ hd)⟩
  case back_uninstalls =>
    rintro c (hc | ⟨rfl, hui'⟩) r hr huninstall
    · exact hext.uninstalls c hc r hr huninstall
    · rw [hui] at hui'
      cases hui'

/-- What is related to an uninstall is behind it. -/
private theorem exists_dependencySplit_of_uninstall (hrel : RelatedActions related)
    (hL₂ : ∀ a ∈ L₂, a.isDependency = false) (hL₁ : Extension related [] L₁ D₁)
    (hui : A.isUpdateOrInstall = false) (hpart : RelatedPart (D₁ ++ [A]) (related A) added) :
    ∃ X Y, L₂.foldl (fun D a => addWithRelated D a (related a)) (D₁ ++ A :: added) =
        X ++ A :: Y ∧ DependencySplit related L₁ A L₂ X Y := by
  obtain ⟨rest, hrest, hext⟩ := exists_extension hrel hL₂ (D₁ ++ A :: added)
  -- the block of `A` begins with `A`, so what is related to it belongs to the back
  refine ⟨D₁, added ++ rest, by rw [hrest]; simp, ?_⟩
  constructor
  case front => exact hL₁.sublist
  case mem_front =>
    intro x hx
    rcases hL₁.mem_or_related hx with hx | ⟨c, hc, hxc⟩
    · exact Or.inl hx
    · exact Or.inr ⟨c, Or.inl hc, hxc⟩
  case front_uninstalls =>
    rintro c (hc | ⟨rfl, hui'⟩) r hr huninstall
    · exact hL₁.uninstalls c hc r hr huninstall
    · rw [hui] at hui'
      cases hui'
  case mentioned =>
    rintro c (hc | ⟨rfl, hui'⟩) r hr
    · exact hL₁.mentioned c hc r hr
    · rw [hui] at hui'
      cases hui'
  case back => exact hext.sublist.trans (List.sublist_append_right _ _)
  case mem_back =>
    intro y hy
    rcases List.mem_append.1 hy with hy | hy
    · exact Or.inr ⟨A, Or.inr ⟨rfl, hui⟩, hpart.sublist.subset hy, fun hy' d hd =>
        hpart.fresh y hy hy' d (List.mem_append_left _ hd)⟩
    · rcases hext.mem y hy with hy | ⟨c, hc, hyc, hfresh⟩
      · exact Or.inl hy
      · exact Or.inr ⟨c, Or.inl hc, hyc, fun hy d hd => hfresh hy d (List.mem_append_left _ hd)⟩
  case back_uninstalls =>
    rintro c (hc | ⟨rfl, -⟩) r hr huninstall
    · exact List.mem_append_right _ (hext.uninstalls c hc r hr huninstall)
    · exact List.mem_append_left _ (hpart.uninstalls r hr huninstall)

end Split

/-- The extended list divides at each action into what is in front of it and what is behind it. -/
theorem exists_dependencySplit (hrel : RelatedActions related)
    (hL : ∀ a ∈ L₁ ++ A :: L₂, a.isDependency = false) :
    ∃ X Y, addDependencies related (L₁ ++ A :: L₂) = X ++ A :: Y ∧
      DependencySplit related L₁ A L₂ X Y := by
  have hL₁ := extension_addDependencies hrel (L := L₁) fun a ha => hL a (List.mem_append_left _ ha)
  have hL₂ : ∀ a ∈ L₂, a.isDependency = false := fun a ha => hL a (by simp [ha])
  -- the array as it is when the loop comes to `A`
  have hfold : addDependencies related (L₁ ++ A :: L₂) =
      L₂.foldl (fun D a => addWithRelated D a (related a))
        (addWithRelated (addDependencies related L₁) A (related A)) := by
    rw [addDependencies, List.foldl_append, List.foldl_cons]
    rfl
  rw [hfold]
  rcases addWithRelated_cases (addDependencies related L₁) A (related A) with
    ⟨hui, added, hpart, heq⟩ | ⟨hui, added, hpart, heq⟩
  · rw [heq]
    exact exists_dependencySplit_of_install hrel hL₂ hL₁ hui hpart
  · rw [heq]
    exact exists_dependencySplit_of_uninstall hrel hL₂ hL₁ hui hpart

/-! ### Flattened lists -/

/-- What is known of a list that `flattenFlatpakRefActionsTable` returns: it has at most one action
per ref, and no dependency. -/
structure FlattenedList (L : List FlatpakRemoteRefAction) : Prop where
  distinct : L.Pairwise fun a b => refKey a ≠ refKey b
  not_dependency : ∀ a ∈ L, a.isDependency = false

/-- As far as serials fit, they ascend. -/
structure SortedList (L : List FlatpakRemoteRefAction) : Prop extends FlattenedList L where
  ascending : L.Pairwise fun a b => a.serial.toInt ≤ b.serial.toInt
  serialsFit : SerialsFit L

/-- A flattened list has no action twice. -/
theorem FlattenedList.nodup (hL : FlattenedList L) : L.Nodup :=
  hL.distinct.imp fun hne heq => hne (congrArg refKey heq)

/-- The only action of a flattened list on its ref. -/
theorem FlattenedList.eq_of_refKey_eq (hL : FlattenedList L) {a b : FlatpakRemoteRefAction}
    (ha : a ∈ L) (hb : b ∈ L) (h : refKey a = refKey b) : a = b := by
  by_contra hne
  rcases GLib.Before.total ha hb hne with hab | hba
  · exact GLib.pairwise_iff_before.1 hL.distinct a b hab h
  · exact GLib.pairwise_iff_before.1 hL.distinct b a hba h.symm

/-- Flattening lists without dependencies gives a flattened list. -/
theorem flattenedList_flatten {t : RefActionsTable}
    (hdep : ∀ a ∈ concatenatedActions t, a.isDependency = false) :
    FlattenedList (flattenFlatpakRefActionsTable t) :=
  ⟨pairwise_squash _, fun a ha => hdep a (mem_of_mem_squash ha)⟩

/-- A flattened list whose serials fit ascends by serial and has no dependencies in it. -/
theorem sortedList_flatten {t : RefActionsTable}
    (hdep : ∀ a ∈ concatenatedActions t, a.isDependency = false)
    (hfit : SerialsFit (concatenatedActions t)) : SortedList (flattenFlatpakRefActionsTable t) := by
  refine ⟨flattenedList_flatten hdep, ?_, hfit.mono fun a ha => mem_of_mem_squash ha⟩
  rw [flattenFlatpakRefActionsTable, squashRefActionsPtrArray_eq]
  exact pairwise_ptrArraySort (hfit.mono fun a ha =>
    (survivors_sublist refKey FlatpakRemoteRefAction.overridesUpdate _).subset ha)

/-- What a run executes is a flattened list. -/
theorem flattenedList_new (T : AutoinstallTable) (P : Progresses) :
    FlattenedList (flattenFlatpakRefActionsTable (filterForNewFlatpakRefActions T.files P)) := by
  refine ⟨pairwise_squash _, fun a ha => ?_⟩
  obtain ⟨actions, hlookup, hmem⟩ := ((T.mem_flatten_new P).1 ha).1.1
  exact T.not_dependency _ _ hlookup a hmem

/-- The list that the installer starts from ascends by serial and has no dependencies in it. -/
theorem sortedList_new {T : AutoinstallTable} (hfit : T.SerialsFit) (P : Progresses) :
    SortedList (flattenFlatpakRefActionsTable (filterForNewFlatpakRefActions T.files P)) := by
  refine ⟨flattenedList_new T P, (AutoinstallTable.pairwise_flatten_new hfit P).imp ?_, ?_⟩
  · intro a b hlt
    rw [execPosition, execPosition, Prod.Lex.toLex_lt_toLex] at hlt
    rcases hlt with hlt | ⟨heq, -⟩
    · exact le_of_lt hlt
    · exact le_of_eq heq
  · exact fun a ha b hb =>
      hfit a b ((T.mem_flatten_new P).1 ha).1.1 ((T.mem_flatten_new P).1 hb).1.1

/-- A flattened list splits at each of its actions into what is before and what is behind. -/
theorem FlattenedList.exists_split (hL : FlattenedList L) (hA : A ∈ L) :
    ∃ L₁ L₂, L = L₁ ++ A :: L₂ ∧ (∀ x, GLib.Before L x A ↔ x ∈ L₁) ∧
      ∀ x, GLib.Before L A x ↔ x ∈ L₂ := by
  obtain ⟨L₁, L₂, rfl⟩ := List.append_of_mem hA
  have hnodup := hL.nodup
  rw [List.nodup_append, List.nodup_cons] at hnodup
  have hA₁ : A ∉ L₁ := fun h => hnodup.2.2 A h A List.mem_cons_self rfl
  exact ⟨L₁, L₂, rfl, fun x => GLib.Before.before_split_iff hA₁ hnodup.2.1.1,
    fun x => GLib.Before.split_before_iff hA₁ hnodup.2.1.1⟩

/-! ### The serials of the array -/

/-- Every element of the array has the source and serial of an action of the list. -/
theorem exists_owner (hrel : RelatedActions related) (hL : ∀ a ∈ L, a.isDependency = false)
    {x : FlatpakRemoteRefAction} (hx : x ∈ addDependencies related L) :
    ∃ c ∈ L, (x = c ∨ x ∈ related c) ∧ x.source = c.source ∧ x.serial = c.serial := by
  rcases (extension_addDependencies hrel hL).mem x hx with hx | ⟨c, hc, hxc, -⟩
  · exact ⟨x, hx, Or.inl rfl, rfl, rfl⟩
  · exact ⟨c, hc, Or.inr hxc, hrel.source c x hxc, hrel.serial c x hxc⟩

/-- Related actions take the serial of their cause, so that the serials still fit. -/
theorem serialsFit_addDependencies (hrel : RelatedActions related) (hL : SortedList L) :
    SerialsFit (addDependencies related L) := by
  intro x hx y hy
  obtain ⟨c, hc, -, -, hxc⟩ := exists_owner hrel hL.not_dependency hx
  obtain ⟨d, hd, -, -, hyd⟩ := exists_owner hrel hL.not_dependency hy
  rw [hxc, hyd]
  exact hL.serialsFit c hc d hd

/-- The array ascends by serial, as the list does. -/
theorem pairwise_serial_addDependencies (hrel : RelatedActions related)
    (hdep : ∀ a ∈ L, a.isDependency = false)
    (hasc : L.Pairwise fun a b => a.serial.toInt ≤ b.serial.toInt) :
    (addDependencies related L).Pairwise fun a b => a.serial.toInt ≤ b.serial.toInt := by
  induction L using List.reverseRecOn with
  | nil => exact List.Pairwise.nil
  | append_singleton L a ih =>
      have hdepL : ∀ b ∈ L, b.isDependency = false := fun b hb => hdep b (by simp [hb])
      rw [List.pairwise_append] at hasc
      obtain ⟨block, hblock, hext⟩ := extension_singleton hrel (hdep a (by simp))
        (addDependencies related L)
      have hserial : ∀ x ∈ block, x.serial = a.serial := fun x hx => by
        rcases hext.mem x hx with hx | ⟨c, hc, hxc, -⟩
        · rw [List.mem_singleton.1 hx]
        · rw [hrel.serial c x hxc, List.mem_singleton.1 hc]
      have heq : addDependencies related (L ++ [a]) = addDependencies related L ++ block := by
        rw [← hblock, addDependencies, List.foldl_append]
        rfl
      rw [heq]
      -- the block has the serial of `a`, which is at least those of the actions before it
      refine List.pairwise_append.2 ⟨ih hdepL hasc.1, ?_, fun x hx y hy => ?_⟩
      · refine GLib.pairwise_iff_before.2 fun x y hxy => ?_
        rw [hserial x hxy.mem_left, hserial y hxy.mem_right]
      · obtain ⟨c, hc, -, -, hxc⟩ := exists_owner hrel hdepL hx
        rw [hxc, hserial y hy]
        exact hasc.2.2 c hc a (by simp)

/-! ### The squashed array -/

/-- The element that is left on a ref is its winner. -/
theorem mem_squash_iff_winner {x : FlatpakRemoteRefAction} :
    x ∈ squashRefActionsPtrArray D ↔
      winner refKey FlatpakRemoteRefAction.overridesUpdate D (refKey x) = some x := by
  rw [mem_squash_iff, mem_survivors]

/-- An action that no tie rule moves forward: an install or update that is no dependency, or an
uninstall that is one. -/
def Stays (a : FlatpakRemoteRefAction) : Prop := a.isUpdateOrInstall = !a.isDependency

/-- An action that the comparator leaves alone keeps its place in front of a later one. -/
theorem sorted_of_stays {x y : FlatpakRemoteRefAction} (hfit : SerialsFit D)
    (hasc : D.Pairwise fun a b => a.serial.toInt ≤ b.serial.toInt) (hxy : GLib.Before D x y)
    (hy : Stays y) : sorted x y = true := by
  have hle := GLib.pairwise_iff_before.1 hasc x y hxy
  have hx := hfit x hxy.mem_left y hxy.mem_right
  have hy' := hfit y hxy.mem_right x hxy.mem_left
  by_cases hne : x.serial = y.serial
  · -- neither tie rule is about an action in the place of `y`
    have htie : sorted x y ≠ false := by
      rw [Ne, not_sorted_iff_of_serial_eq hne]
      rintro (⟨-, hui, -, hdep⟩ | ⟨-, htype, -, hdep⟩)
      · rw [Stays, hui, hdep] at hy
        cases hy
      · rw [Stays, isUpdateOrInstall_eq_false_iff.2 htype, Bool.eq_false_of_not_eq_true hdep] at hy
        cases hy
    exact Bool.eq_true_of_not_eq_false htie
  · have hint : x.serial.toInt ≠ y.serial.toInt := fun h => hne (Int32.toInt_inj.1 h)
    rw [sorted_iff_of_serial_ne hne hx hy']
    omega

/-- What stays is behind whatever was in front of it before the sort. -/
theorem before_squash {x y : FlatpakRemoteRefAction} (hfit : SerialsFit D)
    (hasc : D.Pairwise fun a b => a.serial.toInt ≤ b.serial.toInt)
    (hxy : GLib.Before (survivors D) x y) (hy : Stays y) :
    GLib.Before (squashRefActionsPtrArray D) x y := by
  rw [squashRefActionsPtrArray_eq]
  exact GLib.before_msort hxy fun z hz =>
    sorted_of_stays hfit hasc (hz.mono (survivors_sublist _ _ _)) hy

/-! ### Elements that occur once -/

/-- An action of the list occurs nowhere else in the array. -/
theorem DependencySplit.not_mem {X Y : List FlatpakRemoteRefAction} (hrel : RelatedActions related)
    (hL : FlattenedList (L₁ ++ A :: L₂)) (h : DependencySplit related L₁ A L₂ X Y) :
    A ∉ X ∧ A ∉ Y := by
  have hA : A.isDependency = false := hL.not_dependency A (by simp)
  have hnodup := hL.nodup
  rw [List.nodup_append, List.nodup_cons] at hnodup
  constructor
  · intro hX
    rcases h.mem_front A hX with hA' | ⟨c, -, hAc⟩
    · exact hnodup.2.2 A hA' A List.mem_cons_self rfl
    · rw [hrel.isDependency c A hAc] at hA
      cases hA
  · intro hY
    rcases h.mem_back A hY with hA' | ⟨c, -, hAc, -⟩
    · exact hnodup.2.1.1 hA'
    · rw [hrel.isDependency c A hAc] at hA
      cases hA

/-- An action of the list and what is related to it keep their place. These are the consequences of
`exists_dependencySplit` for the relation `Before`: `c` lies in front of the action `A` if it is
before `A` in the list, or related to something before `A`, or to `A` itself as an install or
update. -/
structure Placement (related : FlatpakRemoteRefAction → List FlatpakRemoteRefAction)
    (L : List FlatpakRemoteRefAction) (A : FlatpakRemoteRefAction)
    (D : List FlatpakRemoteRefAction) : Prop where
  once : ¬ GLib.Before D A A
  of_before : ∀ x, GLib.Before D x A → GLib.Before L x A ∨
    ∃ c, (GLib.Before L c A ∨ c = A ∧ A.isUpdateOrInstall = true) ∧ x ∈ related c
  uninstall_before : ∀ c, (GLib.Before L c A ∨ c = A ∧ A.isUpdateOrInstall = true) →
    ∀ r ∈ related c, r.isUpdateOrInstall = false → GLib.Before D r A
  mentioned_before : ∀ c, (GLib.Before L c A ∨ c = A ∧ A.isUpdateOrInstall = true) →
    ∀ r ∈ related c, ∃ d, GLib.Before D d A ∧ refKey d = refKey r
  of_after : ∀ x, GLib.Before D A x → GLib.Before L A x ∨
    ∃ c, (GLib.Before L A c ∨ c = A ∧ A.isUpdateOrInstall = false) ∧ x ∈ related c ∧
      (x.isUpdateOrInstall = true → ∀ d, GLib.Before D d A → refKey d ≠ refKey x)
  uninstall_after : ∀ c, (GLib.Before L A c ∨ c = A ∧ A.isUpdateOrInstall = false) →
    ∀ r ∈ related c, r.isUpdateOrInstall = false → GLib.Before D A r

/-- The extended list of a flattened list places each action with its related ones as the rule
says. -/
theorem placement (hrel : RelatedActions related) (hL : FlattenedList L) (hA : A ∈ L) :
    Placement related L A (addDependencies related L) := by
  obtain ⟨L₁, L₂, rfl, hbefore, hafter⟩ := hL.exists_split hA
  obtain ⟨X, Y, heq, h⟩ := exists_dependencySplit hrel hL.not_dependency
  obtain ⟨hX, hY⟩ := h.not_mem hrel hL
  have hfront : ∀ x, GLib.Before (X ++ A :: Y) x A ↔ x ∈ X := fun x =>
    GLib.Before.before_split_iff hX hY
  have hback : ∀ x, GLib.Before (X ++ A :: Y) A x ↔ x ∈ Y := fun x =>
    GLib.Before.split_before_iff hX hY
  rw [heq]
  refine ⟨fun hself => hX ((hfront A).1 hself), ?_, ?_, ?_, ?_, ?_⟩
  · simpa only [hfront, hbefore] using h.mem_front
  · simpa only [hfront, hbefore] using h.front_uninstalls
  · simpa only [hfront, hbefore] using h.mentioned
  · simpa only [hfront, hback, hafter] using h.mem_back
  · simpa only [hback, hafter] using h.back_uninstalls

/-- The list is in order in the array. -/
theorem before_addDependencies (hrel : RelatedActions related) (hL : FlattenedList L)
    {a b : FlatpakRemoteRefAction} (h : GLib.Before L a b) :
    GLib.Before (addDependencies related L) a b :=
  h.mono (extension_addDependencies hrel hL.not_dependency).sublist

/-- Neither an action of the list nor a related install or update occurs twice in the array. -/
theorem not_before_self (hrel : RelatedActions related) (hL : FlattenedList L)
    {x : FlatpakRemoteRefAction} (hx : x ∈ L ∨ x.isUpdateOrInstall = true) :
    ¬ GLib.Before (addDependencies related L) x x := by
  intro hbefore
  have hext := extension_addDependencies hrel hL.not_dependency
  rcases hext.mem x hbefore.mem_left with h | ⟨c, -, hxc, -⟩
  · exact (placement hrel hL h).once hbefore
  · rcases hx with h | hui
    · exact (placement hrel hL h).once hbefore
    · exact GLib.pairwise_iff_before.1 hext.first x x hbefore (hrel.isDependency c x hxc) hui rfl

end Euu
