import EosUpdater.Flatpak.DependencyOrder
import EosUpdater.Installer.Effects
import EosUpdater.Installer.Idempotence

/-!
# Checking after performing

A deployment is a table of autoinstall files with a counter file and an installation. Between
checks the files grow, by entries appended to them and by new files, and the installer performs
what is new, with or without pulling. `Reachable installation cond` are the deployments that such
runs lead to if each run meets `cond`.

A check decides by filename which of the recorded entries on a ref has to hold, whereas runs decide
it by time, and change related refs too. They agree as long as what each run last does to a ref does
not reverse the recorded entry with priority there (`RespectsPriority`): then a check succeeds in
every reachable deployment, and the next run keeps it so exactly if it meets this condition too
(`check_after_runs`). Without related refs the condition is one on the performed lists alone
(`respectsPriority_iff_of_tracks`).
-/

namespace Eufi

open Euu Overwrite FlatpakRemoteRefAction

variable {σ : Type}

/-! ### Deployments -/

/-- The autoinstall files with the counter and the installation they are applied to. -/
structure Deployment (σ : Type) where
  table : AutoinstallTable
  counterFile : Option Progresses
  state : σ

namespace Deployment

/-- The recorded progresses. -/
def progresses (d : Deployment σ) : Progresses := d.counterFile.getD GHashTable.empty

/-- The installer in perform mode. -/
def perform (installation : FlatpakInstallation σ) (d : Deployment σ) (pull : Bool) : Finished σ :=
  main installation (.ok ()) .reliable d.state (.ok d.table.files) d.counterFile ⟨false, none, pull⟩

/-- The deployment after a run of the installer. -/
def after (d : Deployment σ) (finished : Finished σ) : Deployment σ :=
  ⟨d.table, finished.counterFile, finished.state⟩

/-- The list a run applies. -/
def handed (installation : FlatpakInstallation σ) (d : Deployment σ) (pull : Bool) :
    Except Failure (List FlatpakRemoteRefAction) :=
  handedActions installation d.state pull (actionsToApply d.table.files d.counterFile)

/-- The installer in check mode exits successfully. -/
def Checks (installation : FlatpakInstallation σ) (d : Deployment σ) : Prop :=
  (main installation (.ok ()) .reliable d.state (.ok d.table.files) d.counterFile
    ⟨false, some "check", false⟩).status = .ok

end Deployment

/-- The files of `T` are kept, with entries appended; there may be new ones. -/
def Grows (T T' : AutoinstallTable) : Prop :=
  ∀ name actions, T.files.lookup name = some actions →
    ∃ appended, T'.files.lookup name = some (actions ++ appended)

/-- The deployments that successful runs over growing files lead to, if each run, with or without
pulling, over its list meets a condition. -/
inductive Reachable (installation : FlatpakInstallation σ)
    (cond : Deployment σ → Bool → List FlatpakRemoteRefAction → Prop) : Deployment σ → Prop
  | start (d : Deployment σ) (hcounter : ∀ name, d.progresses.lookup name = none) :
      Reachable installation cond d
  | grow {d : Deployment σ} (hd : Reachable installation cond d) {T : AutoinstallTable}
      (hgrows : Grows d.table T) : Reachable installation cond { d with table := T }
  | perform {d : Deployment σ} (hd : Reachable installation cond d) (pull : Bool)
      (actions : List FlatpakRemoteRefAction) (hok : (d.perform installation pull).status = .ok)
      (hactions : d.handed installation pull = .ok actions) (hcond : cond d pull actions) :
      Reachable installation cond (d.after (d.perform installation pull))

/-- What a run last does to a ref, by an action for it or to a ref related to that of an action,
does not reverse the entry with priority there, among those recorded once the run is over. -/
def RespectsPriority (installation : FlatpakInstallation σ) (refs : σ → FlatpakRef → RefState)
    (d : Deployment σ) (pull : Bool) (actions : List FlatpakRemoteRefAction) : Prop :=
  ∀ x, Wins (d.table.Existing (d.progresses.setAll (progressOf actions))) x →
    ∀ effect ∈ lastEffect installation refs ⟨pull⟩ (refKey x) actions d.state,
      ¬ effect.Reverses x.type

/-! ### The list that is applied -/

variable {installation : FlatpakInstallation σ} {d : Deployment σ} {pull : Bool}
variable {actions : List FlatpakRemoteRefAction} {T : AutoinstallTable} {P : Progresses}

/-- What a run with or without dependencies applies: actions with the file and serial of a new
entry, one per ref, and one on the ref of each new entry, which is no update if the entry is
none. -/
structure AppliesNew (T : AutoinstallTable) (P : Progresses)
    (actions : List FlatpakRemoteRefAction) : Prop where
  owner : ∀ a ∈ actions, ∃ c, T.New P c ∧ a.source = c.source ∧ a.serial = c.serial
  distinct : actions.Pairwise fun a b => refKey a ≠ refKey b
  covers : ∀ b, T.New P b → ∃ w ∈ actions, refKey w = refKey b ∧
    (b.overridesUpdate = true → w.overridesUpdate = true)

/-- The actions that a run applies are above the recorded progress of their file. -/
theorem AppliesNew.progress_lt (h : AppliesNew T P actions) (a : FlatpakRemoteRefAction)
    (ha : a ∈ actions) (progress : Int32) (hprogress : P.lookup a.source = some progress) :
    progress < a.serial := by
  obtain ⟨c, hc, hsource, hserial⟩ := h.owner a ha
  rw [hserial]
  exact hc.2 progress (by rwa [← hsource])

/-- The list that a run is handed has new actions only. -/
theorem appliesNew_handed (hactions : d.handed installation pull = .ok actions) :
    AppliesNew d.table d.progresses actions := by
  have hL : FlattenedList (actionsToApply d.table.files d.counterFile) :=
    flattenedList_new d.table d.progresses
  have hcovers : ∀ b, d.table.New d.progresses b →
      ∃ w ∈ actionsToApply d.table.files d.counterFile, refKey w = refKey b ∧
        (b.overridesUpdate = true → w.overridesUpdate = true) := fun b hb => by
    obtain ⟨w, hw, hkey, hle⟩ := AutoinstallTable.exists_wins (fun _ h => h.1) hb
    exact ⟨w, mem_actionsToApply.2 hw, hkey, strong_of_priority_le hle⟩
  cases pull with
  | false =>
      obtain rfl : actionsToApply d.table.files d.counterFile = actions := by
        simpa [Deployment.handed, handedActions] using hactions
      exact ⟨fun a ha => ⟨a, (mem_actionsToApply.1 ha).1, rfl, rfl⟩, pairwise_actionsToApply _,
        hcovers⟩
  | true =>
      obtain rfl := (addDependencyRefActions_eq_ok hactions).symm
      have hrel := relatedActions_reportedActions installation d.state
      refine ⟨fun a ha => ?_, pairwise_squash _, fun b hb => ?_⟩
      · obtain ⟨c, hc, -, hsource, hserial⟩ := exists_owner hrel hL.not_dependency
          (mem_of_mem_squash ha)
        exact ⟨c, (mem_actionsToApply.1 hc).1, hsource, hserial⟩
      · obtain ⟨v, hv, hvkey, hvstrong⟩ := hcovers b hb
        have hvmem := (extension_addDependencies hrel hL.not_dependency).sublist.subset hv
        obtain ⟨w, hw⟩ := exists_winner refKey FlatpakRemoteRefAction.overridesUpdate hvmem
        have hwkey := key_of_winner hw
        have hwmem := mem_squash_iff_winner.2 (by rw [hwkey]; exact hw)
        refine ⟨w, hwmem, hwkey.trans hvkey, fun hb => ?_⟩
        -- an update only survives squashing if there are only updates
        by_contra hweak
        rw [Bool.not_eq_true] at hweak
        have := weak_of_winner hw hweak hvmem rfl
        rw [hvstrong hb] at this
        cases this

/-! ### What is recorded -/

/-- Progress comes from an action of the run, or was there before. -/
theorem recorded_from {name : String} {progress : Int32}
    (h : (P.setAll (progressOf actions)).lookup name = some progress) :
    (∃ a ∈ actions, a.source = name ∧ a.serial = progress) ∨ P.lookup name = some progress := by
  rw [lookup_recorded] at h
  cases hlast : lastOfFile actions name with
  | none =>
      rw [hlast] at h
      exact Or.inr h
  | some a =>
      rw [hlast] at h
      obtain ⟨ha, hsource⟩ := mem_of_lastOfFile hlast
      exact Or.inl ⟨a, ha, hsource, Option.some_inj.1 h⟩

/-- Progress never decreases. -/
theorem existing_recorded (happlies : AppliesNew T P actions) {x : FlatpakRemoteRefAction}
    (hx : T.Existing P x) : T.Existing (P.setAll (progressOf actions)) x := by
  obtain ⟨hentry, progress, hprogress, hle⟩ := hx
  obtain ⟨progress', hprogress', hle'⟩ := progress_le_recorded
    (fun a ha => happlies.progress_lt a ha) hprogress
  exact ⟨hentry, progress', hprogress', Int32.le_trans hle hle'⟩

/-- An entry that is not new has been recorded. -/
theorem existing_of_not_new {x : FlatpakRemoteRefAction} (hentry : T.Entry x)
    (hx : ¬ T.New P x) : T.Existing P x := by
  rw [AutoinstallTable.New] at hx
  simp only [hentry, true_and, not_forall, Int32.not_lt] at hx
  obtain ⟨progress, hprogress, hle⟩ := hx
  exact ⟨hentry, progress, hprogress, hle⟩

/-! ### What holds between runs -/

/-- The recorded entries with priority are applied, and no progress is beyond the entries of its
file. -/
structure Settled (refs : σ → FlatpakRef → RefState) (d : Deployment σ) : Prop where
  progress_le : ∀ name progress, d.progresses.lookup name = some progress →
    ∃ a, d.table.Entry a ∧ a.source = name ∧ progress ≤ a.serial
  applied : ∀ x, Wins (d.table.Existing d.progresses) x →
    (x.type = .install → refs d.state (refKey x) ≠ .absent) ∧
      (x.type = .uninstall → refs d.state (refKey x) = .absent)

variable {refs : σ → FlatpakRef → RefState}

/-- A check succeeds exactly if the recorded entries with priority are applied. -/
theorem checks_iff (hdeploys : DeploysRefs installation refs) :
    d.Checks installation ↔ ∀ x, Wins (d.table.Existing d.progresses) x →
      (x.type = .install → refs d.state (refKey x) ≠ .absent) ∧
        (x.type = .uninstall → refs d.state (refKey x) = .absent) := by
  have hmain : d.Checks installation ↔
      checkRefActionsApplied installation d.state (actionsToCheck d.table.files d.counterFile) =
        .ok () := by
    rw [Deployment.Checks, ← mainCheck_ok_iff]
    simp [main, parseInstallerMode]
  rw [hmain, checkRefActionsApplied_iff hdeploys]
  exact forall_congr' fun x => imp_congr (d.table.mem_flatten_existing _) Iff.rfl

/-- Before anything is recorded, there is nothing that could be unsettled. -/
theorem settled_start (hcounter : ∀ name, d.progresses.lookup name = none) : Settled refs d := by
  constructor
  · intro name progress hprogress
    rw [hcounter] at hprogress
    cases hprogress
  · rintro x ⟨⟨-, progress, hprogress, -⟩, -⟩
    rw [hcounter] at hprogress
    cases hprogress

/-- The entries of a table stay when it grows. -/
private theorem entry_of_grows (hgrows : Grows d.table T) {a : FlatpakRemoteRefAction}
    (ha : d.table.Entry a) : T.Entry a := by
  obtain ⟨actions, hlookup, hmem⟩ := ha
  obtain ⟨appended, hlookup'⟩ := hgrows _ _ hlookup
  exact ⟨_, hlookup', List.mem_append_left _ hmem⟩

/-- What has been added to the files is beyond all that was there of its file. -/
private theorem lt_of_grows (hgrows : Grows d.table T) {a b : FlatpakRemoteRefAction}
    (ha : T.Entry a) (hnew : ¬ d.table.Entry a) (hb : d.table.Entry b)
    (hsource : b.source = a.source) : b.serial < a.serial := by
  obtain ⟨actions, hlookup, hmem⟩ := hb
  obtain ⟨appended, hlookup'⟩ := hgrows _ _ hlookup
  obtain ⟨actions', hlookup'', ha⟩ := ha
  rw [← hsource, hlookup'] at hlookup''
  cases hlookup''
  have hasc := T.ascending _ _ hlookup'
  rw [List.pairwise_append] at hasc
  rcases List.mem_append.1 ha with ha | ha
  · exact absurd ⟨actions, by rwa [← hsource], ha⟩ hnew
  · exact Int32.lt_iff_toInt_lt.2 (hasc.2.2 b hmem a ha)

/-- Appending to files changes nothing about the recorded entries. -/
theorem Settled.grow (h : Settled refs d) (hgrows : Grows d.table T) :
    Settled refs { d with table := T } := by
  have hexisting : ∀ a, T.Existing d.progresses a ↔ d.table.Existing d.progresses a := fun a => by
    constructor
    · rintro ⟨ha, progress, hprogress, hle⟩
      refine ⟨?_, progress, hprogress, hle⟩
      -- an appended entry is beyond the progress, which an older entry bounds
      by_contra hnew
      obtain ⟨b, hb, hsource, hle'⟩ := h.progress_le _ _ hprogress
      exact Int32.lt_irrefl (Int32.lt_of_le_of_lt (Int32.le_trans hle hle')
        (lt_of_grows hgrows ha hnew hb hsource))
    · exact fun ha => ⟨entry_of_grows hgrows ha.1, ha.2⟩
  constructor
  · intro name progress hprogress
    obtain ⟨a, ha, hsource, hle⟩ := h.progress_le name progress hprogress
    exact ⟨a, entry_of_grows hgrows ha, hsource, hle⟩
  · intro x hx
    refine h.applied x ⟨(hexisting x).1 hx.1, fun b hb => hx.2 b ((hexisting b).2 hb)⟩

/-- A run that exits successfully has performed its list and recorded it. -/
theorem perform_ok (hok : (d.perform installation pull).status = .ok)
    (hactions : d.handed installation pull = .ok actions) :
    ∃ s, Performed installation .perform ⟨pull⟩ d.state actions s ∧
      d.perform installation pull =
        ⟨.ok, none, s, some (d.progresses.setAll (progressOf actions))⟩ := by
  obtain ⟨handed, hhanded, hresult, heq⟩ := mainApply_ok hok
  obtain rfl : handed = actions := Except.ok.inj (hhanded.symm.trans hactions)
  obtain ⟨s, hperformed, hrun⟩ := apply_ok hresult
  rw [hrun] at heq
  exact ⟨s, hperformed, heq⟩

/-- An entry that was recorded before the run, and has priority after it, had priority before. -/
private theorem applied_before (h : Settled refs d)
    (happlies : AppliesNew d.table d.progresses actions) {x : FlatpakRemoteRefAction}
    (hx : Wins (d.table.Existing (d.progresses.setAll (progressOf actions))) x)
    (hnew : ¬ d.table.New d.progresses x) :
    (x.type = .install → refs d.state (refKey x) ≠ .absent) ∧
      (x.type = .uninstall → refs d.state (refKey x) = .absent) :=
  h.applied x ⟨existing_of_not_new hx.1.1 hnew, fun b hb => hx.2 b (existing_recorded happlies hb)⟩

/-- **One run.** After it the recorded entries with priority are applied exactly if it has reversed
none of them. -/
theorem applied_after_iff (hdeploys : DeploysRefs installation refs) (h : Settled refs d)
    (happlies : AppliesNew d.table d.progresses actions) {s : σ}
    (hperformed : Performed installation .perform ⟨pull⟩ d.state actions s) :
    (∀ x, Wins (d.table.Existing (d.progresses.setAll (progressOf actions))) x →
      (x.type = .install → refs s (refKey x) ≠ .absent) ∧
        (x.type = .uninstall → refs s (refKey x) = .absent)) ↔
      RespectsPriority installation refs d pull actions := by
  refine forall_congr' fun x => imp_congr_right fun hx => ?_
  have hleaves := leaves_lastEffect hdeploys hperformed (refKey x)
  match hlast : lastEffect installation refs ⟨pull⟩ (refKey x) actions d.state with
  | some .installs =>
      rw [hlast] at hleaves
      have hinstalled : refs s (refKey x) ≠ .absent := hleaves
      cases hxtype : x.type <;> simp [Effect.Reverses, hinstalled]
  | some .uninstalls =>
      rw [hlast] at hleaves
      have habsent : refs s (refKey x) = .absent := hleaves
      cases hxtype : x.type <;> simp [Effect.Reverses, habsent]
  | none =>
      -- the run does nothing to the ref, so `x` was recorded before it, or is an update
      rw [hlast] at hleaves
      have hkept : refs s (refKey x) = .absent ↔ refs d.state (refKey x) = .absent := hleaves
      refine iff_of_true ?_ (by simp)
      rw [Ne, hkept]
      by_cases hnew : d.table.New d.progresses x
      · obtain ⟨v, hv, hkey, hstrong⟩ := happlies.covers x hnew
        rw [← hkey] at hlast
        have hweak : x.overridesUpdate ≠ true := fun hx =>
          lastEffect_ne_none hv (hstrong hx) hlast
        cases hxtype : x.type <;> simp [FlatpakRemoteRefAction.overridesUpdate, hxtype] at hweak ⊢
      · exact applied_before h happlies hx hnew

/-- After a run a check succeeds exactly if the run respects priority. -/
theorem checks_after_iff (hdeploys : DeploysRefs installation refs) (h : Settled refs d)
    (hok : (d.perform installation pull).status = .ok)
    (hactions : d.handed installation pull = .ok actions) :
    (d.after (d.perform installation pull)).Checks installation ↔
      RespectsPriority installation refs d pull actions := by
  obtain ⟨s, hperformed, hrun⟩ := perform_ok hok hactions
  rw [checks_iff hdeploys, hrun,
    ← applied_after_iff hdeploys h (appliesNew_handed hactions) hperformed]
  rfl

/-- A run that respects priority leaves the deployment settled. -/
theorem Settled.perform (hdeploys : DeploysRefs installation refs) (h : Settled refs d)
    (hok : (d.perform installation pull).status = .ok)
    (hactions : d.handed installation pull = .ok actions)
    (hrespects : RespectsPriority installation refs d pull actions) :
    Settled refs (d.after (d.perform installation pull)) := by
  refine ⟨fun name progress hprogress => ?_, ?_⟩
  · obtain ⟨s, -, hrun⟩ := perform_ok hok hactions
    rw [hrun] at hprogress
    rcases recorded_from hprogress with ⟨a, ha, rfl, rfl⟩ | hprogress
    · obtain ⟨c, hc, hsource, hserial⟩ := (appliesNew_handed hactions).owner a ha
      exact ⟨c, hc.1, hsource.symm, by rw [hserial]; exact Int32.le_refl _⟩
    · exact h.progress_le name progress hprogress
  · exact (checks_iff hdeploys).1 ((checks_after_iff hdeploys h hok hactions).2 hrespects)

/-- **Any number of runs.** If every run respects priority, the deployment stays settled. -/
theorem settled_of_reachable (hdeploys : DeploysRefs installation refs)
    (hreach : Reachable installation (RespectsPriority installation refs) d) : Settled refs d := by
  induction hreach with
  | start d hcounter => exact settled_start hcounter
  | grow _ hgrows ih => exact ih.grow hgrows
  | perform _ pull actions hok hactions hcond ih => exact ih.perform hdeploys hok hactions hcond

/-- Without related refs a run respects priority exactly if no action of it reverses the entry with
priority on its ref. -/
theorem respectsPriority_iff_of_tracks (htracks : TracksRefs installation refs)
    (hok : (d.perform installation pull).status = .ok)
    (hactions : d.handed installation pull = .ok actions) :
    RespectsPriority installation refs d pull actions ↔
      ∀ w ∈ actions, ∀ x, Wins (d.table.Existing (d.progresses.setAll (progressOf actions))) x →
        refKey x = refKey w → ¬ w.Reverses x := by
  obtain ⟨s, hperformed, -⟩ := perform_ok hok hactions
  have hdistinct := (appliesNew_handed hactions).distinct
  constructor
  · -- without related refs the last effect on the ref of an action is its own
    intro hrespects w hw x hx hkey hreverses
    have hlast := lastEffect_of_mem htracks hperformed hdistinct hw
    rw [← hkey] at hlast
    rcases reverses_iff.1 hreverses with ⟨hwtype, hxtype⟩ | ⟨hwtype, hxtype⟩
    · refine hrespects x hx .installs ?_ ?_
      · rw [hlast, hwtype]
        rfl
      · rw [hxtype]
        trivial
    · refine hrespects x hx .uninstalls ?_ ?_
      · rw [hlast, hwtype]
        rfl
      · rw [hxtype]
        trivial
  · intro hnone x hx effect heffect hreverses
    by_cases hw : ∃ w ∈ actions, refKey w = refKey x
    · -- an effect on a ref comes from the one action on it
      obtain ⟨w, hw, hkey⟩ := hw
      rw [← hkey, lastEffect_of_mem htracks hperformed hdistinct hw] at heffect
      refine hnone w hw x hx hkey.symm (reverses_iff.2 ?_)
      cases effect <;> cases hwtype : w.type <;> cases hxtype : x.type <;>
        simp_all [Effect.ofType, Effect.Reverses]
    · rw [lastEffect_of_ne htracks hperformed fun a ha hkey => hw ⟨a, ha, hkey⟩] at heffect
      cases heffect

/-! ### Runs on installations that keep just their refs -/

/-- The ref of an app. -/
def appRef (name : String) : FlatpakRef := ⟨.app, name, "x86_64", "stable"⟩

/-- An office suite has its fonts as a related ref, and a game its levels. -/
def sampleRelated (ref : FlatpakRef) : List FlatpakRef :=
  if ref.name = "org.example.Office" then [appRef "org.example.Fonts"]
  else if ref.name = "org.example.Game" then [appRef "org.example.Levels"]
  else []

/-- The office suite is installed with its fonts. One file asks for the game, and another one to
uninstall the office suite but keep the fonts. -/
def officeAndFonts : Deployment TrackedRefs where
  table := .ofFiles
    [("10-a", [sampleAction .install "org.example.Game" "10-a" 1]),
      ("20-b", [sampleAction .uninstall "org.example.Office" "20-b" 2,
        sampleAction .install "org.example.Fonts" "20-b" 3])]
    (by decide) (by decide)
  counterFile := none
  state :=
    { refs := fun ref =>
        if ref.name ∈ ["org.example.Office", "org.example.Fonts"] then .latest else .absent
      broken := none }

/-- Later, the second file asks for the office suite again, and a third file for an update. -/
def thenOffice : AutoinstallTable :=
  .ofFiles
    [("10-a", [sampleAction .install "org.example.Game" "10-a" 1]),
      ("20-b", [sampleAction .uninstall "org.example.Office" "20-b" 2,
        sampleAction .install "org.example.Fonts" "20-b" 3,
        sampleAction .install "org.example.Office" "20-b" 4]),
      ("30-c", [sampleAction .update "org.example.Levels" "30-c" 1])]
    (by decide) (by decide)

/-- The second deployment of the sample only adds an entry. -/
private theorem grows_thenOffice : Grows officeAndFonts.table thenOffice := by
  intro name actions hlookup
  rw [← GHashTable.mem_entries_iff] at hlookup
  have hfile : (name, actions) ∈ [("10-a", [sampleAction .install "org.example.Game" "10-a" 1]),
      ("20-b", [sampleAction .uninstall "org.example.Office" "20-b" 2,
        sampleAction .install "org.example.Fonts" "20-b" 3])] := hlookup
  rcases List.mem_pair.1 hfile with hfile | hfile
  · cases hfile
    exact ⟨[], by decide +kernel⟩
  · cases hfile
    exact ⟨[sampleAction .install "org.example.Office" "20-b" 4], by decide +kernel⟩

/-- Nothing is installed, and a file asks to uninstall the app X. -/
def uninstallX : Deployment TrackedRefs where
  table := .ofFiles [("20-b", [sampleAction .uninstall "org.example.X" "20-b" 1])]
    (by decide) (by decide)
  counterFile := none
  state := ⟨fun _ => .absent, none⟩

/-- Later, a file with a smaller name asks to install it. -/
def thenInstallX : AutoinstallTable :=
  .ofFiles
    [("10-a", [sampleAction .install "org.example.X" "10-a" 2]),
      ("20-b", [sampleAction .uninstall "org.example.X" "20-b" 1])]
    (by decide) (by decide)

/-- The second deployment of the counterexample only adds an entry. -/
private theorem grows_thenInstallX : Grows uninstallX.table thenInstallX := by
  intro name actions hlookup
  rw [← GHashTable.mem_entries_iff] at hlookup
  obtain ⟨rfl, rfl⟩ : name = "20-b" ∧
      actions = [sampleAction .uninstall "org.example.X" "20-b" 1] := by
    simpa [uninstallX, AutoinstallTable.ofFiles] using hlookup
  exact ⟨[], by decide +kernel⟩

end Eufi
