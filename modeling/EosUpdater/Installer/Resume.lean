import EosUpdater.Installer.Idempotence

/-!
# Resuming an interrupted run

A run that fails records what it has performed, and a second run goes on with what is still new.
The second run executes the rest of the first one's list, and beside it the entries that the
failure revived: entries beyond the progress of their file that had lost their ref to an entry
already performed, and win it now (`mem_actionsToApply_resumed`).

So the two runs together end like an uninterrupted one exactly if no revived entry reverses what
was done to its ref, and each is followed in its file by an entry of the list (`resumes_iff`).
-/

namespace Eufi

open Euu

variable {σ : Type} {T : AutoinstallTable} {P : Progresses} {counterFile : Option Progresses}
variable {done rest : List FlatpakRemoteRefAction} {x w : FlatpakRemoteRefAction}

/-- `x` is new and beyond what has been performed of its file. -/
def Uncovered (T : AutoinstallTable) (P : Progresses) (done : List FlatpakRemoteRefAction)
    (x : FlatpakRemoteRefAction) : Prop :=
  T.New P x ∧ ∀ y ∈ done, y.source = x.source → y.serial < x.serial

/-- `x` loses its ref among the new entries, but wins it once part of them has been performed. -/
def Revived (T : AutoinstallTable) (P : Progresses) (done : List FlatpakRemoteRefAction)
    (x : FlatpakRemoteRefAction) : Prop :=
  Wins (Uncovered T P done) x ∧ ¬ Wins (T.New P) x

/-! ### What the second run executes -/

private theorem mem_of_mem_done (hactions : actionsToApply T.files counterFile = done ++ rest)
    (hx : x ∈ done) : x ∈ actionsToApply T.files counterFile := by
  rw [hactions]
  exact List.mem_append_left _ hx

private theorem mem_of_mem_rest (hactions : actionsToApply T.files counterFile = done ++ rest)
    (hx : x ∈ rest) : x ∈ actionsToApply T.files counterFile := by
  rw [hactions]
  exact List.mem_append_right _ hx

private theorem ascendsPerFile_done (hfit : T.SerialsFit)
    (hactions : actionsToApply T.files counterFile = done ++ rest) : AscendsPerFile done :=
  (ascendsPerFile_actionsToApply hfit counterFile).sublist
    (by rw [hactions]; exact List.sublist_append_left _ _)

/-- The rest of an interrupted list is beyond what has been performed. -/
private theorem wins_uncovered_of_mem_rest (hfit : T.SerialsFit)
    (hactions : actionsToApply T.files counterFile = done ++ rest) (hx : x ∈ rest) :
    Wins (Uncovered T (counterFile.getD GHashTable.empty) done) x := by
  have hasc := ascendsPerFile_actionsToApply hfit counterFile
  rw [hactions, AscendsPerFile, List.pairwise_append] at hasc
  have hwins := mem_actionsToApply.1 (mem_of_mem_rest hactions hx)
  exact ⟨⟨hwins.1, fun y hy hsource => hasc.2.2 y hy x hx hsource⟩,
    fun y hy hkey => hwins.2 y hy.1 hkey⟩

private theorem not_uncovered_of_mem_done (hx : x ∈ done) : ¬ Uncovered T P done x :=
  fun h => Int32.lt_irrefl (h.2 x hx rfl)

/-- **What the second run executes**: the rest of the list, and what was revived. -/
theorem mem_actionsToApply_resumed (hfit : T.SerialsFit)
    (hactions : actionsToApply T.files counterFile = done ++ rest) :
    x ∈ actionsToApply T.files
        (some ((counterFile.getD GHashTable.empty).setAll (progressOf done))) ↔
      x ∈ rest ∨ Revived T (counterFile.getD GHashTable.empty) done x := by
  have hnew : ∀ b, T.New ((counterFile.getD GHashTable.empty).setAll (progressOf done)) b ↔
      Uncovered T (counterFile.getD GHashTable.empty) done b := fun b =>
    new_setAll_progressOf (fun a ha => (mem_actionsToApply.1 (mem_of_mem_done hactions ha)).1)
      (ascendsPerFile_done hfit hactions)
  have hmem : x ∈ actionsToApply T.files
      (some ((counterFile.getD GHashTable.empty).setAll (progressOf done))) ↔
        Wins (Uncovered T (counterFile.getD GHashTable.empty) done) x := by
    rw [mem_actionsToApply, Option.getD_some]
    simp only [Wins, hnew]
  rw [hmem]
  constructor
  · intro hwins
    by_cases hx : Wins (T.New (counterFile.getD GHashTable.empty)) x
    · left
      rw [← mem_actionsToApply, hactions] at hx
      exact (List.mem_append.1 hx).resolve_left fun hdone =>
        not_uncovered_of_mem_done hdone hwins.1
    · exact Or.inr ⟨hwins, hx⟩
  · rintro (hx | hx)
    · exact wins_uncovered_of_mem_rest hfit hactions hx
    · exact hx.1

/-- What is revived had lost its ref to an entry that was performed. -/
theorem Revived.exists_winner (hfit : T.SerialsFit)
    (hactions : actionsToApply T.files counterFile = done ++ rest)
    (hx : Revived T (counterFile.getD GHashTable.empty) done x) :
    ∃ w ∈ done, Wins (T.New (counterFile.getD GHashTable.empty)) w ∧ refKey w = refKey x ∧
      docPriority x ≤ docPriority w := by
  obtain ⟨w, hw, hkey, hle⟩ := AutoinstallTable.exists_wins (fun _ h => h.1) hx.1.1.1
  have hmem := mem_actionsToApply.2 hw
  rw [hactions] at hmem
  rcases List.mem_append.1 hmem with hdone | hrest
  · exact ⟨w, hdone, hw, hkey, hle⟩
  · -- then both would win the ref among what is left
    have heq := AutoinstallTable.Wins.eq_of_refKey (fun _ h => h.1.1)
      (wins_uncovered_of_mem_rest hfit hactions hrest) hx.1 hkey
    rw [heq] at hw
    exact absurd hw hx.2

/-! ### The counter -/

/-- Where the counters agree on the file of a revived entry, this is followed by an entry of the
list. -/
private theorem exists_follower (hfit : T.SerialsFit)
    (hactions : actionsToApply T.files counterFile = done ++ rest) {P P' : Progresses}
    (hP : counterFile.getD GHashTable.empty = P) (hP' : P.setAll (progressOf done) = P')
    (hx : Revived T P done x)
    (hagree : (P'.setAll (progressOf (actionsToApply T.files (some P')))).lookup x.source =
      (P.setAll (progressOf (actionsToApply T.files counterFile))).lookup x.source) :
    ∃ y, Wins (T.New P) y ∧ y.source = x.source ∧ x.serial < y.serial := by
  subst hP hP'
  have hresumed := fun x => mem_actionsToApply_resumed (x := x) hfit hactions
  have hxmem := (hresumed x).2 (Or.inr hx)
  rcases recorded_cases _ (ascendsPerFile_actionsToApply hfit _) x.source with
    ⟨z, hz, hzsource, hmax, hrecorded⟩ | ⟨hnone, -⟩
  · rw [hagree] at hrecorded
    have hle := hmax x hxmem rfl
    rcases recorded_cases _ (ascendsPerFile_actionsToApply hfit counterFile) x.source with
      ⟨y, hy, hysource, -, hlookup⟩ | ⟨-, hlookup⟩
    · rw [hlookup, Option.some_inj] at hrecorded
      rw [← hrecorded] at hle
      refine ⟨y, mem_actionsToApply.1 hy, hysource, ?_⟩
      rcases Int32.lt_or_eq_of_le hle with hlt | heq
      · exact hlt
      · -- `x` itself would have been executed by the first run
        have hyx : y = x :=
          (mem_actionsToApply.1 hy).1.1.eq_of_serial hx.1.1.1.1 hysource heq.symm
        rw [hyx, mem_actionsToApply] at hy
        exact absurd hy hx.2
    · -- nothing of the file was executed, and `z` is beyond its progress
      rw [hlookup, ← hzsource] at hrecorded
      have hznew : T.New (counterFile.getD GHashTable.empty) z := by
        rcases (hresumed z).1 hz with hz | hz
        · exact (mem_actionsToApply.1 (mem_of_mem_rest hactions hz)).1
        · exact hz.1.1.1
      exact absurd (hznew.2 _ hrecorded) Int32.lt_irrefl
  · exact absurd rfl (hnone x hxmem)

/-- The counters agree on a file of which the second run executes something, if what it has revived
is followed by entries of the list. -/
private theorem counters_agree_of_executed (hfit : T.SerialsFit)
    (hactions : actionsToApply T.files counterFile = done ++ rest) {P P' : Progresses}
    (hP : counterFile.getD GHashTable.empty = P) (hP' : P.setAll (progressOf done) = P')
    (hfollowed : ∀ x, Revived T P done x →
      ∃ y, Wins (T.New P) y ∧ y.source = x.source ∧ x.serial < y.serial)
    {z : FlatpakRemoteRefAction} (hz : z ∈ actionsToApply T.files (some P'))
    (hmax : ∀ y ∈ actionsToApply T.files (some P'), y.source = z.source → y.serial ≤ z.serial) :
    (P.setAll (progressOf (actionsToApply T.files counterFile))).lookup z.source =
      some z.serial := by
  subst hP hP'
  have hresumed := fun x => mem_actionsToApply_resumed (x := x) hfit hactions
  -- an entry of the list reaches `z`
  obtain ⟨y, hy, hysource, hle⟩ : ∃ y ∈ actionsToApply T.files counterFile, y.source = z.source ∧
      z.serial ≤ y.serial := by
    rcases (hresumed z).1 hz with hzrest | hzrevived
    · exact ⟨z, mem_of_mem_rest hactions hzrest, rfl, Int32.le_refl _⟩
    · obtain ⟨y, hy, hysource, hlt⟩ := hfollowed z hzrevived
      exact ⟨y, mem_actionsToApply.2 hy, hysource, Int32.le_of_lt hlt⟩
  rcases recorded_cases _ (ascendsPerFile_actionsToApply hfit counterFile) z.source with
    ⟨v, hv, hvsource, hvmax, hlookup⟩ | ⟨hnone, -⟩
  · rw [hlookup, Option.some_inj]
    refine Int32.le_antisymm ?_ (Int32.le_trans hle (hvmax y hy hysource))
    rw [hactions] at hv
    rcases List.mem_append.1 hv with hvdone | hvrest
    -- what the second run executes is beyond what the first has performed
    · have hzuncovered : Uncovered T (counterFile.getD GHashTable.empty) done z := by
        rcases (hresumed z).1 hz with hzrest | hzrevived
        · exact (wins_uncovered_of_mem_rest hfit hactions hzrest).1
        · exact hzrevived.1.1
      exact Int32.le_of_lt (hzuncovered.2 v hvdone hvsource)
    · exact hmax v ((hresumed v).2 (Or.inl hvrest)) hvsource
  · exact absurd hysource (hnone y hy)

/-- The counters agree on a file of which the second run executes nothing: its progress is that of
what was performed. -/
private theorem counters_agree_of_not_executed (hfit : T.SerialsFit)
    (hactions : actionsToApply T.files counterFile = done ++ rest) {P P' : Progresses}
    (hP : counterFile.getD GHashTable.empty = P) (hP' : P.setAll (progressOf done) = P')
    {name : String} (hnone : ∀ y ∈ actionsToApply T.files (some P'), y.source ≠ name) :
    P'.lookup name = (P.setAll (progressOf (actionsToApply T.files counterFile))).lookup name := by
  subst hP hP'
  have hdone := recorded_cases (counterFile.getD GHashTable.empty)
    (ascendsPerFile_done hfit hactions) name
  rcases recorded_cases (counterFile.getD GHashTable.empty)
    (ascendsPerFile_actionsToApply hfit counterFile) name with
    ⟨v, hv, hvsource, hvmax, hlookup⟩ | ⟨hnone', hlookup⟩
  · rw [hactions] at hv hvmax
    have hvdone : v ∈ done := (List.mem_append.1 hv).resolve_right fun hvrest =>
      hnone v ((mem_actionsToApply_resumed hfit hactions).2 (Or.inl hvrest)) hvsource
    rcases hdone with ⟨d, hd, hdsource, hdmax, hdlookup⟩ | ⟨hnone', -⟩
    · rw [hlookup, hdlookup, Option.some_inj]
      exact Int32.le_antisymm (hvmax d (List.mem_append_left _ hd) hdsource)
        (hdmax v hvdone hvsource)
    · exact absurd hvsource (hnone' v hvdone)
  · rw [hactions] at hnone'
    rcases hdone with ⟨d, hd, hdsource, -, -⟩ | ⟨-, hdlookup⟩
    · exact absurd hdsource (hnone' d (List.mem_append_left _ hd))
    · rw [hlookup, hdlookup]

/-- The counters agree exactly if each revived entry is followed by an entry of the list. -/
theorem counters_agree_iff (hfit : T.SerialsFit)
    (hactions : actionsToApply T.files counterFile = done ++ rest) :
    let P := counterFile.getD GHashTable.empty
    let P' := P.setAll (progressOf done)
    (∀ name, (P'.setAll (progressOf (actionsToApply T.files (some P')))).lookup name =
        (P.setAll (progressOf (actionsToApply T.files counterFile))).lookup name) ↔
      ∀ x, Revived T P done x → ∃ y, Wins (T.New P) y ∧ y.source = x.source ∧
        x.serial < y.serial := by
  intro P P'
  constructor
  · exact fun hagree x hx => exists_follower hfit hactions rfl rfl hx (hagree x.source)
  · intro hfollowed name
    rcases recorded_cases P' (ascendsPerFile_actionsToApply hfit (some P')) name with
      ⟨z, hz, rfl, hmax, hrecorded⟩ | ⟨hnone, hrecorded⟩
    · rw [hrecorded]
      exact (counters_agree_of_executed hfit hactions rfl rfl hfollowed hz hmax).symm
    · rw [hrecorded]
      exact counters_agree_of_not_executed hfit hactions rfl rfl hnone

/-! ### The refs -/

/-- Where `w` has been done, an action that does not take priority over it changes the outcome only
if it reverses it. -/
private theorem after_after_iff (hpriority : docPriority x ≤ docPriority w) (state : RefState) :
    RefState.after x.type (RefState.after w.type state) = RefState.after w.type state ↔
      ¬ w.Reverses x := by
  have hstrong := Overwrite.strong_of_priority_le hpriority
  rw [FlatpakRemoteRefAction.reverses_iff]
  simp only [FlatpakRemoteRefAction.overridesUpdate] at hstrong
  cases hx : x.type <;> cases hw : w.type <;> cases state <;> simp_all [RefState.after]

/-- The refs agree exactly if no revived entry reverses what was done. -/
theorem refs_agree_iff (hfit : T.SerialsFit)
    (hactions : actionsToApply T.files counterFile = done ++ rest) (refs : FlatpakRef → RefState) :
    let P := counterFile.getD GHashTable.empty
    refsAfter (refsAfter refs done)
        (actionsToApply T.files (some (P.setAll (progressOf done)))) =
      refsAfter refs (actionsToApply T.files counterFile) ↔
      ∀ x, Revived T P done x →
        ∀ w, Wins (T.New P) w → refKey w = refKey x → ¬ w.Reverses x := by
  intro P
  have hresumed := fun x => mem_actionsToApply_resumed (x := x) hfit hactions
  have hdistinct := pairwise_actionsToApply (T := T) counterFile
  rw [hactions] at hdistinct
  have hdistinct' := pairwise_actionsToApply (T := T) (some (P.setAll (progressOf done)))
  -- on the ref of a revived entry
  have hrevived : ∀ x, Revived T P done x → ∃ w, Wins (T.New P) w ∧ refKey w = refKey x ∧
      (refsAfter (refsAfter refs done)
          (actionsToApply T.files (some (P.setAll (progressOf done)))) (refKey x) =
        refsAfter refs (actionsToApply T.files counterFile) (refKey x) ↔ ¬ w.Reverses x) := by
    intro x hx
    obtain ⟨w, hwdone, hw, hkey, hpriority⟩ := hx.exists_winner hfit hactions
    refine ⟨w, hw, hkey, ?_⟩
    have hafter : refsAfter refs done (refKey x) = RefState.after w.type (refs (refKey x)) := by
      rw [← hkey]
      exact refsAfter_of_mem (List.pairwise_append.1 hdistinct).1 hwdone
    have hrest : ∀ r ∈ rest, refKey r ≠ refKey x := fun r hr => by
      rw [← hkey]
      exact ((List.pairwise_append.1 hdistinct).2.2 w hwdone r hr).symm
    have hlist : refsAfter refs (actionsToApply T.files counterFile) (refKey x) =
        RefState.after w.type (refs (refKey x)) := by
      rw [hactions, refsAfter_append, refsAfter_of_ne hrest, hafter]
    rw [refsAfter_of_mem hdistinct' ((hresumed x).2 (Or.inr hx)), hlist, hafter]
    exact after_after_iff hpriority _
  constructor
  · intro heq x hx w' hw' hkey'
    obtain ⟨w, hw, hkey, hiff⟩ := hrevived x hx
    rw [AutoinstallTable.Wins.eq_of_refKey (fun _ h => h.1) hw' hw (hkey'.trans hkey.symm)]
    exact hiff.1 (congrFun heq _)
  · intro hnone
    ext ref
    by_cases hx : ∃ x, Revived T P done x ∧ refKey x = ref
    · obtain ⟨x, hx, rfl⟩ := hx
      obtain ⟨w, hw, hkey, hiff⟩ := hrevived x hx
      exact hiff.2 (hnone x hx w hw hkey)
    by_cases hr : ∃ r ∈ rest, refKey r = ref
    · -- the second run executes it as the first would have
      obtain ⟨r, hr, rfl⟩ := hr
      have hfirst : refsAfter refs done (refKey r) = refs (refKey r) := refsAfter_of_ne fun d hd =>
        (List.pairwise_append.1 hdistinct).2.2 d hd r hr
      rw [refsAfter_of_mem hdistinct' ((hresumed r).2 (Or.inl hr)), hactions,
        refsAfter_of_mem hdistinct (List.mem_append_right _ hr), hfirst]
    · rw [hactions, refsAfter_append, refsAfter_of_ne (l := rest) fun r hr' hkey =>
        hr ⟨r, hr', hkey⟩]
      refine refsAfter_of_ne fun a ha hkey => ?_
      rcases (hresumed a).1 ha with ha | ha
      · exact hr ⟨a, ha, hkey⟩
      · exact hx ⟨a, ha, hkey⟩

/-! ### The two runs -/

/-- Just the app X is installed. -/
def installedX (broken : Option FlatpakRef) : TrackedRefs where
  refs ref := if ref = ⟨.app, "org.example.X", "x86_64", "stable"⟩ then .outdated else .absent
  broken := broken

/-- The app X is to be updated, and then the app Y installed. -/
def updateThenInstall : AutoinstallTable :=
  .ofFiles
    [("10-a", [sampleAction .update "org.example.X" "10-a" 1]),
      ("20-b", [sampleAction .install "org.example.Y" "20-b" 2])]
    (by decide) (by decide)

/-- Two files disagree on the app X, and a third installs the app Y. -/
def conflictThenInstall : AutoinstallTable :=
  .ofFiles
    [("10-a", [sampleAction .install "org.example.X" "10-a" 1]),
      ("20-b", [sampleAction .uninstall "org.example.X" "20-b" 1]),
      ("30-c", [sampleAction .install "org.example.Y" "30-c" 2])]
    (by decide) (by decide)

end Eufi
