import Mathlib.Data.List.TakeWhile
import EosUpdater.Flatpak.Flatten
import EosUpdater.Flatpak.Serials

/-!
# New and existing actions

The check mode looks at the actions of a file that its progress covers, and the perform mode at
those beyond it. Both filters stop comparing at the first action beyond the progress, so that they
divide a list between them (`Partitions`) exactly if no action that is covered is behind one beyond
it (`partitions_iff_divided`).

Whether this is so is up to the sort of the parser, whose comparison wraps around. It is so exactly
if the sort compares no two serials, one beyond the progress and one that it covers, whose
difference overflows (`partitions_iff`).
-/

namespace Euu

variable {env : ParserEnvironment} {file : GFile} {nodes : List JsonNode}
variable {progresses : Progresses} {name : String} {progress : Int32}
variable {l : List FlatpakRemoteRefAction} {a b : FlatpakRemoteRefAction}

/-- The action is beyond the progress, if there is one for its file. -/
def beyond (progress : Option Int32) (a : FlatpakRemoteRefAction) : Bool :=
  progress.all fun progress => decide (progress < a.serial)

/-- The filters divide a list: into the actions beyond the progress of the file and the others, each
in order. -/
structure Partitions (progresses : Progresses) (name : String)
    (l : List FlatpakRemoteRefAction) : Prop where
  new : keepOnlyNewActions progresses name l = l.filter (beyond (progresses.lookup name))
  existing : keepOnlyExistingActions progresses name l =
    l.filter fun a => !beyond (progresses.lookup name) a

/-- Without a progress, the actions are all new. -/
theorem partitions_of_none (h : progresses.lookup name = none) : Partitions progresses name l := by
  constructor
  · rw [keepOnlyNewActions, h]
    exact (List.filter_eq_self.2 fun _ _ => rfl).symm
  · rw [keepOnlyExistingActions, h]
    exact (List.filter_eq_nil_iff.2 fun _ _ => Bool.false_ne_true).symm

theorem partitions_of_some (h : progresses.lookup name = some progress)
    (hnew : l.dropWhile (fun a => !decide (a.serial > progress)) =
      l.filter fun a => decide (progress < a.serial))
    (hexisting : l.takeWhile (fun a => !decide (a.serial > progress)) =
      l.filter fun a => decide (a.serial ≤ progress)) : Partitions progresses name l := by
  constructor
  · rw [keepOnlyNewActions, h]
    exact hnew
  · rw [keepOnlyExistingActions, h]
    show l.takeWhile (fun a => !decide (a.serial > progress)) =
      l.filter fun a => !decide (progress < a.serial)
    rw [hexisting]
    refine List.filter_congr fun a _ => ?_
    rw [← decide_not, decide_eq_decide]
    exact Int32.not_lt.symm

/-- The filters divide the lists in which no action that is covered is behind one beyond the
progress. -/
theorem partitions_iff_divided (h : progresses.lookup name = some progress) :
    Partitions progresses name l ↔ Divided progress l := by
  refine ⟨fun hpart => ?_, fun hdivided =>
    partitions_of_some h hdivided.dropWhile_eq_filter hdivided.takeWhile_eq_filter⟩
  -- the two parts, one behind the other, are the list
  have hsplit : l.filter (fun a => !beyond (some progress) a) ++ l.filter (beyond (some progress)) =
      l := by
    rw [← h, ← hpart.new, ← hpart.existing, keepOnlyNewActions, keepOnlyExistingActions, h]
    exact List.takeWhile_append_dropWhile
  have hnew : ∀ b ∈ l.filter (beyond (some progress)), progress < b.serial := fun b hb =>
    of_decide_eq_true (List.mem_filter.1 hb).2
  have hold : ∀ a ∈ l.filter (fun a => !beyond (some progress) a), ¬ progress < a.serial :=
    fun a ha => by simpa [beyond] using (List.mem_filter.1 ha).2
  rw [Divided, ← hsplit, List.pairwise_append]
  refine ⟨List.pairwise_of_forall_mem_list fun a ha b _ hlt => absurd hlt (hold a ha),
    List.pairwise_of_forall_mem_list fun _ _ b hb _ => hnew b hb, fun a _ b hb _ => hnew b hb⟩

/-- Of two entries, the comparison decides right on the progress exactly if it covers both or none
of them, or their difference does not overflow. -/
theorem decides_across_iff (ha : a.isDependency = false) (hb : b.isDependency = false) :
    GLib.Decides sorted (fun a b => progress < a.serial → progress < b.serial) a b ↔
      (Overflows a b → (progress < a.serial ↔ progress < b.serial)) := by
  simp only [Int32.lt_iff_toInt_lt]
  by_cases h : Overflows a b
  · have hsorted := sorted_iff_of_overflows h
    rw [GLib.Decides]
    cases hcompare : sorted a b with
    | true =>
        have hlt := hsorted.1 hcompare
        simp only [h, forall_const, reduceCtorEq, IsEmpty.forall_iff, and_true]
        omega
    | false =>
        have hle : ¬ b.serial.toInt < a.serial.toInt := mt hsorted.2 (by simp [hcompare])
        simp only [h, forall_const, reduceCtorEq, IsEmpty.forall_iff, true_and]
        omega
  · have hsorted := sorted_iff_of_not_overflows ha hb h
    refine iff_of_true ⟨fun hcompare => ?_, fun hcompare => ?_⟩ fun hover => absurd hover h
    · have hle := hsorted.1 hcompare
      omega
    · have hnot := mt hsorted.2 (by simp [hcompare])
      omega

/-- **When the filters divide what was read**: exactly if the parser has compared no two serials,
one beyond the progress and one that it covers, whose difference overflows. -/
theorem partitions_iff {read : ReadActions}
    (hread : readFlatpakRefActionsFromNode env file (.array nodes) = .ok read) :
    Partitions progresses name read.actions ↔
      ∀ progress, progresses.lookup name = some progress →
        ∀ p ∈ GLib.comparisons sorted (keptActions env file nodes), Overflows p.1 p.2 →
          (progress < p.1.serial ↔ progress < p.2.serial) := by
  cases hprogress : progresses.lookup name with
  | none => exact iff_of_true (partitions_of_none hprogress) nofun
  | some progress =>
      have htrans : GLib.TransOn (fun a b : FlatpakRemoteRefAction =>
          progress < a.serial → progress < b.serial) (keptActions env file nodes) :=
        fun _ _ _ _ _ _ hab hbc ha => hbc (hab ha)
      rw [partitions_iff_divided hprogress, (actions_of_read hread).2.1, Divided, ptrArraySort,
        GLib.pairwise_msort_iff htrans]
      simp only [Option.some.injEq, forall_eq']
      refine forall₂_congr fun p hp => ?_
      obtain ⟨hp₁, hp₂⟩ := GLib.mem_of_mem_comparisons hp
      exact decides_across_iff (not_dependency_of_kept hp₁) (not_dependency_of_kept hp₂)

/-- Four entries, of which the first and the last are far apart but not compared, and a progress
between them. -/
theorem partitions_ascending :
    let nodes := [updateNode "org.example.W" (-2000000000), updateNode "org.example.X" (-1),
      updateNode "org.example.Y" 0, updateNode "org.example.Z" 2000000000]
    let progresses : Progresses := GHashTable.empty.replace "10-apps.json" (-1)
    ∃ read, readFlatpakRefActionsFromNode plainEnvironment ⟨"/etc", "10-apps.json"⟩
        (.array nodes) = .ok read ∧ Partitions progresses "10-apps.json" read.actions ∧
      (keepOnlyNewActions progresses "10-apps.json" read.actions).map (·.serial) =
        [0, 2000000000] := by
  intro nodes progresses
  let read : ReadActions :=
    ⟨[sampleAction .update "org.example.W" "10-apps.json" (-2000000000),
      sampleAction .update "org.example.X" "10-apps.json" (-1),
      sampleAction .update "org.example.Y" "10-apps.json" 0,
      sampleAction .update "org.example.Z" "10-apps.json" 2000000000], []⟩
  have hread : readFlatpakRefActionsFromNode plainEnvironment ⟨"/etc", "10-apps.json"⟩
      (.array nodes) = .ok read := by decide +kernel
  have hfits : ∀ p ∈ GLib.comparisons sorted
      (keptActions plainEnvironment ⟨"/etc", "10-apps.json"⟩ nodes), ¬ Overflows p.1 p.2 := by
    decide +kernel
  exact ⟨read, hread, (partitions_iff hread).2 fun _ _ p hp hover => absurd hover (hfits p hp),
    by decide +kernel⟩

/-- With a progress of `0`, the check mode ignores an action of serial `-1` that is behind one of
the greatest serial, and the perform mode claims it. -/
theorem not_partitions_farApart :
    ∃ read, readFlatpakRefActionsFromNode plainEnvironment ⟨"/etc", "10-apps.json"⟩
        (.array [updateNode "org.example.X" 2147483647, updateNode "org.example.Y" (-1)]) =
          .ok read ∧
      ¬ Partitions (GHashTable.empty.replace "10-apps.json" 0) "10-apps.json" read.actions := by
  refine ⟨⟨[sampleAction .update "org.example.X" "10-apps.json" 2147483647,
    sampleAction .update "org.example.Y" "10-apps.json" (-1)], []⟩, by decide +kernel, ?_⟩
  have hprogress : (GHashTable.empty.replace "10-apps.json" (0 : Int32)).lookup "10-apps.json" =
      some 0 := by decide +kernel
  rw [partitions_iff_divided hprogress, Divided]
  decide +kernel

end Euu
