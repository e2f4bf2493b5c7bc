import EosUpdater.Updater.Poll

/-!
# Replaying a poll

What polls report is known for searches with given outcomes, which are recorded. Every poll is one
of these: as none of its searches is made twice, the outcomes can be read off the way it ends
(`Ostree.poll_replayed`).
-/

namespace Updater

open Euu Machine Machine.Program

variable {σ ρ α β : Type}

/-! ### Outcomes that agree with a run -/

/-- Every search fails. -/
def Outcomes.fail (e : GError) : Outcomes ρ where
  of _ := .error e
  complete _ _ h := by cases h

/-- Every search returns the same. -/
def Outcomes.const (info : UpdateRefInfo ρ) (hcomplete : info.Complete) : Outcomes ρ where
  of _ := .ok info
  complete _ _ h := Except.ok.inj h ▸ hcomplete

/-- Some searches have the outcomes that are given first, the other ones those that are given
then. -/
def Outcomes.orElse (outcomes : Outcomes ρ) (kinds : List SearchKind) (others : Outcomes ρ) :
    Outcomes ρ where
  of kind := if kind ∈ kinds then outcomes kind else others kind
  complete kind info h := by
    split at h
    · exact outcomes.complete kind info h
    · exact others.complete kind info h

/-- What is known of a search: its records are complete. -/
def Search.Complete (search : Search σ ρ) : Prop :=
  ∀ finders info s info' t, (search finders info).Ends s (.ok info') t → info'.Complete

/-- However a program ends, unless it crashes, with some outcomes of the searches that it can make
the recorded program ends in the same way. -/
def Replays (kinds : List SearchKind) (program : Program σ Failure α)
    (recorded : Outcomes ρ → Program (List SearchKind) Failure α) : Prop :=
  ∀ s result t, program.Ends s result t → result ≠ .error .aborted →
    ∃ given : Outcomes ρ, ∀ outcomes : Outcomes ρ, (∀ kind ∈ kinds, outcomes kind = given kind) →
      ∀ made, ∃ made', (recorded outcomes).Ends made result made'

section Replays

variable {kinds kinds' : List SearchKind} {program : Program σ Failure α}
  {recorded : Outcomes ρ → Program (List SearchKind) Failure α}

/-- What makes no search is replayed with any outcomes. -/
theorem replays_query (kinds : List SearchKind) (result : Except Failure α) :
    Replays kinds (query fun _ => result : Program σ Failure α)
      (fun _ : Outcomes ρ => query fun _ => result) := by
  intro s result' t hend _
  obtain ⟨rfl, rfl⟩ := ends_query.1 hend
  exact ⟨.fail ⟨.ioFailed, "not searched"⟩, fun _ _ made => ⟨made, ends_query.2 ⟨rfl, rfl⟩⟩⟩

theorem replays_pure (kinds : List SearchKind) (a : α) :
    Replays kinds (pure a : Program σ Failure α) (fun _ : Outcomes ρ => pure a) :=
  replays_query kinds (.ok a)

theorem replays_throw (kinds : List SearchKind) (failure : Failure) :
    Replays kinds (throw failure : Program σ Failure α) (fun _ : Outcomes ρ => throw failure) :=
  replays_query kinds (.error failure)

theorem Replays.mono (h : Replays kinds program recorded) (hsub : kinds ⊆ kinds') :
    Replays kinds' program recorded := by
  intro s result t hend hresult
  obtain ⟨given, hgiven⟩ := h s result t hend hresult
  exact ⟨given, fun outcomes hagree => hgiven outcomes fun kind hkind => hagree kind (hsub hkind)⟩

/-- Two programs that do not make the same search are replayed one after the other. -/
theorem Replays.bind {f : α → Program σ Failure β}
    {g : Outcomes ρ → α → Program (List SearchKind) Failure β}
    (h : Replays kinds program recorded)
    (hf : ∀ a, Replays kinds' (f a) fun outcomes => g outcomes a)
    (hdisjoint : ∀ kind ∈ kinds', kind ∉ kinds) :
    Replays (kinds ++ kinds') (program >>= f) fun outcomes => recorded outcomes >>= g outcomes := by
  intro s result t hend hresult
  rcases ends_bind.1 hend with ⟨e, hprogram, rfl⟩ | ⟨a, s', hprogram, hrest⟩
  -- the first program has failed, and the second one is not run
  · have he : (.error e : Except Failure α) ≠ .error .aborted := by simpa using hresult
    obtain ⟨given, hgiven⟩ := h s _ t hprogram he
    refine ⟨given, fun outcomes hagree made => ?_⟩
    obtain ⟨made', hmade⟩ :=
      hgiven outcomes (fun kind hkind => hagree kind (List.mem_append_left _ hkind)) made
    exact ⟨made', ends_bind_error.2 (Or.inl hmade)⟩
  · obtain ⟨given, hgiven⟩ := h s _ s' hprogram nofun
    obtain ⟨given', hgiven'⟩ := hf a s' _ t hrest hresult
    -- each program looks only at the outcomes of its own searches
    refine ⟨given.orElse kinds given', fun outcomes hagree made => ?_⟩
    have hfirst : ∀ kind ∈ kinds, outcomes kind = given kind := fun kind hkind =>
      (hagree kind (List.mem_append_left _ hkind)).trans (if_pos hkind)
    have hsecond : ∀ kind ∈ kinds', outcomes kind = given' kind := fun kind hkind =>
      (hagree kind (List.mem_append_right _ hkind)).trans (if_neg (hdisjoint kind hkind))
    obtain ⟨made', hmade⟩ := hgiven outcomes hfirst made
    obtain ⟨made'', hmade'⟩ := hgiven' outcomes hsecond made'
    exact ⟨made'', (ends_bind_of_ok hmade).2 hmade'⟩

/-- What is looked at first needs no search. -/
theorem replays_query_bind {f : α → Program σ Failure β}
    {g : Outcomes ρ → α → Program (List SearchKind) Failure β} (result : Except Failure α)
    (hf : ∀ a, Replays kinds (f a) fun outcomes => g outcomes a) :
    Replays kinds ((query fun _ => result) >>= f)
      fun outcomes => (query fun _ => result) >>= g outcomes :=
  (replays_query [] result).bind hf (by simp)

/-- What is done with the result needs no search. -/
theorem Replays.bind_of_result {f : α → Program σ Failure β}
    {g : Outcomes ρ → α → Program (List SearchKind) Failure β}
    (h : Replays kinds program recorded)
    (hf : ∀ a, Replays [] (f a) fun outcomes => g outcomes a) :
    Replays kinds (program >>= f) fun outcomes => recorded outcomes >>= g outcomes :=
  (h.bind hf (by simp)).mono (by simp)

/-- An error that can be looked at is replayed as well. -/
theorem Replays.attempt (h : Replays kinds program recorded) :
    Replays kinds (attempt program) fun outcomes => attempt (recorded outcomes) := by
  intro s result t hend hresult
  cases result with
  | ok ended =>
      have hne : (ended.mapError .error : Except Failure α) ≠ .error .aborted := by
        cases ended <;> simp [Except.mapError]
      obtain ⟨given, hgiven⟩ := h s _ t (ends_attempt.1 hend) hne
      refine ⟨given, fun outcomes hagree made => ?_⟩
      obtain ⟨made', hmade⟩ := hgiven outcomes hagree made
      exact ⟨made', ends_attempt.2 hmade⟩
  | error failure => exact absurd (congrArg Except.error (aborted_of_attempt hend)) hresult

/-- A search that returns complete records is replayed with its outcome. -/
theorem replays_search {search : Search σ ρ}
    (hsearch : search.Complete) (finders : Option (List OstreeRepoFinder))
    (info : UpdateRefInfo ρ) :
    Replays [.ofFinders finders] (search finders info) fun outcomes =>
      outcomes.search finders info := by
  intro s result t hend hresult
  -- in each case the outcome of the search is the one that it is given
  have hgiven (given : Outcomes ρ)
      (heq : (given (.ofFinders finders)).mapError .error = result) (outcomes : Outcomes ρ)
      (hagree : ∀ kind ∈ [.ofFinders finders], outcomes kind = given kind)
      (made : List SearchKind) :
      ∃ made', (outcomes.search finders info).Ends made result made' := by
    have hsearch := ends_search outcomes finders info made
    rw [hagree _ (List.mem_singleton_self _), heq] at hsearch
    exact ⟨_, hsearch⟩
  rcases result with (e | _) | info'
  · exact ⟨.fail e, hgiven (.fail e) rfl⟩
  · exact absurd rfl hresult
  · have hinfo : info'.Complete := hsearch finders info s info' t hend
    exact ⟨.const info' hinfo, hgiven (.const info' hinfo) rfl⟩

end Replays

/-! ### The searches of a poll -/

section Polls

variable {search : Search σ ρ}

/-- The online search is replayed by its outcome. -/
theorem replays_metadataFetchOnline (hsearch : search.Complete)
    {finders : Terminated OstreeRepoFinder}
    (hfinders : ∀ fs, finders = some fs → SearchKind.ofFinders (some fs) = .online)
    (info : UpdateRefInfo ρ) :
    Replays [.online] (metadataFetchOnline search finders info) fun outcomes =>
      metadataFetchOnline outcomes.search finders info := by
  unfold metadataFetchOnline
  have hfound (online : UpdateRefInfo ρ) :
      Replays [] (if online.IsUsable then pure (online.toUpdateInfo false online.results)
        else pure none : Program σ Failure _) (fun _ : Outcomes ρ =>
          if online.IsUsable then pure (online.toUpdateInfo false online.results)
          else pure none) := by
    split <;> exact replays_pure _ _
  cases finders with
  | none => exact (replays_pure _ info.clear).bind_of_result hfound
  | some fs =>
      exact (hfinders fs rfl ▸ replays_search hsearch (some fs) info.clear).bind_of_result hfound

/-- The two searches with finders are replayed by their outcomes. -/
theorem replays_metadataFetchNew (hsearch : search.Complete) (config : SourcesConfig)
    (avahiStart : Except GError Unit) :
    Replays [.offline, .online] (metadataFetchNew search config avahiStart) fun outcomes =>
      metadataFetchNew outcomes.search config avahiStart := by
  unfold metadataFetchNew
  have hoffline fs : (getFinders config avahiStart).1 = some fs →
      SearchKind.ofFinders (some fs) = .offline := ofFinders_offline config avahiStart
  have honline fs : (getFinders config avahiStart).2 = some fs →
      SearchKind.ofFinders (some fs) = .online := ofFinders_online config avahiStart
  generalize getFinders config avahiStart = finders at honline hoffline ⊢
  obtain ⟨offlineFinders, onlineFinders⟩ := finders
  dsimp only
  split
  · exact replays_throw _ _
  -- what comes after the first search, whatever this has found
  · have hnext (offline : UpdateRefInfo ρ) :
        Replays [.online] (if offline.IsUsable then pure (offline.toUpdateInfo true offline.results)
          else metadataFetchOnline search onlineFinders offline) (fun outcomes =>
            if offline.IsUsable then pure (offline.toUpdateInfo true offline.results)
            else metadataFetchOnline outcomes.search onlineFinders offline) := by
      split
      · exact replays_pure _ _
      · exact replays_metadataFetchOnline hsearch honline offline
    cases offlineFinders with
    | none => exact (replays_pure [.offline] {}).bind hnext (by simp)
    | some fs =>
        have hfirst : Replays [.offline] (search (some fs) {}) fun outcomes =>
            outcomes.search (some fs) {} := hoffline fs rfl ▸ replays_search hsearch (some fs) {}
        exact hfirst.bind hnext (by simp)

/-- The search of the main server is replayed by its outcome. -/
theorem replays_metadataFetchFromMain (hsearch : search.Complete) :
    Replays [.main] (metadataFetchFromMain search) fun outcomes =>
      metadataFetchFromMain outcomes.search :=
  (replays_search hsearch none {}).bind_of_result fun _ => replays_pure _ _

/-- With its only fetcher, the old code path makes the search of the main source. -/
theorem replays_metadataFetchFallback (hsearch : search.Complete) (config : SourcesConfig)
    (disableOldCode : Bool) (info : Option (EosUpdateInfo ρ)) :
    Replays [.main] (metadataFetchFallback search config disableOldCode info) fun outcomes =>
      metadataFetchFallback outcomes.search config disableOldCode info := by
  unfold metadataFetchFallback
  split
  · refine Replays.bind_of_result ?_ fun found => replays_pure _ _
    refine (replays_metadataFetchFromMain hsearch).attempt.bind_of_result fun fetched => ?_
    cases fetched with
    | ok info => exact replays_pure _ _
    | error e =>
        dsimp only
        split
        · exact replays_throw _ _
        · exact replays_pure _ _
  · exact replays_pure _ _

/-- The fetch with finders is replayed by the outcomes of its searches. -/
theorem replays_metadataFetchUsingFinders (hsearch : search.Complete) (config : SourcesConfig)
    (avahiStart : Except GError Unit) :
    Replays [.offline, .online] (metadataFetchUsingFinders search config avahiStart)
      fun outcomes => metadataFetchUsingFinders outcomes.search config avahiStart := by
  refine (replays_metadataFetchNew hsearch config avahiStart).attempt.bind_of_result fun tried => ?_
  cases tried with
  | ok info => exact replays_pure _ _
  | error e =>
      dsimp only
      split
      · exact replays_throw _ _
      · exact replays_pure _ _

/-- No search of a poll is made twice, so that the poll is replayed. -/
theorem replays_metadataFetchInternal (hsearch : search.Complete)
    (booted : Except GError OstreeDeployment) (config : Except GError SourcesConfig)
    (avahiStart : Except GError Unit) (disableOldCode : Bool) :
    Replays [.offline, .online, .main]
      (metadataFetchInternal search booted config avahiStart disableOldCode) fun outcomes =>
        metadataFetchInternal outcomes.search booted config avahiStart disableOldCode := by
  refine replays_query_bind _ fun _ => replays_query_bind _ fun config => ?_
  exact (replays_metadataFetchUsingFinders hsearch config avahiStart).bind
    (replays_metadataFetchFallback hsearch config disableOldCode) (by simp)

end Polls

/-- **Polls of the repository.** However a poll ends that searches with libostree, with the outcomes
of some searches a recorded poll ends in the same way. -/
theorem Ostree.poll_replayed (ostree : Ostree σ ρ) (platform : Platform) (bound : ℕ)
    (booted : Except GError OstreeDeployment) (config : Except GError SourcesConfig)
    (avahiStart : Except GError Unit) (disableOldCode : Bool) {s t : σ}
    {result : Except Failure (Option (EosUpdateInfo ρ))}
    (hend : (metadataFetchInternal
      (ostree.checkForUpdateFollowingCheckpointIfAllowed platform bound) booted config avahiStart
      disableOldCode).Ends s result t)
    (hresult : result ≠ .error .aborted) :
    ∃ (outcomes : Outcomes ρ) (made : List SearchKind),
      (metadataFetchInternal outcomes.search booted config avahiStart disableOldCode).Ends [] result
        made := by
  have hsearch : Search.Complete
      (ostree.checkForUpdateFollowingCheckpointIfAllowed platform bound) :=
    fun _ _ _ _ _ => complete_of_ends
  obtain ⟨given, hgiven⟩ :=
    replays_metadataFetchInternal hsearch booted config avahiStart disableOldCode s result t hend
      hresult
  exact ⟨given, hgiven given (fun _ _ => rfl) []⟩

end Updater
