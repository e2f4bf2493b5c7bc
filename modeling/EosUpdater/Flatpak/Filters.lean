import EosUpdater.Flatpak.Serials

/-!
# Filters in any order

A JSON object has no order, and an autoinstall entry should be kept, filtered out, skipped or
refused whatever the order of its filters and of the texts in them (`FiltersUnordered`).

The loops over filters and elements leave at the first one that decides, so that what is malformed
or unknown may or may not be seen. They never differ exactly if the filters that decide all decide
the same way, and no array has both a text that is looked for and an element that is no text, unless
another filter has the entry refused anyway (`filtersUnordered_iff`).
-/

namespace Euu

variable (env : ParserEnvironment)

/-! ### Outcomes -/

/-- What evaluating the filters of an entry amounts to. -/
inductive FilterOutcome
  | kept
  | filteredOut
  | skipped
  | malformed
  | failed
deriving DecidableEq, Repr

/-- How the reader of a file takes the result. -/
def filterOutcome : Except GError Bool → FilterOutcome
  | .ok false => .kept
  | .ok true => .filteredOut
  | .error e =>
      if e.code = .updaterMalformedAutoinstallSpec then .malformed
      else if e.code = .updaterUnknownEntryInAutoinstallSpec then .skipped
      else .failed

@[simp] theorem filterOutcome_malformed (message : String) :
    filterOutcome (.error (malformed message)) = .malformed := rfl

@[simp] theorem filterOutcome_unknownEntry (message : String) :
    filterOutcome (.error (unknownEntry message)) = .skipped := rfl

/-! ### Orders -/

/-- The same filter, with the elements of its array in any order. -/
inductive ReordersFilter : String × JsonNode → String × JsonNode → Prop
  | refl (member : String × JsonNode) : ReordersFilter member member
  | array {key : String} {elements elements' : List JsonNode} (h : elements.Perm elements') :
      ReordersFilter (key, .array elements) (key, .array elements')

/-- The same filters, with the keys and the elements of each array in any order. -/
def Reorders (filters filters' : JsonObject) : Prop :=
  ∃ reordered, List.Forall₂ ReordersFilter filters reordered ∧ reordered.Perm filters'

/-- `json_object_set_member`, on a member that there is. -/
def JsonObject.setMember (object : JsonObject) (key : String) (node : JsonNode) : JsonObject :=
  object.map fun member => if member.1 = key then (key, node) else member

/-! ### Filters -/

/-- The texts that a filter looks for, and whether it keeps the entries that have one of them rather
than removing these. -/
def knownFilter (key : String) : Option (List String × Bool) :=
  if key = "architecture" && env.knowsFilter "architecture" then some ([env.architecture], true)
  else if key = "~architecture" && env.knowsFilter "~architecture" then
    some ([env.architecture], false)
  else if key = "locale" && env.knowsFilter "locale" then some (env.locales, true)
  else if key = "~locale" && env.knowsFilter "~locale" then some (env.locales, false)
  else none

/-- An element is no text. -/
def HasNonString (elements : List JsonNode) : Prop :=
  ∃ node ∈ elements, ∀ text, node ≠ .string text

/-- An element is a text that is looked for. -/
def HasElementOf (strv : List String) (elements : List JsonNode) : Prop :=
  ∃ text ∈ strv, JsonNode.string text ∈ elements

variable (member : String × JsonNode)

/-- The program does not know the filter. -/
def IsUnknownFilter : Prop := knownFilter env member.1 = none

/-- The program knows the filter, and its value is no array of texts. -/
def IsMalformedFilter : Prop :=
  knownFilter env member.1 ≠ none ∧ ∀ elements, member.2 = .array elements → HasNonString elements

/-- A text that the filter looks for is among the elements of its array, which may not all be
texts. -/
def HasMatch : Prop :=
  ∃ strv keeps elements, knownFilter env member.1 = some (strv, keeps) ∧
    member.2 = .array elements ∧ HasElementOf strv elements

/-- The filter removes the entries that it matches. -/
def IsNegated : Prop := ∃ strv, knownFilter env member.1 = some (strv, false)

/-- The filter has an array of texts, and removes the entry. -/
def FiltersOut : Prop :=
  ∃ strv keeps elements, knownFilter env member.1 = some (strv, keeps) ∧
    member.2 = .array elements ∧ ¬ HasNonString elements ∧
    (HasElementOf strv elements ↔ keeps = false)

/-- There are a filter and its inverse. -/
def Contradictory (filters : JsonObject) : Prop :=
  "locale" ∈ filters.map Prod.fst ∧ "~locale" ∈ filters.map Prod.fst ∨
    "architecture" ∈ filters.map Prod.fst ∧ "~architecture" ∈ filters.map Prod.fst

/-- The filters that decide all decide the same way, in any order. -/
structure DecidesOneWay (filters : JsonObject) : Prop where
  negated : ∀ m ∈ filters, IsMalformedFilter env m → HasMatch env m → ¬ IsNegated env m
  positive : ∀ m ∈ filters, IsMalformedFilter env m → HasMatch env m →
    ∃ m' ∈ filters, IsMalformedFilter env m' ∧ ¬ HasMatch env m'
  unknown : ∀ m ∈ filters, IsUnknownFilter env m →
    ∀ m' ∈ filters, ¬ IsMalformedFilter env m' ∧ ¬ FiltersOut env m'
  malformed : ∀ m ∈ filters, IsMalformedFilter env m → ∀ m' ∈ filters, ¬ FiltersOut env m'

/-- The outcome is the same in any order. In particular, what is malformed or unknown has the entry
refused or skipped, unless something fails that does not depend on the order. -/
structure FiltersUnordered (object filters : JsonObject) : Prop where
  same : ∀ filters', Reorders filters filters' →
    filterOutcome (actionNodeShouldBeFilteredOut env
      (object.setMember "filters" (.object filters'))) =
        filterOutcome (actionNodeShouldBeFilteredOut env object)
  malformed : env.getFlatpakInstallation = .ok () →
    (∃ m ∈ filters, IsMalformedFilter env m) →
      filterOutcome (actionNodeShouldBeFilteredOut env object) = .malformed
  unknown : env.getFlatpakInstallation = .ok () → ¬ Contradictory filters →
    (∃ m ∈ filters, IsUnknownFilter env m) →
      filterOutcome (actionNodeShouldBeFilteredOut env object) = .skipped

variable {env} {member}
variable {object filters filters' : JsonObject} {elements elements' : List JsonNode}
variable {strv keys : List String} {keeps : Bool} {key : String} {m m' : String × JsonNode}

/-! ### One array -/

/-- The search for an element ends in one of three ways, by what stands in front of the first
match. -/
theorem strvElement_cases (strv : List String) (elements : List JsonNode) :
    (strvElementInJsonStringNodeList env strv elements = .ok true ∧ HasElementOf strv elements) ∨
      (strvElementInJsonStringNodeList env strv elements = .ok false ∧
        ¬ HasElementOf strv elements ∧ ¬ HasNonString elements) ∨
      (∃ message, strvElementInJsonStringNodeList env strv elements = .error (malformed message)) ∧
        HasNonString elements := by
  fun_induction strvElementInJsonStringNodeList env strv elements with
  | case1 => exact .inr (.inl ⟨rfl, by simp [HasElementOf], by simp [HasNonString]⟩)
  -- the first match ends the loop, whatever comes after it
  | case2 text nodes hmatch =>
      obtain ⟨s, hs, heq⟩ := List.any_eq_true.1 hmatch
      rw [decide_eq_true_eq] at heq
      exact .inl ⟨rfl, s, hs, by simp [heq]⟩
  | case3 text nodes hmatch ih =>
      have hnone : ∀ s ∈ strv, s ≠ text := by
        rintro s hs rfl
        exact hmatch (List.any_eq_true.2 ⟨s, hs, by simp⟩)
      -- a text that is not looked for makes no difference
      have hmatch' : HasElementOf strv (.string text :: nodes) ↔ HasElementOf strv nodes := by
        refine exists_congr fun s => and_congr_right fun hs => ?_
        simp [hnone s hs]
      have hnonString : HasNonString (.string text :: nodes) ↔ HasNonString nodes := by
        simp [HasNonString]
      rw [hmatch', hnonString]
      exact ih
  | case4 node nodes hnode =>
      refine .inr (.inr ⟨⟨_, rfl⟩, node, List.mem_cons_self, fun text htext => ?_⟩)
      exact hnode text htext

/-- The order of the elements does not matter for whether one of them is no string. -/
theorem HasNonString.perm (h : elements.Perm elements') :
    HasNonString elements ↔ HasNonString elements' :=
  exists_congr fun _ => and_congr_left fun _ => h.mem_iff

/-- The order of the elements does not matter for whether one of them is wanted. -/
theorem HasElementOf.perm (h : elements.Perm elements') :
    HasElementOf strv elements ↔ HasElementOf strv elements' :=
  exists_congr fun _ => and_congr_right fun _ => h.mem_iff

variable (env) in
/-- A match is found if it is in front. -/
theorem exists_perm_of_hasElementOf (h : HasElementOf strv elements) :
    ∃ elements', elements.Perm elements' ∧
      strvElementInJsonStringNodeList env strv elements' = .ok true := by
  obtain ⟨text, htext, hmem⟩ := h
  obtain ⟨front, back, rfl⟩ := List.append_of_mem hmem
  refine ⟨.string text :: (front ++ back), List.perm_middle, ?_⟩
  rw [strvElementInJsonStringNodeList, if_pos (List.any_eq_true.2 ⟨text, htext, by simp⟩)]

variable (env) in
/-- An element that is no text is seen if it is in front. -/
theorem exists_perm_of_hasNonString (strv : List String) (h : HasNonString elements) :
    ∃ elements', elements.Perm elements' ∧
      ∃ message, strvElementInJsonStringNodeList env strv elements' =
        .error (malformed message) := by
  obtain ⟨node, hmem, hnode⟩ := h
  obtain ⟨front, back, rfl⟩ := List.append_of_mem hmem
  refine ⟨node :: (front ++ back), List.perm_middle, ?_⟩
  rw [strvElementInJsonStringNodeList]
  · exact ⟨_, rfl⟩
  · intro text htext
    exact hnode text htext

/-! ### One filter -/

/-- What a filter says on its own. -/
def filterVerdict (env : ParserEnvironment) (m : String × JsonNode) : FilterOutcome :=
  filterOutcome (actionFilterApplies env [m] m.1)

/-- The filters differ in the texts that they look for, and in how they take a match. -/
theorem actionFilterApplies_eq (hinst : env.getFlatpakInstallation = .ok ()) :
    actionFilterApplies env filters key =
      match knownFilter env key with
      | none => .error (unknownEntry ("Unknown action filter value ‘" ++ key ++
          "’; expected one of ‘~architecture’, ‘architecture’, ‘~locale’ and ‘locale’"))
      | some (strv, keeps) =>
          (strvElementInJsonMember env strv filters key).map fun found => xor keeps found := by
  -- a filter that keeps the entries that it matches applies to the others
  have hinvert : ∀ x : Except GError Bool, (do return !(← x)) = x.map fun found => xor true found :=
    fun x => by
      cases x with
      | error e => rfl
      | ok found => simp [Except.map, bind, Except.bind, pure, Except.pure]
  have hplain : ∀ x : Except GError Bool, x = x.map fun found => xor false found := fun x => by
    cases x with
    | error e => rfl
    | ok found => simp [Except.map]
  simp only [actionFilterApplies, hinst, knownFilter]
  show (if _ then _ else _) = _
  split_ifs
  · exact hinvert _
  · exact hplain _
  · exact hinvert _
  · exact hplain _
  · rfl

/-- What a filter that the program knows says: a match is taken one way or the other. -/
theorem verdict_of_known (hinst : env.getFlatpakInstallation = .ok ())
    (hkey : knownFilter env key = some (strv, keeps)) :
    filterVerdict env (key, .array elements) =
      filterOutcome ((strvElementInJsonStringNodeList env strv elements).map
        fun found => xor keeps found) := by
  rw [filterVerdict, actionFilterApplies_eq hinst, hkey]
  simp [strvElementInJsonMember, lookupArrayNodes, JsonObject.getMember, bind, Except.bind]

/-- A known filter that is no array is malformed. -/
theorem verdict_of_notArray (hinst : env.getFlatpakInstallation = .ok ())
    (hkey : knownFilter env m.1 ≠ none) (harray : ∀ elements, m.2 ≠ .array elements) :
    filterVerdict env m = .malformed := by
  obtain ⟨key, value⟩ := m
  obtain ⟨⟨strv, keeps⟩, hkey⟩ := Option.ne_none_iff_exists'.1 hkey
  rw [filterVerdict, actionFilterApplies_eq hinst, hkey]
  cases value with
  | array elements => exact absurd rfl (harray elements)
  | object _ | string _ | int _ | double _ | boolean _ | null =>
    simp [strvElementInJsonMember, lookupArrayNodes, JsonObject.getMember, bind, Except.bind,
      Except.map]

/-- An unknown filter makes the entry skipped. -/
theorem verdict_of_unknown (hinst : env.getFlatpakInstallation = .ok ())
    (h : IsUnknownFilter env m) : filterVerdict env m = .skipped := by
  rw [filterVerdict, actionFilterApplies_eq hinst, h]
  rfl

/-- A malformed filter without a match is reported as such. -/
theorem verdict_of_malformed (hinst : env.getFlatpakInstallation = .ok ())
    (h : IsMalformedFilter env m) (hmatch : ¬ HasMatch env m) :
    filterVerdict env m = .malformed := by
  obtain ⟨key, value⟩ := m
  obtain ⟨hkey, hvalue⟩ := h
  -- an array with an element that is no text, or no array at all
  by_cases harray : ∃ elements, value = .array elements
  · obtain ⟨elements, rfl⟩ := harray
    obtain ⟨⟨strv, keeps⟩, hkey⟩ := Option.ne_none_iff_exists'.1 hkey
    rw [verdict_of_known hinst hkey]
    rcases strvElement_cases strv elements with
      ⟨-, hfound⟩ | ⟨-, -, hstrings⟩ | ⟨⟨message, herr⟩, -⟩
    · exact absurd ⟨strv, keeps, elements, hkey, rfl, hfound⟩ hmatch
    · exact absurd (hvalue elements rfl) hstrings
    · rw [herr]
      rfl
  · rw [not_exists] at harray
    exact verdict_of_notArray hinst hkey harray

/-- An array of texts is taken by whether there is a match. -/
theorem verdict_of_strings (hinst : env.getFlatpakInstallation = .ok ())
    (hkey : knownFilter env key = some (strv, keeps)) (h : ¬ HasNonString elements) :
    (HasElementOf strv elements → filterVerdict env (key, .array elements) =
        filterOutcome (.ok (xor keeps true))) ∧
      (¬ HasElementOf strv elements → filterVerdict env (key, .array elements) =
        filterOutcome (.ok (xor keeps false))) := by
  rw [verdict_of_known hinst hkey]
  rcases strvElement_cases strv elements with ⟨hok, hfound⟩ | ⟨hok, hnone, -⟩ | ⟨-, hnonString⟩
  · exact ⟨fun _ => by rw [hok]; rfl, fun hnone => absurd hfound hnone⟩
  · exact ⟨fun hfound => absurd hfound hnone, fun _ => by rw [hok]; rfl⟩
  · exact absurd hnonString h

/-- A filter that excludes this computer filters the entry out. -/
theorem verdict_of_filtersOut (hinst : env.getFlatpakInstallation = .ok ())
    (h : FiltersOut env m) : filterVerdict env m = .filteredOut := by
  obtain ⟨key, value⟩ := m
  obtain ⟨strv, keeps, elements, hkey, rfl, hstrings, hkeeps⟩ := h
  have hverdict := verdict_of_strings hinst hkey hstrings
  cases keeps with
  | false => exact hverdict.1 (hkeeps.2 rfl)
  | true => exact hverdict.2 fun hfound => Bool.noConfusion (hkeeps.1 hfound)

theorem verdict_of_none (hinst : env.getFlatpakInstallation = .ok ())
    (hunknown : ¬ IsUnknownFilter env m) (hmalformed : ¬ IsMalformedFilter env m)
    (hout : ¬ FiltersOut env m) : filterVerdict env m = .kept := by
  obtain ⟨key, value⟩ := m
  obtain ⟨⟨strv, keeps⟩, hkey⟩ := Option.ne_none_iff_exists'.1 hunknown
  have hvalue : ∃ elements, value = .array elements ∧ ¬ HasNonString elements := by
    by_contra hnone
    refine hmalformed ⟨hunknown, fun elements heq => ?_⟩
    by_contra hstrings
    exact hnone ⟨elements, heq, hstrings⟩
  obtain ⟨elements, rfl, hstrings⟩ := hvalue
  have hverdict := verdict_of_strings hinst hkey hstrings
  have hkeeps : ¬ (HasElementOf strv elements ↔ keeps = false) := fun hkeeps =>
    hout ⟨strv, keeps, elements, hkey, rfl, hstrings, hkeeps⟩
  cases keeps with
  | false => exact hverdict.2 fun hfound => hkeeps (iff_of_true hfound rfl)
  | true =>
      refine hverdict.1 ?_
      by_contra hnone
      exact hkeeps (iff_of_false hnone Bool.noConfusion)

/-- A filter that keeps entries is passed if the match is seen first. -/
theorem verdict_of_mixed (hinst : env.getFlatpakInstallation = .ok ())
    (hmatch : HasMatch env m) (hnegated : ¬ IsNegated env m) :
    filterVerdict env m = .kept ∨ filterVerdict env m = .malformed := by
  obtain ⟨key, value⟩ := m
  obtain ⟨strv, keeps, elements, hkey, rfl, hfound⟩ := hmatch
  -- a filter that removes what it matches would be negated
  have hkeeps : keeps = true := by
    by_contra hkeeps
    rw [Bool.not_eq_true] at hkeeps
    subst hkeeps
    exact hnegated ⟨strv, hkey⟩
  subst hkeeps
  rw [verdict_of_known hinst hkey]
  rcases strvElement_cases strv elements with ⟨hok, -⟩ | ⟨-, hnone, -⟩ | ⟨⟨message, herr⟩, -⟩
  · rw [hok]
    exact .inl rfl
  · exact absurd hfound hnone
  · rw [herr]
    exact .inr rfl

/-! ### One filter in another order -/

theorem ReordersFilter.fst (h : ReordersFilter m m') : m.1 = m'.1 := by
  rcases h with _ | _
  · rfl
  · rfl

/-- Whether a filter is known does not depend on the order of its elements. -/
theorem ReordersFilter.isUnknown (h : ReordersFilter m m') :
    IsUnknownFilter env m ↔ IsUnknownFilter env m' := by
  rw [IsUnknownFilter, IsUnknownFilter, h.fst]

/-- Whether a filter is negated does not depend on the order of its elements. -/
theorem ReordersFilter.isNegated (h : ReordersFilter m m') :
    IsNegated env m ↔ IsNegated env m' := by
  rw [IsNegated, IsNegated, h.fst]

/-- Whether a filter is malformed does not depend on the order of its elements. -/
theorem ReordersFilter.isMalformed (h : ReordersFilter m m') :
    IsMalformedFilter env m ↔ IsMalformedFilter env m' := by
  rcases h with _ | hperm
  · rfl
  · simp [IsMalformedFilter, HasNonString.perm hperm]

/-- Whether a filter matches does not depend on the order of its elements. -/
theorem ReordersFilter.hasMatch (h : ReordersFilter m m') : HasMatch env m ↔ HasMatch env m' := by
  rcases h with _ | hperm
  · rfl
  · simp [HasMatch, HasElementOf.perm hperm]

/-- Whether a filter excludes this computer does not depend on the order of its elements. -/
theorem ReordersFilter.filtersOut (h : ReordersFilter m m') :
    FiltersOut env m ↔ FiltersOut env m' := by
  rcases h with _ | hperm
  · rfl
  · simp [FiltersOut, HasElementOf.perm hperm, HasNonString.perm hperm]

/-- What is malformed is seen in some order. -/
theorem exists_malformed (hinst : env.getFlatpakInstallation = .ok ())
    (h : IsMalformedFilter env m) :
    ∃ m', ReordersFilter m m' ∧ filterVerdict env m' = .malformed := by
  by_cases hmatch : HasMatch env m
  · obtain ⟨key, value⟩ := m
    obtain ⟨strv, keeps, elements, hkey, rfl, -⟩ := hmatch
    obtain ⟨elements', hperm, message, herr⟩ := exists_perm_of_hasNonString env strv
      (h.2 elements rfl)
    refine ⟨(key, .array elements'), .array hperm, ?_⟩
    rw [verdict_of_known hinst hkey, herr]
    rfl
  · exact ⟨m, .refl m, verdict_of_malformed hinst h hmatch⟩

/-- A match is seen in some order. -/
theorem exists_match (hinst : env.getFlatpakInstallation = .ok ()) (h : HasMatch env m) :
    ∃ m', ReordersFilter m m' ∧
      (IsNegated env m → filterVerdict env m' = .filteredOut) ∧
      (¬ IsNegated env m → filterVerdict env m' = .kept) := by
  obtain ⟨key, value⟩ := m
  obtain ⟨strv, keeps, elements, hkey, rfl, hfound⟩ := h
  obtain ⟨elements', hperm, hok⟩ := exists_perm_of_hasElementOf env hfound
  refine ⟨(key, .array elements'), .array hperm, ?_, ?_⟩
  · rintro ⟨strv', hnegated⟩
    rw [verdict_of_known hinst hkey, hok]
    rw [hkey] at hnegated
    cases hnegated
    rfl
  · intro hnegated
    rw [verdict_of_known hinst hkey, hok]
    cases keeps with
    | false => exact absurd ⟨strv, hkey⟩ hnegated
    | true => rfl

/-! ### All filters -/

/-- With distinct keys, each member is found under its key. -/
theorem getMember_of_mem (hnodup : (filters.map Prod.fst).Nodup) (hm : m ∈ filters) :
    filters.getMember m.1 = some m.2 := by
  induction filters with
  | nil => exact absurd hm List.not_mem_nil
  | cons first rest ih =>
      rw [List.map_cons, List.nodup_cons] at hnodup
      rcases List.mem_cons.1 hm with rfl | hrest
      · simp [JsonObject.getMember]
      · have hne : first.1 ≠ m.1 := fun heq => hnodup.1 (heq ▸ List.mem_map_of_mem hrest)
        have hget := ih hnodup.2 hrest
        rw [JsonObject.getMember] at hget ⊢
        rw [List.find?_cons_of_neg (by simpa using hne), hget]

/-- A filter says the same among others. -/
theorem filterOutcome_applies (hinst : env.getFlatpakInstallation = .ok ())
    (hget : filters.getMember m.1 = some m.2) :
    filterOutcome (actionFilterApplies env filters m.1) = filterVerdict env m := by
  have hsingle : JsonObject.getMember [m] m.1 = some m.2 := by simp [JsonObject.getMember]
  rw [filterVerdict, actionFilterApplies_eq hinst, actionFilterApplies_eq hinst]
  -- only its own member is looked up
  simp only [strvElementInJsonMember, lookupArrayNodes, hget, hsingle]

/-- If no filter decides differently, one that decides is as good as another. -/
theorem filterOutcome_any {outcome : FilterOutcome}
    (hall : ∀ key ∈ keys, filterOutcome (actionFilterApplies env filters key) = .kept ∨
      filterOutcome (actionFilterApplies env filters key) = outcome)
    (hsome : outcome = .kept ∨
      ∃ key ∈ keys, filterOutcome (actionFilterApplies env filters key) = outcome) :
    filterOutcome (anyFilterApplies env filters keys) = outcome := by
  induction keys with
  | nil =>
      rcases hsome with rfl | ⟨key, hkey, -⟩
      · rfl
      · exact absurd hkey List.not_mem_nil
  | cons key keys ih =>
      have hkey := hall key List.mem_cons_self
      have hrest := fun k hk => hall k (List.mem_cons_of_mem key hk)
      rw [anyFilterApplies]
      split
      · next e herr =>
          -- an error decides
          rw [herr] at hkey
          refine hkey.resolve_left fun hkept => ?_
          simp only [filterOutcome] at hkept
          split_ifs at hkept
      · next htrue =>
          rw [htrue] at hkey
          exact hkey.resolve_left FilterOutcome.noConfusion
      · next hfalse =>
          refine ih hrest ?_
          rcases hsome with hkept | ⟨k, hk, houtcome⟩
          · exact .inl hkept
          rcases List.mem_cons.1 hk with rfl | hk
          · -- the one that decides keeps the entry
            rw [hfalse] at houtcome
            exact .inl houtcome.symm
          · exact .inr ⟨k, hk, houtcome⟩

/-- The first filter decides if it does not keep the entry. -/
theorem filterOutcome_any_cons
    (hkey : filterOutcome (actionFilterApplies env filters key) ≠ .kept) :
    filterOutcome (anyFilterApplies env filters (key :: keys)) =
      filterOutcome (actionFilterApplies env filters key) := by
  rw [anyFilterApplies]
  split
  · next e herr => rw [herr]
  · next htrue => rw [htrue]
  · next hfalse =>
      rw [hfalse] at hkey
      exact absurd rfl hkey

/-! ### All filters in another order -/

theorem Reorders.refl (filters : JsonObject) : Reorders filters filters :=
  ⟨filters, List.forall₂_same.2 fun m _ => .refl m, .refl filters⟩

private theorem exists_of_forall₂ {R : String × JsonNode → String × JsonNode → Prop}
    (h : List.Forall₂ R filters filters') (hm : m' ∈ filters') : ∃ m ∈ filters, R m m' := by
  induction h with
  | nil => exact absurd hm List.not_mem_nil
  | cons hfirst _ ih =>
      rcases List.mem_cons.1 hm with rfl | hm
      · exact ⟨_, List.mem_cons_self, hfirst⟩
      · obtain ⟨m, hmem, hrel⟩ := ih hm
        exact ⟨m, List.mem_cons_of_mem _ hmem, hrel⟩

/-- Each filter of the reordered object comes from one of the object. -/
theorem Reorders.exists_left (h : Reorders filters filters') (hm : m' ∈ filters') :
    ∃ m ∈ filters, ReordersFilter m m' := by
  obtain ⟨reordered, hfilters, hperm⟩ := h
  exact exists_of_forall₂ hfilters (hperm.mem_iff.2 hm)

/-- Each filter of the object is found again in the reordered one. -/
theorem Reorders.exists_right (h : Reorders filters filters') (hm : m ∈ filters) :
    ∃ m' ∈ filters', ReordersFilter m m' := by
  obtain ⟨reordered, hfilters, hperm⟩ := h
  obtain ⟨m', hm', hrel⟩ := exists_of_forall₂ hfilters.flip hm
  exact ⟨m', hperm.mem_iff.1 hm', hrel⟩

theorem Reorders.keys_perm (h : Reorders filters filters') :
    (filters.map Prod.fst).Perm (filters'.map Prod.fst) := by
  obtain ⟨reordered, hfilters, hperm⟩ := h
  have hkeys : filters.map Prod.fst = reordered.map Prod.fst := by
    induction hfilters generalizing filters' with
    | nil => rfl
    | cons hfirst _ ih =>
        rw [List.map_cons, List.map_cons, hfirst.fst]
        exact congrArg _ (ih (.refl _))
  rw [hkeys]
  exact hperm.map Prod.fst

/-- Two contradictory filters are so in every order. -/
theorem Reorders.contradictory (h : Reorders filters filters') :
    Contradictory filters ↔ Contradictory filters' := by
  simp only [Contradictory, h.keys_perm.mem_iff]

/-- Any filter can be first, in any order of its own. -/
theorem exists_reorders_cons (hm : m ∈ filters) (hrel : ReordersFilter m m') :
    ∃ rest, Reorders filters (m' :: rest) := by
  obtain ⟨front, back, rfl⟩ := List.append_of_mem hm
  have hsame : ∀ l : JsonObject, List.Forall₂ ReordersFilter l l :=
    fun l => List.forall₂_same.2 fun m _ => .refl m
  exact ⟨front ++ back, front ++ m' :: back,
    List.rel_append (hsame front) (.cons hrel (hsame back)), List.perm_middle⟩

/-- Each filter can be in an order of its own. -/
theorem exists_reorders_forall {P : String × JsonNode → Prop}
    (h : ∀ m ∈ filters, ∃ m', ReordersFilter m m' ∧ P m') :
    ∃ filters', Reorders filters filters' ∧ ∀ m' ∈ filters', P m' := by
  suffices h : ∃ filters', List.Forall₂ ReordersFilter filters filters' ∧ ∀ m' ∈ filters', P m' by
    obtain ⟨filters', hfilters, hall⟩ := h
    exact ⟨filters', ⟨filters', hfilters, .refl _⟩, hall⟩
  induction filters with
  | nil => exact ⟨[], .nil, by simp⟩
  | cons m filters ih =>
      obtain ⟨m', hrel, hm'⟩ := h m List.mem_cons_self
      obtain ⟨filters', hfilters, hall⟩ := ih fun n hn => h n (List.mem_cons_of_mem _ hn)
      exact ⟨m' :: filters', .cons hrel hfilters, List.forall_mem_cons.2 ⟨hm', hall⟩⟩

/-! ### When the order does not matter -/

/-- The outcome of the loop over the keys of filters. -/
def loopOutcome (env : ParserEnvironment) (filters : JsonObject) : FilterOutcome :=
  filterOutcome (anyFilterApplies env filters (filters.map Prod.fst))

/-- What the loop comes to, from what its filters say on their own. -/
theorem loopOutcome_eq {outcome : FilterOutcome} (hinst : env.getFlatpakInstallation = .ok ())
    (hnodup : (filters.map Prod.fst).Nodup)
    (hall : ∀ m ∈ filters, filterVerdict env m = .kept ∨ filterVerdict env m = outcome)
    (hsome : outcome = .kept ∨ ∃ m ∈ filters, filterVerdict env m = outcome) :
    loopOutcome env filters = outcome := by
  have hverdict : ∀ m ∈ filters, filterOutcome (actionFilterApplies env filters m.1) =
      filterVerdict env m :=
    fun m hm => filterOutcome_applies hinst (getMember_of_mem hnodup hm)
  refine filterOutcome_any ?_ (hsome.imp_right ?_)
  · intro key hkey
    obtain ⟨m, hm, rfl⟩ := List.mem_map.1 hkey
    rw [hverdict m hm]
    exact hall m hm
  · rintro ⟨m, hm, houtcome⟩
    exact ⟨m.1, List.mem_map_of_mem hm, (hverdict m hm).trans houtcome⟩

/-- What the loop comes to in any order, from what the filters say in the order of the given ones or
in another. -/
theorem loopOutcome_of_verdicts {outcome : FilterOutcome}
    (hinst : env.getFlatpakInstallation = .ok ()) (hnodup : (filters.map Prod.fst).Nodup)
    (hall : ∀ m ∈ filters, ∀ m', ReordersFilter m m' →
      filterVerdict env m' = .kept ∨ filterVerdict env m' = outcome)
    (hsome : outcome = .kept ∨ ∃ m ∈ filters, ∀ m', ReordersFilter m m' →
      filterVerdict env m' = outcome) (hreorders : Reorders filters filters') :
    loopOutcome env filters' = outcome := by
  refine loopOutcome_eq hinst (hreorders.keys_perm.nodup_iff.1 hnodup) ?_ (hsome.imp_right ?_)
  · intro m' hm'
    obtain ⟨m, hm, hrel⟩ := hreorders.exists_left hm'
    exact hall m hm m' hrel
  · rintro ⟨m, hm, houtcome⟩
    obtain ⟨m', hm', hrel⟩ := hreorders.exists_right hm
    exact ⟨m', hm', houtcome m' hrel⟩

/-- With an unknown filter, where all others keep the entry, this is skipped. -/
theorem DecidesOneWay.skipped (h : DecidesOneWay env filters)
    (hinst : env.getFlatpakInstallation = .ok ()) (hnodup : (filters.map Prod.fst).Nodup)
    (hm : m ∈ filters) (hunknown : IsUnknownFilter env m) (hreorders : Reorders filters filters') :
    loopOutcome env filters' = .skipped := by
  refine loopOutcome_of_verdicts hinst hnodup ?_ (.inr ⟨m, hm, fun m' hrel =>
    verdict_of_unknown hinst (hrel.isUnknown.1 hunknown)⟩) hreorders
  intro n hn n' hrel
  obtain ⟨hmalformed, hout⟩ := h.unknown m hm hunknown n hn
  by_cases hunknown' : IsUnknownFilter env n'
  · exact .inr (verdict_of_unknown hinst hunknown')
  · rw [hrel.isMalformed] at hmalformed
    rw [hrel.filtersOut] at hout
    exact .inl (verdict_of_none hinst hunknown' hmalformed hout)

/-- With a malformed filter, where the others keep the entry or are malformed too, it is
malformed. -/
theorem DecidesOneWay.malformed_of_known (h : DecidesOneWay env filters)
    (hinst : env.getFlatpakInstallation = .ok ()) (hnodup : (filters.map Prod.fst).Nodup)
    (hknown : ∀ m ∈ filters, ¬ IsUnknownFilter env m) (hm : m ∈ filters)
    (hmalformed : IsMalformedFilter env m) (hreorders : Reorders filters filters') :
    loopOutcome env filters' = .malformed := by
  refine loopOutcome_of_verdicts hinst hnodup ?_ (.inr ?_) hreorders
  · intro n hn n' hrel
    have hunknown : ¬ IsUnknownFilter env n' := mt hrel.isUnknown.2 (hknown n hn)
    have hout : ¬ FiltersOut env n' := mt hrel.filtersOut.2 (h.malformed m hm hmalformed n hn)
    by_cases hmalformed' : IsMalformedFilter env n'
    · by_cases hmatch : HasMatch env n'
      · have hnegated : ¬ IsNegated env n' := fun hnegated =>
          h.negated n hn (hrel.isMalformed.2 hmalformed') (hrel.hasMatch.2 hmatch)
            (hrel.isNegated.2 hnegated)
        exact verdict_of_mixed hinst hmatch hnegated
      · exact .inr (verdict_of_malformed hinst hmalformed' hmatch)
    · exact .inl (verdict_of_none hinst hunknown hmalformed' hout)
  · -- a filter without a match is malformed in any order
    obtain ⟨n, hn, hnmalformed, hmatch⟩ : ∃ n ∈ filters, IsMalformedFilter env n ∧
        ¬ HasMatch env n := by
      by_cases hmatch : HasMatch env m
      · exact h.positive m hm hmalformed hmatch
      · exact ⟨m, hm, hmalformed, hmatch⟩
    refine ⟨n, hn, fun n' hrel => ?_⟩
    rw [hrel.hasMatch] at hmatch
    exact verdict_of_malformed hinst (hrel.isMalformed.1 hnmalformed) hmatch

/-- Filters that all are arrays of texts filter the entry out in any order, or in none. -/
theorem exists_outcome_of_arrays (hinst : env.getFlatpakInstallation = .ok ())
    (hnodup : (filters.map Prod.fst).Nodup) (hknown : ∀ m ∈ filters, ¬ IsUnknownFilter env m)
    (hwell : ∀ m ∈ filters, ¬ IsMalformedFilter env m) :
    ∃ outcome, ∀ filters', Reorders filters filters' → loopOutcome env filters' = outcome := by
  have hkept : ∀ m ∈ filters, ∀ m', ReordersFilter m m' → ¬ FiltersOut env m' →
      filterVerdict env m' = .kept := fun m hm m' hrel =>
    verdict_of_none hinst (mt hrel.isUnknown.2 (hknown m hm)) (mt hrel.isMalformed.2 (hwell m hm))
  by_cases hout : ∃ m ∈ filters, FiltersOut env m
  · obtain ⟨w, hw, hwout⟩ := hout
    refine ⟨.filteredOut, fun filters' => loopOutcome_of_verdicts hinst hnodup ?_ (.inr ⟨w, hw,
      fun m' hrel => verdict_of_filtersOut hinst (hrel.filtersOut.1 hwout)⟩)⟩
    intro m hm m' hrel
    by_cases hout' : FiltersOut env m'
    · exact .inr (verdict_of_filtersOut hinst hout')
    · exact .inl (hkept m hm m' hrel hout')
  · refine ⟨.kept, fun filters' => loopOutcome_of_verdicts hinst hnodup ?_ (.inl rfl)⟩
    intro m hm m' hrel
    exact .inl (hkept m hm m' hrel fun hout' => hout ⟨m, hm, hrel.filtersOut.2 hout'⟩)

/-- Filters that decide one way: unknown, malformed, or filtering the entry out. -/
theorem DecidesOneWay.exists_outcome (h : DecidesOneWay env filters)
    (hinst : env.getFlatpakInstallation = .ok ()) (hnodup : (filters.map Prod.fst).Nodup) :
    ∃ outcome, (∀ filters', Reorders filters filters' → loopOutcome env filters' = outcome) ∧
      ((∃ m ∈ filters, IsMalformedFilter env m) → outcome = .malformed) ∧
      ((∃ m ∈ filters, IsUnknownFilter env m) → outcome = .skipped) := by
  by_cases hunknown : ∃ m ∈ filters, IsUnknownFilter env m
  · obtain ⟨u, hu, hunk⟩ := hunknown
    refine ⟨.skipped, fun _ => h.skipped hinst hnodup hu hunk, ?_, fun _ => rfl⟩
    rintro ⟨m, hm, hmalformed⟩
    exact absurd hmalformed (h.unknown u hu hunk m hm).1
  have hknown : ∀ m ∈ filters, ¬ IsUnknownFilter env m := fun m hm hunk => hunknown ⟨m, hm, hunk⟩
  by_cases hmalformed : ∃ m ∈ filters, IsMalformedFilter env m
  · obtain ⟨w, hw, hmal⟩ := hmalformed
    exact ⟨.malformed, fun _ => h.malformed_of_known hinst hnodup hknown hw hmal, fun _ => rfl,
      fun hunk => absurd hunk hunknown⟩
  · have hwell : ∀ m ∈ filters, ¬ IsMalformedFilter env m :=
      fun m hm hmal => hmalformed ⟨m, hm, hmal⟩
    obtain ⟨outcome, hloop⟩ := exists_outcome_of_arrays hinst hnodup hknown hwell
    exact ⟨outcome, hloop, fun hmal => absurd hmal hmalformed, fun hunk => absurd hunk hunknown⟩

/-- If the order does not matter, what one filter may say the loop comes to. -/
theorem loopOutcome_eq_verdict (hinst : env.getFlatpakInstallation = .ok ())
    (hsame : ∀ filters', Reorders filters filters' →
      loopOutcome env filters' = loopOutcome env filters)
    (hm : m ∈ filters) (hrel : ReordersFilter m m') (hverdict : filterVerdict env m' ≠ .kept) :
    loopOutcome env filters = filterVerdict env m' := by
  obtain ⟨rest, hreorders⟩ := exists_reorders_cons hm hrel
  have hfirst : filterOutcome (actionFilterApplies env (m' :: rest) m'.1) = filterVerdict env m' :=
    filterOutcome_applies hinst (by simp [JsonObject.getMember])
  -- put in front, it decides
  rw [← hsame _ hreorders, loopOutcome, List.map_cons, filterOutcome_any_cons, hfirst]
  rw [hfirst]
  exact hverdict

/-- Where all reorderings end alike, the filters decide one way. -/
theorem decidesOneWay_of_same (hinst : env.getFlatpakInstallation = .ok ())
    (hnodup : (filters.map Prod.fst).Nodup)
    (hsame : ∀ filters', Reorders filters filters' →
      loopOutcome env filters' = loopOutcome env filters) : DecidesOneWay env filters := by
  -- each kind of filter says what the outcome is, so that no two kinds can decide
  have hskipped : ∀ m ∈ filters, IsUnknownFilter env m → loopOutcome env filters = .skipped := by
    intro m hm hunk
    have hverdict := verdict_of_unknown hinst hunk
    rw [loopOutcome_eq_verdict hinst hsame hm (.refl m) (by simp [hverdict]), hverdict]
  have hmalformed : ∀ m ∈ filters, IsMalformedFilter env m →
      loopOutcome env filters = .malformed := by
    intro m hm hmal
    obtain ⟨m', hrel, hverdict⟩ := exists_malformed hinst hmal
    rw [loopOutcome_eq_verdict hinst hsame hm hrel (by simp [hverdict]), hverdict]
  have hout : ∀ m ∈ filters, FiltersOut env m → loopOutcome env filters = .filteredOut := by
    intro m hm hout
    have hverdict := verdict_of_filtersOut hinst hout
    rw [loopOutcome_eq_verdict hinst hsame hm (.refl m) (by simp [hverdict]), hverdict]
  have hnegated : ∀ m ∈ filters, IsMalformedFilter env m → HasMatch env m → ¬ IsNegated env m := by
    intro m hm hmal hmatch hneg
    obtain ⟨m', hrel, hverdict, -⟩ := exists_match hinst hmatch
    have hloop := loopOutcome_eq_verdict hinst hsame hm hrel (by simp [hverdict hneg])
    rw [hmalformed m hm hmal, hverdict hneg] at hloop
    exact FilterOutcome.noConfusion hloop
  refine ⟨hnegated, ?_, ?_, ?_⟩
  · intro w hw hmal hmatch
    by_contra hnone
    -- with every match in front, nothing decides
    have hkept : ∀ m ∈ filters, ∃ m', ReordersFilter m m' ∧ filterVerdict env m' = .kept := by
      intro m hm
      by_cases hmmal : IsMalformedFilter env m
      · have hmmatch : HasMatch env m := by
          by_contra hmmatch
          exact hnone ⟨m, hm, hmmal, hmmatch⟩
        obtain ⟨m', hrel, -, hverdict⟩ := exists_match hinst hmmatch
        exact ⟨m', hrel, hverdict (hnegated m hm hmmal hmmatch)⟩
      · refine ⟨m, .refl m, verdict_of_none hinst (fun hunk => ?_) hmmal fun hmout => ?_⟩
        · exact FilterOutcome.noConfusion ((hskipped m hm hunk).symm.trans (hmalformed w hw hmal))
        · exact FilterOutcome.noConfusion ((hout m hm hmout).symm.trans (hmalformed w hw hmal))
    obtain ⟨filters', hreorders, hall⟩ := exists_reorders_forall hkept
    have hloop : loopOutcome env filters' = .kept :=
      loopOutcome_eq hinst (hreorders.keys_perm.nodup_iff.1 hnodup) (fun m hm => .inl (hall m hm))
        (.inl rfl)
    rw [hsame _ hreorders, hmalformed w hw hmal] at hloop
    exact FilterOutcome.noConfusion hloop
  · intro u hu hunk m hm
    constructor
    · intro hmal
      exact FilterOutcome.noConfusion ((hskipped u hu hunk).symm.trans (hmalformed m hm hmal))
    · intro hmout
      exact FilterOutcome.noConfusion ((hskipped u hu hunk).symm.trans (hout m hm hmout))
  · intro w hw hmal m hm hmout
    exact FilterOutcome.noConfusion ((hmalformed w hw hmal).symm.trans (hout m hm hmout))

/-! ### Entries -/

/-- The two pairs of keys are looked up among the members. -/
instance (filters : JsonObject) : Decidable (Contradictory filters) :=
  inferInstanceAs (Decidable (_ ∨ _))

/-- A member is found exactly if its key is there. -/
theorem isSome_getMember :
    (filters.getMember key).isSome = decide (key ∈ filters.map Prod.fst) := by
  rw [JsonObject.getMember, Option.isSome_map, Bool.eq_iff_iff, List.find?_isSome]
  simp

/-- A member that is replaced is found with its new contents. -/
theorem getMember_setMember {node node' : JsonNode} (h : object.getMember key = some node) :
    (object.setMember key node').getMember key = some node' := by
  have hkeys : ∀ m : String × JsonNode,
      decide ((if m.1 = key then (key, node') else m).1 = key) = decide (m.1 = key) := by
    intro m
    split
    · next heq => simp [heq]
    · rfl
  rw [JsonObject.getMember, Option.map_eq_some_iff] at h
  obtain ⟨m, hfind, -⟩ := h
  have hm : m.1 = key := by simpa using List.find?_some hfind
  rw [JsonObject.getMember, JsonObject.setMember, List.find?_map, Function.comp_def]
  simp only [hkeys, hfind, Option.map_some, hm, if_true]

/-- What evaluating the filters of an entry comes to. -/
theorem filterOutcome_of_filters (hget : object.getMember "filters" = some (.object filters)) :
    filterOutcome (actionNodeShouldBeFilteredOut env object) =
      if Contradictory filters then .malformed else loopOutcome env filters := by
  simp only [actionNodeShouldBeFilteredOut, hget, isSome_getMember, Bool.or_eq_true,
    Bool.and_eq_true, decide_eq_true_eq]
  split
  · next h =>
      have hcontra : Contradictory filters := h
      rw [if_pos hcontra, filterOutcome_malformed]
  · next h =>
      have hcontra : ¬ Contradictory filters := h
      rw [if_neg hcontra, loopOutcome]

/-- Without an installation, the first filter fails. -/
theorem loopOutcome_of_failed {e : GError} (hinst : env.getFlatpakInstallation = .error e) :
    loopOutcome env filters =
      if filters.map Prod.fst = [] then .kept else filterOutcome (.error e) := by
  have herr : ∀ key, actionFilterApplies env filters key = .error e := fun key => by
    rw [actionFilterApplies, hinst]
    rfl
  rw [loopOutcome]
  generalize filters.map Prod.fst = keys
  rcases keys with _ | ⟨key, keys⟩
  · rfl
  · rw [anyFilterApplies, herr, if_neg (List.cons_ne_nil key keys)]

/-- **When the order does not matter**: exactly if the filters that decide do so in one way. -/
theorem filtersUnordered_iff (env : ParserEnvironment) (object filters : JsonObject)
    (hget : object.getMember "filters" = some (.object filters))
    (hnodup : (filters.map Prod.fst).Nodup) :
    FiltersUnordered env object filters ↔
      (env.getFlatpakInstallation = .ok () → ¬ Contradictory filters →
        DecidesOneWay env filters) := by
  constructor
  · intro h hinst hcontra
    refine decidesOneWay_of_same hinst hnodup fun filters' hreorders => ?_
    have hsame := h.same filters' hreorders
    rw [filterOutcome_of_filters (getMember_setMember hget), filterOutcome_of_filters hget,
      if_neg hcontra, if_neg (mt hreorders.contradictory.2 hcontra)] at hsame
    exact hsame
  · intro h
    refine ⟨fun filters' hreorders => ?_, fun hinst hmal => ?_, fun hinst hcontra hunk => ?_⟩
    -- filters that contradict each other are refused before the loop
    · rw [filterOutcome_of_filters (getMember_setMember hget), filterOutcome_of_filters hget]
      simp only [← hreorders.contradictory]
      split_ifs with hcontra
      · rfl
      cases hinst : env.getFlatpakInstallation with
      | error e =>
          have hnil : filters'.map Prod.fst = [] ↔ filters.map Prod.fst = [] :=
            ⟨fun hnil => (hnil ▸ hreorders.keys_perm).eq_nil,
              fun hnil => (hnil ▸ hreorders.keys_perm.symm).eq_nil⟩
          simp only [loopOutcome_of_failed hinst, hnil]
      | ok _ =>
          obtain ⟨outcome, hloop, -⟩ := (h hinst hcontra).exists_outcome hinst hnodup
          rw [hloop _ hreorders, hloop _ (.refl filters)]
    · rw [filterOutcome_of_filters hget]
      split_ifs with hcontra
      · rfl
      obtain ⟨outcome, hloop, hmalformed, -⟩ := (h hinst hcontra).exists_outcome hinst hnodup
      rw [hloop _ (.refl filters), hmalformed hmal]
    · obtain ⟨outcome, hloop, -, hunknown⟩ := (h hinst hcontra).exists_outcome hinst hnodup
      rw [filterOutcome_of_filters hget, if_neg hcontra, hloop _ (.refl filters), hunknown hunk]

/-- An entry with filters. -/
def filtersNode (filters : JsonObject) : JsonObject := [("filters", .object filters)]

/-- A single filter with an array of texts decides in any order. -/
theorem filtersUnordered_locale :
    FiltersUnordered plainEnvironment
      (filtersNode [("locale", .array [.string "en", .string "fr"])])
      [("locale", .array [.string "en", .string "fr"])] := by
  refine (filtersUnordered_iff _ _ _ rfl (by simp)).2 fun _ _ => ?_
  have hwell : ¬ IsMalformedFilter plainEnvironment
      ("locale", .array [.string "en", .string "fr"]) := by
    rintro ⟨-, h⟩
    simpa [HasNonString] using h _ rfl
  have hknown : ¬ IsUnknownFilter plainEnvironment
      ("locale", .array [.string "en", .string "fr"]) := by
    simp [IsUnknownFilter, knownFilter, plainEnvironment]
  constructor
  · exact List.forall_mem_singleton.2 fun h => absurd h hwell
  · exact List.forall_mem_singleton.2 fun h => absurd h hwell
  · exact List.forall_mem_singleton.2 fun h => absurd h hknown
  · exact List.forall_mem_singleton.2 fun h => absurd h hwell

/-- A number behind the architecture is not seen, and in front of it has the entry refused. -/
theorem not_filtersUnordered_mixed :
    ¬ FiltersUnordered plainEnvironment
        (filtersNode [("~architecture", .array [.string "x86_64", .int 5])])
        [("~architecture", .array [.string "x86_64", .int 5])] := by
  intro h
  have hswap : Reorders [("~architecture", .array [.string "x86_64", .int 5])]
      [("~architecture", .array [.int 5, .string "x86_64"])] :=
    ⟨_, .cons (.array (.swap _ _ _)) .nil, .refl _⟩
  have hsame := h.same _ hswap
  revert hsame
  decide +kernel

end Euu
