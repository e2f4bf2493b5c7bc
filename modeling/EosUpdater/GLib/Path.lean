import Mathlib.Data.List.DropRight
import Mathlib.Data.List.Infix

/-!
# Paths and the files they lead to

A path is a text, cut into names at its slashes (`names`). `buildFilename` joins texts to a path,
and `canonicalize` follows the names of an absolute path on paper: `.` stays, `..` goes up.

A `FileSystem` says what is at each place, without symbolic links. Opening a path follows its names
from directory to directory (`FileSystem.walk`), so it can fail where the canonical path has a file:
`..` leaves a directory that has to exist, and nothing may follow the name of a regular file, not
even a slash. Where the names have no `..`, what is opened lies strictly below the directory that
they start from (`FileSystem.openFile_below`), and whether a regular file can be opened by them
depends on nothing else in the file system (`FileSystem.walk_isSome_congr`).
-/

namespace GLib

/-- Text, as its characters. -/
abbrev Text := List Char

/-! ### Names -/

/-- The names between the slashes of a path. -/
def names (path : Text) : List Text := (path.splitOnP (· = '/')).filter (· ≠ [])

/-- The name of the same directory. -/
abbrev dot : Text := ['.']

/-- The name of the directory above. -/
abbrev dotDot : Text := ['.', '.']

variable {path a b : Text}

@[simp] theorem names_nil : names [] = [] := by simp [names]

theorem names_append_slash (a b : Text) : names (a ++ '/' :: b) = names a ++ names b := by
  rw [names, List.splitOnP_append_cons a b (by simp), List.filter_append]
  rfl

@[simp] theorem names_slash (b : Text) : names ('/' :: b) = names b := by
  simpa using names_append_slash [] b

theorem names_slashes_append (h : ∀ c ∈ a, c = '/') (b : Text) : names (a ++ b) = names b := by
  induction a with
  | nil => rfl
  | cons c a ih =>
    rw [List.forall_mem_cons] at h
    rw [h.1, List.cons_append, names_slash, ih h.2]

theorem names_slashes (h : ∀ c ∈ a, c = '/') : names a = [] := by
  simpa using names_slashes_append h []

theorem names_append_slashes (a : Text) (h : ∀ c ∈ b, c = '/') : names (a ++ b) = names a := by
  cases b with
  | nil => rw [List.append_nil]
  | cons c b =>
    rw [List.forall_mem_cons] at h
    rw [h.1, names_append_slash, names_slashes h.2, List.append_nil]

/-- A name is a part of the path. -/
theorem infix_of_mem_names {name : Text} (h : name ∈ names path) : name <:+: path := by
  have hsplit : name ∈ path.splitOn '/' := (List.mem_filter.1 h).1
  obtain ⟨before, after, heq⟩ := List.append_of_mem hsplit
  have hjoin : ['/'].intercalate (path.splitOn '/') = path := List.intercalate_splitOn _
  rw [← hjoin, heq]
  clear hjoin heq hsplit h
  -- the segments in front only make the path longer
  induction before with
  | nil =>
    rcases after with _ | ⟨next, after⟩
    · simp
    · rw [List.nil_append, List.intercalate_cons_cons, List.append_assoc]
      exact (List.prefix_append _ _).isInfix
  | cons first before ih =>
    rw [List.cons_append, List.intercalate_cons_of_ne_nil (by simp)]
    exact ih.trans (List.suffix_append _ _).isInfix

/-! ### Joining -/

/-- A text without the slashes around it. -/
def strip (element : Text) : Text := (element.dropWhile (· = '/')).rdropWhile (· = '/')

/-- `g_build_filename`: the slashes in front and at the end stay, the others are single. -/
def buildFilename (elements : List Text) : Text :=
  match elements.filter (· ≠ []) with
  | [] => []
  | [element] => element
  | first :: second :: rest =>
      first.takeWhile (· = '/')
        ++ ['/'].intercalate (((first :: second :: rest).map strip).filter (· ≠ []))
        ++ ((second :: rest).getLastD []).rtakeWhile (· = '/')

theorem names_strip (element : Text) : names (strip element) = names element := by
  have hdrop : names (element.dropWhile (· = '/')) = names element := by
    conv_rhs => rw [← List.takeWhile_append_dropWhile (p := (· = '/')) (l := element)]
    exact (names_slashes_append (fun c hc => by simpa using List.mem_takeWhile_imp hc) _).symm
  rw [← hdrop, strip]
  conv_rhs => rw [← List.rdropWhile_append_rtakeWhile (p := (· = '/'))
    (l := element.dropWhile (· = '/'))]
  exact (names_append_slashes _ fun c hc => by simpa using List.mem_rtakeWhile_imp hc).symm

theorem names_intercalate (texts : List Text) :
    names (['/'].intercalate texts) = texts.flatMap names := by
  induction texts with
  | nil => simp
  | cons text texts ih =>
    cases texts with
    | nil => simp
    | cons next texts =>
      rw [List.intercalate_cons_cons, List.append_assoc, List.singleton_append,
        names_append_slash, ih, List.flatMap_cons]
      rfl

/-- Empty elements have no names. -/
theorem flatMap_names_filter (texts : List Text) :
    (texts.filter (· ≠ [])).flatMap names = texts.flatMap names := by
  induction texts with
  | nil => rfl
  | cons text texts ih =>
    by_cases h : text = []
    · simpa [h] using ih
    · simpa [h] using ih

/-- The names of a joined path are those of its elements. -/
theorem names_buildFilename (elements : List Text) :
    names (buildFilename elements) = elements.flatMap names := by
  rw [← flatMap_names_filter elements, buildFilename]
  split
  · next heq => rw [heq]; simp
  · next element heq => rw [heq]; simp
  · next first second rest heq =>
    rw [heq, names_append_slashes _ fun c hc => by simpa using List.mem_rtakeWhile_imp hc,
      names_slashes_append fun c hc => by simpa using List.mem_takeWhile_imp hc,
      names_intercalate, flatMap_names_filter, List.flatMap_map]
    exact List.flatMap_congr fun element _ => names_strip element

/-- Whether a path ends in a slash. -/
def endsInSlash (path : Text) : Bool := path.getLast? = some '/'

theorem eq_slash_of_names_eq_nil (h : names path = []) : ∀ c ∈ path, c = '/' := by
  have hsplit : ∀ name ∈ path.splitOn '/', name = [] := fun name hmem => by
    by_contra hne
    have hname : name ∈ names path := List.mem_filter.2 ⟨hmem, by simpa using hne⟩
    rw [h] at hname
    exact List.not_mem_nil hname
  rw [← (List.intercalate_splitOn '/' : ['/'].intercalate (path.splitOn '/') = path)]
  generalize path.splitOn '/' = parts at hsplit
  -- what is joined is empty, so only the separators are left
  induction parts with
  | nil => simp
  | cons part parts ih =>
    rw [List.forall_mem_cons] at hsplit
    rcases eq_or_ne parts [] with rfl | hne
    · simp [hsplit.1]
    · rw [List.intercalate_cons_of_ne_nil hne, hsplit.1, List.nil_append]
      exact List.forall_mem_cons.2 ⟨rfl, ih hsplit.2⟩

theorem endsInSlash_of_names_eq_nil (hne : path ≠ []) (h : names path = []) :
    endsInSlash path = true := by
  have hlast := eq_slash_of_names_eq_nil h _ (List.getLast_mem hne)
  simp [endsInSlash, List.getLast?_eq_some_getLast hne, hlast]

theorem endsInSlash_concat (path : Text) (c : Char) :
    endsInSlash (path ++ [c]) = decide (c = '/') := by
  simp [endsInSlash]

theorem endsInSlash_append_of_ne_nil (a : Text) (hne : b ≠ []) :
    endsInSlash (a ++ b) = endsInSlash b := by
  rw [endsInSlash, List.getLast?_append_of_ne_nil a hne, endsInSlash]

/-- A path that ends in a slash, continued by no names. -/
theorem endsInSlash_append (ha : endsInSlash a = true) (hb : names b = []) :
    endsInSlash (a ++ b) = true := by
  rcases eq_or_ne b [] with rfl | hne
  · rwa [List.append_nil]
  · rw [endsInSlash_append_of_ne_nil a hne, endsInSlash_of_names_eq_nil hne hb]

theorem names_append (ha : endsInSlash a = true) (b : Text) :
    names (a ++ b) = names a ++ names b := by
  obtain ⟨front, rfl⟩ := List.getLast?_eq_some_iff.1 (of_decide_eq_true ha)
  rw [List.append_assoc, List.singleton_append, names_append_slash, names_append_slash, names_nil,
    List.append_nil]

/-- The last name of a path, by a text at its end. -/
theorem names_append_eq_concat (a : Text) (hb : '/' ∉ b) (hne : b ≠ []) :
    ∃ before name, names (a ++ b) = before ++ [name ++ b] := by
  -- the last segment grows to the left until there is a slash
  have hsplit : ∃ before name, (a ++ b).splitOnP (· = '/') = before ++ [name ++ b] := by
    induction a with
    | nil =>
      refine ⟨[], [], List.splitOnP_eq_singleton fun c hc => ?_⟩
      exact decide_eq_false fun heq => hb (heq ▸ hc)
    | cons c a ih =>
      obtain ⟨before, name, heq⟩ := ih
      rw [List.cons_append, List.splitOnP_cons_eq_if_modifyHead, heq]
      split
      · exact ⟨[] :: before, name, rfl⟩
      · cases before with
        | nil => exact ⟨[], c :: name, rfl⟩
        | cons first before => exact ⟨(c :: first) :: before, name, rfl⟩
  obtain ⟨before, name, heq⟩ := hsplit
  refine ⟨before.filter (· ≠ []), name, ?_⟩
  rw [names, heq, List.filter_append]
  simp [hne]

theorem getLast?_intercalate_concat (texts : List Text) {last : Text} (hne : last ≠ []) :
    (['/'].intercalate (texts ++ [last])).getLast? = last.getLast? := by
  induction texts with
  | nil => simp
  | cons text texts ih =>
    rw [List.cons_append, List.intercalate_cons_of_ne_nil (by simp),
      List.getLast?_append_of_ne_nil, ih]
    intro hnil
    rw [hnil] at ih
    exact hne (List.getLast?_eq_none_iff.1 ih.symm)

/-- A joined path ends in a slash if its last element does. -/
theorem endsInSlash_buildFilename (elements : List Text) {last : Text} (hne : last ≠ []) :
    endsInSlash (buildFilename (elements ++ [last])) = endsInSlash last := by
  obtain ⟨body, c, rfl⟩ : ∃ body c, last = body ++ [c] :=
    ⟨_, _, (List.dropLast_append_getLast hne).symm⟩
  have hfilter : (elements ++ [body ++ [c]]).filter (· ≠ []) =
      elements.filter (· ≠ []) ++ [body ++ [c]] := by
    simp [List.filter_append]
  rw [buildFilename, hfilter]
  rcases elements.filter (· ≠ []) with _ | ⟨first, rest⟩
  · rfl
  · obtain ⟨second, more, hmore⟩ : ∃ second more, rest ++ [body ++ [c]] = second :: more :=
      List.exists_cons_of_ne_nil (by simp)
    have hlast : (second :: more).getLastD [] = body ++ [c] := by
      rw [← hmore, List.getLastD_concat]
    simp only [List.cons_append, hmore, hlast]
    -- the slashes at the end are put back, and without one the last element keeps its end
    by_cases hc : c = '/'
    · rw [List.rtakeWhile_concat_pos _ _ _ (by simpa using hc), ← List.append_assoc,
        endsInSlash_concat, endsInSlash_concat]
    · have hdrop : (body ++ [c]).dropWhile (· = '/') = body.dropWhile (· = '/') ++ [c] := by
        rw [List.dropWhile_append]
        split
        · next h => rw [List.isEmpty_iff.1 h]; simp [hc]
        · rfl
      have hstrip : strip (body ++ [c]) = body.dropWhile (· = '/') ++ [c] := by
        rw [strip, hdrop]
        exact List.rdropWhile_concat_neg _ _ _ (by simpa using hc)
      rw [List.rtakeWhile_concat_neg _ _ _ (by simpa using hc), List.append_nil, ← hmore,
        ← List.cons_append, List.map_append, List.filter_append]
      simp [endsInSlash, hstrip, getLast?_intercalate_concat]

/-! ### Following names -/

/-- Where a name leads from a directory. -/
def follow (dir : List Text) (name : Text) : List Text :=
  if name = dot then dir else if name = dotDot then dir.dropLast else dir ++ [name]

/-- `g_canonicalize_filename`: the names from the root directory down to a path. -/
def canonicalize (path : Text) : List Text := (names path).foldl follow []

/-- The names that lead down. -/
def descent (steps : List Text) : List Text := steps.filter (· ≠ dot)

variable {dir steps : List Text}

/-- Without `..`, following steps descends from a directory. -/
theorem foldl_follow (dir : List Text) (h : dotDot ∉ steps) :
    steps.foldl follow dir = dir ++ descent steps := by
  induction steps generalizing dir with
  | nil => simp [descent]
  | cons name steps ih =>
    rw [List.mem_cons, not_or] at h
    rw [List.foldl_cons, ih _ h.2]
    by_cases hdot : name = dot
    · simp [follow, descent, hdot]
    · simp [follow, descent, hdot, Ne.symm h.1]

/-- A built path is canonicalised by following its elements from the root. -/
theorem canonicalize_buildFilename (root : Text) (elements : List Text) :
    canonicalize (buildFilename (root :: elements)) =
      (elements.flatMap names).foldl follow (canonicalize root) := by
  rw [canonicalize, names_buildFilename, List.flatMap_cons, List.foldl_append]
  rfl

/-- A path with no `..` in it, below a root. -/
theorem canonicalize_buildFilename_of_notMem (root : Text) {elements : List Text}
    (h : dotDot ∉ elements.flatMap names) :
    canonicalize (buildFilename (root :: elements)) =
      canonicalize root ++ descent (elements.flatMap names) := by
  rw [canonicalize_buildFilename, foldl_follow _ h]

/-- `g_file_has_prefix` of canonical paths. The root directory has itself as a prefix. -/
def hasPrefix (path root : List Text) : Prop := root <+: path ∧ (root = path → root = [])

/-- A prefix is found by comparing names. -/
instance (path root : List Text) : Decidable (hasPrefix path root) :=
  inferInstanceAs (Decidable (_ ∧ _))

/-! ### Files -/

/-- What is at a path: a directory, a regular file, or a file of another kind. -/
inductive Node (α : Type*)
  | directory
  | regular (contents : α)
  | special

/-- The files at the paths of a file system without symbolic links. -/
structure FileSystem (α : Type*) where
  node : List Text → Option (Node α)
  node_nil : node [] = some .directory
  /-- Every file is in a directory. -/
  node_parent : ∀ path name, (node (path ++ [name])).isSome → node path = some .directory

namespace FileSystem

variable {α : Type*}

/-- Whether there is a directory at a path. -/
def isDirectory (fs : FileSystem α) (path : List Text) : Bool :=
  match fs.node path with
  | some .directory => true
  | _ => false

/-- The contents of the regular file at a path. -/
def regular (fs : FileSystem α) (path : List Text) : Option α :=
  match fs.node path with
  | some (.regular contents) => some contents
  | _ => none

/-- Follow names from a directory. Each is looked up in a directory. -/
def walk (fs : FileSystem α) (dir : List Text) : List Text → Option (List Text)
  | [] => some dir
  | name :: steps => if fs.isDirectory dir then fs.walk (follow dir name) steps else none

/-- The regular file that `open` finds at an absolute path. -/
def openFile (fs : FileSystem α) (path : Text) : Option α :=
  if endsInSlash path then none else (fs.walk [] (names path)).bind fs.regular

variable {fs : FileSystem α} {below : List Text}

/-- A directory is reported as one. -/
theorem isDirectory_of_node (h : fs.node dir = some .directory) : fs.isDirectory dir = true := by
  rw [isDirectory, h]

/-- A directory is not a regular file. -/
theorem regular_of_isDirectory (h : fs.isDirectory dir = true) : fs.regular dir = none := by
  rw [isDirectory] at h
  rw [regular]
  split at h
  · next heq => rw [heq]
  · cases h

/-- What has a file below it is a directory. -/
theorem isDirectory_of_below (h : (fs.node (dir ++ below)).isSome) (hne : below ≠ []) :
    fs.isDirectory dir = true := by
  induction below using List.reverseRecOn with
  | nil => exact absurd rfl hne
  | append_singleton below name ih =>
    have hparent : fs.node (dir ++ below) = some .directory :=
      fs.node_parent _ name (by rwa [List.append_assoc])
    by_cases hbelow : below = []
    · rw [hbelow, List.append_nil] at hparent
      exact isDirectory_of_node hparent
    · exact ih (by rw [hparent]; rfl) hbelow

/-- A regular file exists. -/
theorem isSome_node_of_regular (h : (fs.regular dir).isSome) : (fs.node dir).isSome := by
  rw [regular] at h
  split at h
  · next heq => rw [heq]; rfl
  · cases h

theorem walk_append (fs : FileSystem α) (dir steps more : List Text) :
    fs.walk dir (steps ++ more) = (fs.walk dir steps).bind (fs.walk · more) := by
  induction steps generalizing dir with
  | nil => rfl
  | cons name steps ih =>
    rw [List.cons_append, walk, walk]
    split
    · exact ih _
    · rfl

/-- A walk that succeeds ends where following its steps leads. -/
theorem eq_foldl_of_walk {reached : List Text} (h : fs.walk dir steps = some reached) :
    reached = steps.foldl follow dir := by
  induction steps generalizing dir with
  | nil => exact (Option.some.inj h).symm
  | cons name steps ih =>
    rw [walk] at h
    split at h
    · exact ih h
    · cases h

/-- What a walk without `..` has reached, if it is a regular file, is below where it started. -/
theorem descent_ne_nil_of_walk {reached : List Text} (h : fs.walk dir steps = some reached)
    (hregular : (fs.regular reached).isSome) (hdots : dotDot ∉ steps) (hne : steps ≠ []) :
    reached = dir ++ descent steps ∧ descent steps ≠ [] := by
  have heq : reached = dir ++ descent steps := by rw [eq_foldl_of_walk h, foldl_follow dir hdots]
  refine ⟨heq, fun hnil => ?_⟩
  rw [heq, hnil, List.append_nil] at hregular
  -- the first of the names was looked up in a directory, which is no regular file
  obtain ⟨name, rest, rfl⟩ := List.exists_cons_of_ne_nil hne
  rw [walk] at h
  split at h
  · next hdir => rw [regular_of_isDirectory hdir] at hregular; cases hregular
  · cases h

/-- Where both of two file systems have a regular file at the end of a walk without `..`, the walk
reaches it in both or in neither. -/
theorem walk_isSome_congr {fs' : FileSystem α} {dir' : List Text} (hdots : dotDot ∉ steps)
    (hregular : (fs.regular (dir ++ descent steps)).isSome)
    (hregular' : (fs'.regular (dir' ++ descent steps)).isSome) :
    (fs.walk dir steps).isSome = (fs'.walk dir' steps).isSome := by
  induction steps generalizing dir dir' with
  | nil => rfl
  | cons name steps ih =>
    have hrest : dotDot ∉ steps := fun hmem => hdots (List.mem_cons_of_mem name hmem)
    rw [walk, walk]
    by_cases hnil : descent (name :: steps) = []
    · -- the walk goes on from the regular file itself
      rw [hnil, List.append_nil] at hregular hregular'
      have hdir : fs.isDirectory dir ≠ true := fun h => by
        rw [regular_of_isDirectory h] at hregular; cases hregular
      have hdir' : fs'.isDirectory dir' ≠ true := fun h => by
        rw [regular_of_isDirectory h] at hregular'; cases hregular'
      rw [if_neg hdir, if_neg hdir']
    · rw [if_pos (isDirectory_of_below (isSome_node_of_regular hregular) hnil),
        if_pos (isDirectory_of_below (isSome_node_of_regular hregular') hnil)]
      have hstep : ∀ place : List Text,
          place ++ descent (name :: steps) = follow place name ++ descent steps := fun place => by
        rw [← foldl_follow place hdots, List.foldl_cons, foldl_follow _ hrest]
      exact ih hrest (hstep dir ▸ hregular) (hstep dir' ▸ hregular')

/-- A walk without `..` to a directory with something below it arrives. -/
theorem walk_of_isSome (hdots : dotDot ∉ steps)
    (h : (fs.node (dir ++ descent steps ++ below)).isSome) (hne : below ≠ []) :
    fs.walk dir steps = some (dir ++ descent steps) := by
  induction steps generalizing dir with
  | nil => simp [walk, descent]
  | cons name steps ih =>
    have hrest : dotDot ∉ steps := fun hmem => hdots (List.mem_cons_of_mem name hmem)
    have hdir : fs.isDirectory dir = true := by
      rw [List.append_assoc] at h
      exact isDirectory_of_below h (by simp [hne])
    have hstep : dir ++ descent (name :: steps) = follow dir name ++ descent steps := by
      rw [← foldl_follow dir hdots, List.foldl_cons, foldl_follow _ hrest]
    rw [walk, if_pos hdir, hstep]
    exact ih hrest (hstep ▸ h)

/-- A file that can be opened is the one at the canonical path. -/
theorem regular_of_openFile {contents : α} (h : fs.openFile path = some contents) :
    fs.regular (canonicalize path) = some contents := by
  rw [openFile] at h
  split at h
  · cases h
  · obtain ⟨reached, hwalk, hregular⟩ := Option.bind_eq_some_iff.1 h
    rw [canonicalize, ← eq_foldl_of_walk hwalk, hregular]

/-- Only a file strictly below a directory can be opened by names without `..` from there, if the
path ends in a slash where there are no names. -/
theorem openFile_below {contents : α} (elements front : List Text) {last : Text}
    (h : fs.openFile (buildFilename (elements ++ [last])) = some contents) (hlast : last ≠ [])
    (hnames : names last = front ++ steps) (hdots : dotDot ∉ steps)
    (hslash : steps = [] → endsInSlash last = true) :
    descent steps ≠ [] ∧ canonicalize (buildFilename (elements ++ [last])) =
      (elements.flatMap names ++ front).foldl follow [] ++ descent steps := by
  have hregular := regular_of_openFile h
  have hpath : names (buildFilename (elements ++ [last])) =
      elements.flatMap names ++ front ++ steps := by
    rw [names_buildFilename, List.flatMap_append, List.flatMap_singleton, hnames,
      List.append_assoc]
  rw [openFile, endsInSlash_buildFilename elements hlast] at h
  split at h
  · cases h
  · next hopen =>
    obtain ⟨reached, hwalk, hreached⟩ := Option.bind_eq_some_iff.1 h
    rw [hpath, walk_append] at hwalk
    obtain ⟨dir, hfront, hsteps⟩ := Option.bind_eq_some_iff.1 hwalk
    obtain ⟨heq, hne⟩ := descent_ne_nil_of_walk hsteps (by rw [hreached]; rfl) hdots
      fun hnil => hopen (hslash hnil)
    refine ⟨hne, ?_⟩
    rw [canonicalize, hpath, List.foldl_append, ← eq_foldl_of_walk hfront, foldl_follow dir hdots]

/-- Where two file systems have the same regular file at the end of two paths, opening it succeeds
alike if the walks succeed alike. -/
theorem openFile_congr {fs' : FileSystem α} {path' : Text}
    (hslash : endsInSlash path = endsInSlash path')
    (hwalk : (fs.walk [] (names path)).isSome = (fs'.walk [] (names path')).isSome)
    (hregular : (fs.regular (canonicalize path)).isSome)
    (heq : ∀ contents, fs.openFile path = some contents →
      fs'.regular (canonicalize path') = some contents) :
    fs.openFile path = fs'.openFile path' := by
  have hreached {fs : FileSystem α} {path : Text} {reached : List Text}
      (h : fs.walk [] (names path) = some reached) : reached = canonicalize path :=
    eq_foldl_of_walk h
  rw [openFile] at heq ⊢
  rw [openFile, ← hslash]
  split
  · rfl
  · next hopen =>
    -- both walks arrive, at the same regular file, or neither does
    rcases hwalked : fs.walk [] (names path) with _ | reached
    · rw [hwalked, Option.isSome_none, eq_comm, Option.isSome_eq_false_iff,
        Option.isNone_iff_eq_none] at hwalk
      rw [hwalk]
      rfl
    · rw [hwalked, Option.isSome_some, eq_comm, Option.isSome_iff_exists] at hwalk
      obtain ⟨reached', hwalked'⟩ := hwalk
      obtain ⟨contents, hcontents⟩ := Option.isSome_iff_exists.1 hregular
      rw [if_neg hopen, hwalked, hreached hwalked, Option.bind_some] at heq
      rw [hwalked', hreached hwalked, hreached hwalked', Option.bind_some, Option.bind_some,
        heq contents hcontents, hcontents]

/-- The file system with some entries, and the directories that they are in. -/
def ofEntries (entries : List (List Text × Node α)) : FileSystem α where
  node path :=
    if path = [] ∨ entries.any fun entry => path <+: entry.1 ∧ path ≠ entry.1 then some .directory
    else entries.lookup path
  node_nil := by simp
  node_parent path name h := by
    have habove : ∃ entry ∈ entries, path ++ [name] <+: entry.1 := by
      split at h
      · next hdir =>
        obtain ⟨entry, hmem, hbegins⟩ := List.any_eq_true.1 (hdir.resolve_left (by simp))
        exact ⟨entry, hmem, (of_decide_eq_true hbegins).1⟩
      · obtain ⟨entry, hmem, heq⟩ := List.lookup_isSome_iff.1 h
        exact ⟨entry, hmem, by rw [beq_iff_eq.1 heq]⟩
    obtain ⟨entry, hmem, hbegins⟩ := habove
    have hne : path ≠ entry.1 := by
      rintro rfl
      have hlength := hbegins.length_le
      rw [List.length_append, List.length_singleton] at hlength
      omega
    exact if_pos (.inr (List.any_eq_true.2
      ⟨entry, hmem, decide_eq_true ⟨(List.prefix_append _ _).trans hbegins, hne⟩⟩))

/-- Another entry changes nothing elsewhere, if there is no regular file above it. -/
theorem regular_ofEntries_cons {entries : List (List Text × Node α)} {place : List Text}
    {node : Node α} (hne : dir ≠ place)
    (habove : ∀ above ∈ place.inits, ((ofEntries entries).regular above).isNone = true) :
    (ofEntries ((place, node) :: entries)).regular dir = (ofEntries entries).regular dir := by
  by_cases hbegins : dir <+: place
  · have hnone := habove dir ((List.mem_inits _ _).2 hbegins)
    rw [Option.isNone_iff_eq_none.1 hnone, regular, ofEntries]
    simp [hbegins, hne]
  · have hlookup : ((place, node) :: entries).lookup dir = entries.lookup dir := by
      rw [List.lookup_cons, beq_eq_false_iff_ne.2 hne]
    have hplace : decide (dir <+: place ∧ dir ≠ place) = false := by simp [hbegins]
    simp only [regular, ofEntries, hlookup, List.any_cons, hplace, Bool.false_or]

end FileSystem

end GLib
