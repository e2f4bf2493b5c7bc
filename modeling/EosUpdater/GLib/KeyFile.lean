import Mathlib.Data.Int.Order.Basic
import Mathlib.Data.List.TakeWhile
import Mathlib.Data.String.Basic
import EosUpdater.GLib.HashTable

/-!
# Key files

A `KeyFile` has groups of keys with text values. Its groups have names that can be written between
brackets on a line (`isGroupName`), as a field of the structure: parsing accepts no others, and
setting a value in a group of another name is ignored.

Integers are written in decimal notation and read back by `getInteger`, which accepts what fits a
`gint` (`getInteger_setInt64`). `getUint64` reads a `guint64`.
-/

namespace GLib

/-- `g_ascii_iscntrl`. -/
def isCntrl (c : Char) : Bool := decide (c.toNat < 32) || decide (c.toNat = 127)

/-- `g_ascii_isspace`. -/
def isSpace (c : Char) : Bool := c = ' ' || decide (9 ≤ c.toNat ∧ c.toNat ≤ 13 ∧ c.toNat ≠ 11)

/-- `g_key_file_is_group_name`. -/
def isGroupName (name : String) : Bool :=
  !name.isEmpty && name.toList.all fun c => c ≠ '[' && c ≠ ']' && !isCntrl c

/-- `GKeyFile`: its groups, with the values of their keys. -/
structure KeyFile where
  groups : GHashTable String (GHashTable String String)
  /-- Every group has a name that can be written to a file. -/
  named : ∀ group keys, groups.lookup group = some keys → isGroupName group = true

/-- `GKeyFileError`, as far as looking up an integer reports it. -/
inductive KeyFileError
  | keyNotFound (message : String)
  | groupNotFound (message : String)
  | invalidValue (message : String)
deriving DecidableEq, Repr

/-- The digits in front of the end or a blank, as a number. -/
def parseDigits (text : List Char) : Option ℕ :=
  let digits := text.takeWhile Char.isDigit
  if digits.isEmpty || !(text.dropWhile Char.isDigit).head?.all isSpace then none
  else some (Nat.ofDigitChars 10 digits 0)

/-- `strtol`, and the check of `g_key_file_get_integer` that it has read the value up to its end or
a blank. Values have no blanks in front. -/
def parseInteger (value : String) : Option ℤ :=
  match value.toList with
  | '-' :: text => (parseDigits text).map fun n => -Int.ofNat n
  | '+' :: text => (parseDigits text).map Int.ofNat
  | text => (parseDigits text).map Int.ofNat

/-- `g_ascii_strtoull` in decimal notation, and the check of `g_key_file_get_uint64` that it has
read the value up to its end. What is too large counts as the largest number, and a sign in front
negates what was read. Values have no blanks in front. -/
def parseUint64 (value : String) : Option UInt64 :=
  let magnitude (text : List Char) : Option UInt64 :=
    if text.isEmpty || !text.all Char.isDigit then none
    else some (UInt64.ofNat (min (Nat.ofDigitChars 10 text 0) (2 ^ 64 - 1)))
  match value.toList with
  | '-' :: text => (magnitude text).map fun n => -n
  | '+' :: text => magnitude text
  | text => magnitude text

namespace KeyFile

/-- A key file without groups. -/
def empty : KeyFile := ⟨GHashTable.empty, fun _ _ h => by cases h⟩

/-- `g_key_file_get_groups`. -/
def getGroups (file : KeyFile) : List String := file.groups.getKeys

/-- `g_key_file_get_value`, if there is one. -/
def value (file : KeyFile) (group key : String) : Option String :=
  (file.groups.lookup group).bind fun keys => keys.lookup key

/-- `g_key_file_has_key`. -/
def hasKey (file : KeyFile) (group key : String) : Bool := (file.value group key).isSome

/-- `g_key_file_get_integer`. -/
def getInteger (file : KeyFile) (group key : String) : Except KeyFileError Int32 :=
  match file.groups.lookup group with
  | none => .error (.groupNotFound ("Key file does not have group “" ++ group ++ "”"))
  | some keys =>
      match keys.lookup key with
      | none => .error (.keyNotFound
          ("Key file does not have key “" ++ key ++ "” in group “" ++ group ++ "”"))
      | some value =>
          match parseInteger value with
          | none => .error (.invalidValue
              ("Value “" ++ value ++ "” cannot be interpreted as a number."))
          | some n =>
              if Int32.minValue.toInt ≤ n ∧ n ≤ Int32.maxValue.toInt then .ok (Int32.ofInt n)
              else .error (.invalidValue ("Integer value “" ++ value ++ "” out of range"))

/-- `g_key_file_get_uint64`. -/
def getUint64 (file : KeyFile) (group key : String) : Except KeyFileError UInt64 :=
  match file.groups.lookup group with
  | none => .error (.groupNotFound ("Key file does not have group “" ++ group ++ "”"))
  | some keys =>
      match keys.lookup key with
      | none => .error (.keyNotFound
          ("Key file does not have key “" ++ key ++ "” in group “" ++ group ++ "”"))
      | some value =>
          match parseUint64 value with
          | none => .error (.invalidValue ("Key “" ++ key ++ "” in group “" ++ group ++
              "” has value “" ++ value ++ "” where uint64 was expected"))
          | some n => .ok n

/-- `g_key_file_parse_value_as_boolean`. Blanks behind the value do not count. -/
def parseBoolean (value : String) : Option Bool :=
  let trimmed := String.ofList (value.toList.reverse.dropWhile isSpace).reverse
  if trimmed = "true" ∨ trimmed = "1" then some true
  else if trimmed = "false" ∨ trimmed = "0" then some false
  else none

/-- `g_key_file_parse_value_as_string`, which reads escape sequences. -/
def parseString : List Char → Option (List Char)
  | [] => some []
  | '\\' :: c :: text =>
      match c with
      | 's' => (parseString text).map (' ' :: ·)
      | 'n' => (parseString text).map ('\n' :: ·)
      | 't' => (parseString text).map ('\t' :: ·)
      | 'r' => (parseString text).map ('\r' :: ·)
      | '\\' => (parseString text).map ('\\' :: ·)
      | _ => none
  | ['\\'] => none
  | c :: text => (parseString text).map (c :: ·)

/-- `g_key_file_parse_value_as_string`, which reads a list: each piece ends in a semicolon, and the
last one may not. -/
def parseStringList (piece : List Char) : List Char → Option (List (List Char))
  | [] => some (if piece = [] then [] else [piece])
  | '\\' :: c :: text =>
      match c with
      | 's' => parseStringList (piece ++ [' ']) text
      | 'n' => parseStringList (piece ++ ['\n']) text
      | 't' => parseStringList (piece ++ ['\t']) text
      | 'r' => parseStringList (piece ++ ['\r']) text
      | '\\' => parseStringList (piece ++ ['\\']) text
      | ';' => parseStringList (piece ++ [';']) text
      | _ => none
  | ['\\'] => none
  | ';' :: text => (parseStringList [] text).map (piece :: ·)
  | c :: text => parseStringList (piece ++ [c]) text

/-- `g_key_file_get_boolean` and `g_key_file_get_string` with their parser. -/
def getParsed {α : Type} (file : KeyFile) (parse : String → Option α)
    (group key : String) : Except KeyFileError α :=
  match file.groups.lookup group with
  | none => .error (.groupNotFound ("Key file does not have group “" ++ group ++ "”"))
  | some keys =>
      match keys.lookup key with
      | none => .error (.keyNotFound
          ("Key file does not have key “" ++ key ++ "” in group “" ++ group ++ "”"))
      | some value =>
          match parse value with
          | none => .error (.invalidValue ("Key file contains key “" ++ key ++
              "” which has a value that cannot be interpreted."))
          | some a => .ok a

/-- `g_key_file_get_boolean`. -/
def getBoolean (file : KeyFile) (group key : String) : Except KeyFileError Bool :=
  file.getParsed parseBoolean group key

/-- `g_key_file_get_string`. -/
def getString (file : KeyFile) (group key : String) : Except KeyFileError String :=
  file.getParsed (fun value => (parseString value.toList).map String.ofList) group key

/-- `g_key_file_get_string_list`. -/
def getStringList (file : KeyFile) (group key : String) : Except KeyFileError (List String) :=
  file.getParsed (fun value => (parseStringList [] value.toList).map (List.map String.ofList))
    group key

/-- `g_key_file_set_int64`, for the name of a key. -/
def setInt64 (file : KeyFile) (group key : String) (value : Int64) : KeyFile :=
  if hgroup : isGroupName group = true then
    { groups := file.groups.replace group
        (((file.groups.lookup group).getD GHashTable.empty).replace key (toString value.toInt))
      named := fun name keys h => by
        rw [GHashTable.lookup_replace] at h
        split at h
        · next heq => rwa [← heq]
        · exact file.named name keys h }
  else file

/-- `g_key_file_set_value`, for the name of a key. -/
def setValue (file : KeyFile) (group key value : String) : KeyFile :=
  if hgroup : isGroupName group = true then
    { groups := file.groups.replace group
        (((file.groups.lookup group).getD GHashTable.empty).replace key value)
      named := fun name keys h => by
        rw [GHashTable.lookup_replace] at h
        split at h
        · next heq => rwa [← heq]
        · exact file.named name keys h }
  else file

/-- `g_key_file_set_boolean`, for the name of a key. -/
def setBoolean (file : KeyFile) (group key : String) (value : Bool) : KeyFile :=
  file.setValue group key (if value then "true" else "false")

end KeyFile

/-! ### Integers -/

theorem isDigit_of_mem_repr {n : ℕ} {c : Char} (h : c ∈ (Nat.repr n).toList) :
    c.isDigit = true := by
  rw [Nat.toList_repr] at h
  exact Nat.isDigit_of_mem_toDigits (by decide) (by decide) h

/-- Parsing a decimal representation gives back the number. -/
theorem parseDigits_repr (n : ℕ) : parseDigits (Nat.repr n).toList = some n := by
  have htake : (Nat.repr n).toList.takeWhile Char.isDigit = (Nat.repr n).toList :=
    List.takeWhile_eq_self_iff.2 fun c hc => isDigit_of_mem_repr hc
  have hdrop : (Nat.repr n).toList.dropWhile Char.isDigit = [] :=
    List.dropWhile_eq_nil_iff.2 fun c hc => isDigit_of_mem_repr hc
  rw [parseDigits, htake, hdrop, Nat.toList_repr, Nat.ofDigitChars_ten_toDigits]
  simp

/-- What is written can be read. -/
theorem parseInteger_toString (n : ℤ) : parseInteger (toString n) = some n := by
  cases n with
  | ofNat m =>
      show parseInteger (Nat.repr m) = some (m : ℤ)
      have hdigits := parseDigits_repr m
      rw [parseInteger]
      -- a number has no sign in front
      split
      · next text htext =>
          have hsign := isDigit_of_mem_repr (n := m) (c := '-') (by rw [htext]; simp)
          cases hsign
      · next text htext =>
          have hsign := isDigit_of_mem_repr (n := m) (c := '+') (by rw [htext]; simp)
          cases hsign
      · rw [hdigits]
        rfl
  | negSucc m =>
      show parseInteger ("-" ++ Nat.repr (m + 1)) = some (Int.negSucc m)
      have htext : ("-" ++ Nat.repr (m + 1)).toList = '-' :: (Nat.repr (m + 1)).toList := by
        rw [String.toList_append]
        rfl
      rw [parseInteger, htext]
      simp only [parseDigits_repr]
      rfl

namespace KeyFile

variable {file : KeyFile} {group group' key key' : String}

/-- A key file has no group that cannot be named. -/
theorem isGroupName_of_mem (h : group ∈ file.getGroups) : isGroupName group = true := by
  obtain ⟨keys, hlookup⟩ := (GHashTable.mem_getKeys_iff _ _).1 h
  exact file.named group keys hlookup

/-- A value can only be read for a key that is there. -/
theorem hasKey_of_getParsed {α : Type} {parse : String → Option α} {a : α}
    (h : file.getParsed parse group key = .ok a) : file.hasKey group key = true := by
  rw [getParsed] at h
  rw [hasKey, value]
  cases hgroup : file.groups.lookup group with
  | none => simp [hgroup] at h
  | some keys =>
      cases hkey : keys.lookup key with
      | none => simp [hgroup, hkey] at h
      | some text => simp [hkey]

/-- What is read of a key that there is depends on its value. -/
theorem getParsed_of_value {α : Type} (parse : String → Option α) {text : String}
    (h : file.value group key = some text) :
    file.getParsed parse group key =
      match parse text with
      | none => .error (.invalidValue ("Key file contains key “" ++ key ++
          "” which has a value that cannot be interpreted."))
      | some a => .ok a := by
  obtain ⟨keys, hgroup, hkey⟩ := Option.bind_eq_some_iff.1 h
  simp only [getParsed, hgroup, hkey]

theorem getParsed_congr {α : Type} (parse : String → Option α) {other : KeyFile}
    (h : other.value group key = file.value group key) (hkey : file.hasKey group key = true) :
    other.getParsed parse group key = file.getParsed parse group key := by
  obtain ⟨text, htext⟩ := Option.isSome_iff_exists.1 hkey
  rw [getParsed_of_value parse htext, getParsed_of_value parse (h.trans htext)]

theorem mem_getGroups_of_getInteger {n : Int32} (h : file.getInteger group key = .ok n) :
    group ∈ file.getGroups := by
  rw [getInteger] at h
  split at h
  · cases h
  · next keys hlookup => exact (GHashTable.mem_getKeys_iff _ _).2 ⟨keys, hlookup⟩

theorem mem_getGroups_setValue (text : String) :
    group' ∈ (file.setValue group key text).getGroups ↔
      group' ∈ file.getGroups ∨ group = group' ∧ isGroupName group = true := by
  rw [setValue]
  by_cases hgroup : isGroupName group = true
  · rw [dif_pos hgroup, getGroups, getGroups, GHashTable.mem_getKeys_iff,
      GHashTable.mem_getKeys_iff]
    by_cases heq : group = group'
    · subst heq
      simp [hgroup]
    · simp [heq]
  · rw [dif_neg hgroup]
    simp [hgroup]

theorem mem_getGroups_setInt64 (value : Int64) :
    group' ∈ (file.setInt64 group key value).getGroups ↔
      group' ∈ file.getGroups ∨ group = group' ∧ isGroupName group = true :=
  mem_getGroups_setValue _

/-- **What setting an integer does**: nothing in a group that cannot be named, and nothing to any
other key. -/
theorem getInteger_setInt64 (value : Int32) :
    (file.setInt64 group key value.toInt64).getInteger group' key =
      if group = group' ∧ isGroupName group = true then .ok value
      else file.getInteger group' key := by
  rw [setInt64]
  by_cases hgroup : isGroupName group = true
  · rw [dif_pos hgroup]
    -- in this group the number is read back, which fits as it was a `gint`
    by_cases heq : group = group'
    · subst heq
      have hlow := Int32.le_toInt value
      have hhigh := Int32.toInt_lt value
      have hint : value.toInt64.toInt = value.toInt := Int32.toInt_toInt64 value
      have hfits : Int32.minValue.toInt ≤ value.toInt ∧ value.toInt ≤ Int32.maxValue.toInt :=
        ⟨hlow, Int.le_of_lt_add_one hhigh⟩
      rw [getInteger, GHashTable.lookup_replace, if_pos rfl]
      simp only [GHashTable.lookup_replace, if_true, hint, parseInteger_toString, if_pos hfits]
      rw [if_pos ⟨trivial, hgroup⟩, Int32.ofInt_toInt]
    · simp [getInteger, heq]
  · rw [dif_neg hgroup, if_neg fun h => hgroup h.2]

/-- Setting a value changes no other one. -/
theorem value_setValue (text : String) :
    (file.setValue group key text).value group' key' =
      if group = group' ∧ key = key' ∧ isGroupName group = true then some text
      else file.value group' key' := by
  rw [setValue]
  by_cases hgroup : isGroupName group = true
  · rw [dif_pos hgroup, value, value, GHashTable.lookup_replace]
    by_cases heq : group = group'
    · subst heq
      by_cases hkey : key = key'
      · simp [hkey, hgroup]
      · cases hlookup : file.groups.lookup group <;> simp [hkey]
    · simp [heq]
  · rw [dif_neg hgroup, if_neg fun h => hgroup h.2.2]

end KeyFile

end GLib
