import Mathlib.Data.List.Basic
import Mathlib.Tactic.Common

/-!
# Escaping text in markup

`g_markup_escape_text`, and what a parser of markup makes of the text between two tags. Characters
of the markup itself, and those that control terminals, are written as entities.
-/

namespace GLib

/-- The characters that are written as their number. -/
def markupControlCharacters : List Char :=
  (List.range' 0x1 8 ++ List.range' 0xb 2 ++ List.range' 0xe 18 ++ List.range' 0x7f 6 ++
    List.range' 0x86 26).map Char.ofNat

/-- The characters that are written as entities, and the names of these. -/
def markupEntities : List (Char × List Char) :=
  [('&', "amp".toList), ('<', "lt".toList), ('>', "gt".toList), ('\'', "apos".toList),
      ('"', "quot".toList)] ++
    markupControlCharacters.map fun c => (c, "#x".toList ++ Nat.toDigits 16 c.toNat)

/-- How one character is written. -/
def markupEscapeChar (c : Char) : List Char :=
  match markupEntities.find? fun entity => entity.1 = c with
  | some entity => '&' :: entity.2 ++ [';']
  | none => [c]

/-- `g_markup_escape_text`. -/
def markupEscapeText (text : String) : String :=
  String.ofList (text.toList.flatMap markupEscapeChar)

/-- The text that is written with entities. The first argument is what has been read of the name of
an entity, backwards. -/
def markupUnescapeChars : Option (List Char) → List Char → List Char
  | _, [] => []
  | none, c :: text =>
      if c = '&' then markupUnescapeChars (some []) text else c :: markupUnescapeChars none text
  | some name, c :: text =>
      if c = ';' then
        match markupEntities.find? fun entity => entity.2 = name.reverse with
        | some entity => entity.1 :: markupUnescapeChars none text
        | none => markupUnescapeChars none text
      else markupUnescapeChars (some (c :: name)) text

/-- The text that is written with entities. -/
def markupUnescapeText (text : String) : String :=
  String.ofList (markupUnescapeChars none text.toList)

/-! ### Reading what was escaped -/

/-- Every entity has a name of its own, which ends where it should. -/
theorem markupEntities_names : ∀ entity ∈ markupEntities,
    (markupEntities.find? fun entity' => entity'.2 = entity.2) = some entity ∧
      ';' ∉ entity.2 ∧ '<' ∉ entity.2 := by
  decide +kernel

/-- The name of an entity is gathered up to the semicolon. -/
theorem markupUnescapeChars_name {name text : List Char} (acc : List Char) (h : ';' ∉ name) :
    markupUnescapeChars (some acc) (name ++ text) =
      markupUnescapeChars (some (name.reverse ++ acc)) text := by
  induction name generalizing acc with
  | nil => rfl
  | cons c name ih =>
      rw [List.mem_cons, not_or] at h
      rw [List.cons_append, markupUnescapeChars, if_neg (Ne.symm h.1), ih _ h.2]
      simp

/-- Unescaping gives back a character that was escaped. -/
theorem markupUnescapeChars_markupEscapeChar (c : Char) (text : List Char) :
    markupUnescapeChars none (markupEscapeChar c ++ text) =
      c :: markupUnescapeChars none text := by
  rw [markupEscapeChar]
  split
  · next entity hentity =>
      obtain ⟨hname, hend, -⟩ := markupEntities_names entity (List.mem_of_find?_eq_some hentity)
      have hc : entity.1 = c := by simpa using List.find?_some hentity
      rw [List.append_assoc, List.cons_append, markupUnescapeChars, if_pos rfl,
        markupUnescapeChars_name [] hend, List.append_nil, List.singleton_append,
        markupUnescapeChars, if_pos rfl, List.reverse_reverse, hname]
      simp only [hc]
  · next hnone =>
      -- the ampersand is an entity
      have hne : c ≠ '&' := fun heq => by
        rw [heq] at hnone
        revert hnone
        decide
      rw [List.singleton_append, markupUnescapeChars, if_neg hne]

/-- Unescaping gives back the text that was escaped. -/
theorem markupUnescapeText_markupEscapeText (text : String) :
    markupUnescapeText (markupEscapeText text) = text := by
  have hchars : ∀ chars : List Char,
      markupUnescapeChars none (chars.flatMap markupEscapeChar) = chars := by
    intro chars
    induction chars with
    | nil => rfl
    | cons c chars ih =>
        rw [List.flatMap_cons, markupUnescapeChars_markupEscapeChar, ih]
  rw [markupUnescapeText, markupEscapeText, String.toList_ofList, hchars, String.ofList_toList]

/-! ### What escaping makes -/

/-- Texts are escaped one after the other. -/
theorem markupEscapeText_append (text text' : String) :
    markupEscapeText (text ++ text') = markupEscapeText text ++ markupEscapeText text' := by
  simp only [markupEscapeText, String.toList_append, List.flatMap_append, String.ofList_append]

/-- No tag starts in a text that is escaped. -/
theorem notMem_markupEscapeText (text : String) : '<' ∉ (markupEscapeText text).toList := by
  rw [markupEscapeText, String.toList_ofList, List.mem_flatMap]
  rintro ⟨c, -, hmem⟩
  rw [markupEscapeChar] at hmem
  split at hmem
  · next entity hentity =>
      have hname := (markupEntities_names entity (List.mem_of_find?_eq_some hentity)).2.2
      simp [hname] at hmem
  · next hnone =>
      rw [← List.mem_singleton.1 hmem] at hnone
      revert hnone
      decide

example : markupEscapeText "Q&A <1>\x01" = "Q&amp;A &lt;1&gt;&#x1;" := by
  decide +kernel

end GLib
