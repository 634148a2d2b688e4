import GraphQL.Schema.TypeRef
import Mathlib.Data.List.Basic

/-!
# Type references — the written form

A reference has a written form if its names are names and no non-null wraps a
non-null (`isWritten`). Whatever a text is read as has one, and a reference
that has one is read off it again.
-/

namespace GraphQL

/-- A text without blanks is not trimmed. -/
theorem Text.trim_eq_self {s : List Char} (h : ∀ c ∈ s, isBlank c = false) : trim s = s := by
  have keep : ∀ s : List Char, (∀ c ∈ s, isBlank c = false) → s.dropWhile isBlank = s := by
    intro s h
    cases s with
    | nil => rfl
    | cons c s => rw [List.dropWhile_cons, h c List.mem_cons_self]; rfl
  rw [trim, trimEnd, keep s h, keep s.reverse (by simpa using h), List.reverse_reverse]

namespace TypeRef

open Text

/-- The names of the reference are names, and no non-null wraps a non-null. -/
def isWritten : TypeRef → Bool
  | .named name => isName name.toList
  | .list item => item.isWritten
  | .nonNull inner => inner.isWritten && !inner.isNonNull

/-! ## Characters -/

theorem dropLast?_concat (c : Char) (text : List Char) : dropLast? c (text ++ [c]) = some text := by
  simp [dropLast?]

theorem dropLast?_eq_none {c : Char} {text : List Char} (h : text.getLast? ≠ some c) :
    dropLast? c text = none := if_neg h

theorem isNamePart_of_isName {text : List Char} (h : isName text = true) :
    ∀ c ∈ text, isNamePart c = true := by
  cases text with
  | nil => cases h
  | cons first rest =>
    rw [isName, Bool.and_eq_true, List.all_eq_true] at h
    intro c hc
    rcases List.mem_cons.1 hc with rfl | hc
    · rw [isNamePart, h.1, Bool.true_or]
    · exact h.2 c hc

theorem isBlank_of_isNamePart {c : Char} (h : isNamePart c = true) : isBlank c = false := by
  have hr : 48 ≤ c.toNat ∧ c.toNat ≤ 122 := by
    simp only [isNamePart, isNameStart, Bool.or_eq_true, Bool.and_eq_true, decide_eq_true_eq,
      beq_iff_eq, Char.le_def, UInt32.le_iff_toNat_le] at h
    have hn : c.toNat = c.val.toNat := rfl
    rcases h with ((rfl | h) | h) | h
    · decide
    all_goals
      simp only [Char.reduceVal, UInt32.reduceToNat] at h
      omega
  simp [isBlank]
  omega

/-- In a written form no character is a blank. -/
theorem isBlank_of_mem_display {type : TypeRef} (h : type.isWritten = true) :
    ∀ c ∈ type.display.toList, isBlank c = false := by
  induction type with
  | named name => exact fun c hc => isBlank_of_isNamePart (isNamePart_of_isName h c hc)
  | list item ih =>
    simp only [display, String.toList_append, List.mem_append]
    rintro c ((hc | hc) | hc)
    · cases List.mem_singleton.1 hc
      decide
    · exact ih h c hc
    · cases List.mem_singleton.1 hc
      decide
  | nonNull inner ih =>
    simp only [display, String.toList_append, List.mem_append]
    rintro c (hc | hc)
    · exact ih (Bool.and_eq_true_iff.1 h).1 c hc
    · cases List.mem_singleton.1 hc
      decide

/-- Only a non-null is written with an exclamation mark at its end. -/
theorem getLast?_display {type : TypeRef} (h : type.isWritten = true)
    (hn : type.isNonNull = false) : type.display.toList.getLast? ≠ some '!' := by
  cases type with
  | named name =>
    intro hl
    have hb := isNamePart_of_isName h '!' (List.mem_of_getLast? hl)
    exact absurd hb (by decide)
  | list item =>
    have hd : (list item).display.toList = ('[' :: item.display.toList) ++ [']'] := by
      simp [display]
    rw [hd, List.getLast?_concat]
    decide
  | nonNull inner => cases hn

/-! ## Reading -/

/-- What a text is read as, one layer at a time. -/
theorem ofChars?_eq (text : List Char) :
    ofChars? text =
      match dropLast? '!' (trim text) with
      | some inner =>
        match ofChars? inner with
        | some (.nonNull _) => none
        | some inner => some (.nonNull inner)
        | none => none
      | none =>
        match trim text with
        | '[' :: rest =>
          match dropLast? ']' rest with
          | some item => (ofChars? item).map .list
          | none => none
        | name => if isName name then some (.named (String.ofList name)) else none := by
  rw [ofChars?.eq_def]
  grind

/-- Whatever a text is read as has a written form. -/
theorem isWritten_of_ofChars? {text : List Char} {type : TypeRef}
    (h : ofChars? text = some type) : type.isWritten = true := by
  fun_induction ofChars? text generalizing type with
  | case1 => cases h
  | case2 _ inner _ _ found hn hi ih =>
    cases h
    have hf : found.isNonNull = false := by
      cases found with
      | nonNull inner => exact absurd rfl (hn inner)
      | _ => rfl
    rw [isWritten, ih hi, hf]
    rfl
  | case3 => cases h
  | case4 _ _ _ _ item _ _ ih =>
    obtain ⟨found, hf, rfl⟩ := Option.map_eq_some_iff.1 h
    rw [isWritten]
    exact ih hf
  | case5 => cases h
  | case6 _ _ _ hn =>
    cases h
    rwa [isWritten, String.toList_ofList]
  | case7 => cases h

theorem isWritten_of_ofText? {text : String} {type : TypeRef} (h : ofText? text = some type) :
    type.isWritten = true :=
  isWritten_of_ofChars? h

/-- **A reference with a written form is read off it again.** -/
theorem ofText?_display {type : TypeRef} (h : type.isWritten = true) :
    ofText? type.display = some type := by
  rw [ofText?]
  have ht := trim_eq_self (isBlank_of_mem_display h)
  induction type with
  | named name =>
    rw [ofChars?_eq, ht, dropLast?_eq_none (getLast?_display h rfl)]
    have hd : (named name).display = name := rfl
    rw [hd]
    dsimp only
    split
    · rename_i rest hr
      have hb := isNamePart_of_isName h '[' (hr ▸ List.mem_cons_self)
      exact absurd hb (by decide)
    · rw [if_pos (show isName name.toList = true from h), String.ofList_toList]
  | list item ih =>
    have hi := ih h (trim_eq_self (isBlank_of_mem_display h))
    rw [ofChars?_eq, ht, dropLast?_eq_none (getLast?_display h rfl)]
    have hd : (list item).display.toList = '[' :: (item.display.toList ++ [']']) := by
      simp [display]
    simp only [hd, dropLast?_concat, hi, Option.map_some]
  | nonNull inner ih =>
    rw [isWritten, Bool.and_eq_true, Bool.not_eq_true'] at h
    have hi := ih h.1 (trim_eq_self (isBlank_of_mem_display h.1))
    have hd : (nonNull inner).display.toList = inner.display.toList ++ ['!'] := by
      simp [display]
    rw [ofChars?_eq, ht, hd, dropLast?_concat]
    simp only [hi]
    cases inner with
    | nonNull inner => cases h.2
    | _ => rfl

end TypeRef

end GraphQL
