import GraphQL.Proofs.Schema.TypeRef
import Mathlib.Data.List.DropRight

/-!
# Type references — the grammar

The texts that are references, by their grammar: a name, a reference in
brackets, or one that is not non-null with an exclamation mark behind it, with
blanks around every token (`Spelled`). The reader takes a text apart from both
its ends and trims it again at every layer. Main statement: it accepts the
grammar and nothing else, a reference is displayed as the text that it was read
from without the blanks, and it is read off its display exactly if it has a
written form.
-/

namespace GraphQL

namespace Text

/-- Nothing but blanks. -/
def Blank (text : List Char) : Prop := ∀ c ∈ text, isBlank c = true

variable {left right text : List Char}

theorem Blank.append (hl : Blank left) (hr : Blank right) : Blank (left ++ right) := by
  intro c hc
  rcases List.mem_append.1 hc with hc | hc
  · exact hl c hc
  · exact hr c hc

theorem Blank.reverse (h : Blank text) : Blank text.reverse :=
  fun c hc => h c (List.mem_reverse.1 hc)

theorem Blank.dropWhile_append (h : Blank left) (text : List Char) :
    (left ++ text).dropWhile isBlank = text.dropWhile isBlank :=
  List.dropWhile_append_of_pos h

theorem Blank.filter_eq_nil (h : Blank text) : text.filter (fun c => !isBlank c) = [] := by
  rw [List.filter_eq_nil_iff]
  intro c hc
  rw [h c hc]
  decide

/-- Trimming takes blanks away at the two ends and nothing else. -/
theorem exists_trim (text : List Char) :
    ∃ left right, Blank left ∧ Blank right ∧ text = left ++ (trim text ++ right) := by
  have ends : ∀ text : List Char, ∃ blanks, Blank blanks ∧
      text = blanks ++ text.dropWhile isBlank := by
    intro text
    refine ⟨text.takeWhile isBlank, ?_, List.takeWhile_append_dropWhile.symm⟩
    exact fun c hc => List.mem_takeWhile_imp hc
  obtain ⟨left, hl, hs⟩ := ends text
  obtain ⟨right, hr, he⟩ := ends (text.dropWhile isBlank).reverse
  refine ⟨left, right.reverse, hl, hr.reverse, ?_⟩
  have hd : text.dropWhile isBlank = trim text ++ right.reverse := by
    rw [← List.reverse_reverse (text.dropWhile isBlank), he, List.reverse_append]
    rfl
  rw [← hd]
  exact hs

theorem trimEnd_append (hr : Blank right) (text : List Char) :
    trimEnd (text ++ right) = trimEnd text := by
  rw [trimEnd, List.reverse_append, hr.reverse.dropWhile_append]
  rfl

/-- Blanks at the start change nothing. -/
theorem trim_append_left (hl : Blank left) (text : List Char) :
    trim (left ++ text) = trim text := by
  rw [trim, hl.dropWhile_append]
  rfl

/-- Neither do blanks at the end. -/
theorem trim_append_right (hr : Blank right) (text : List Char) :
    trim (text ++ right) = trim text := by
  rw [trim, List.dropWhile_append]
  split
  · rename_i he
    -- the text is blank too, so nothing is left of either
    have hd : right.dropWhile isBlank = [] := List.dropWhile_eq_nil_iff.2 hr
    rw [trim, List.isEmpty_iff.1 he, hd]
  · exact trimEnd_append hr _

/-- In front of a last character that is no blank only the start is trimmed. -/
theorem trim_concat {c : Char} (hc : isBlank c = false) (text : List Char) :
    trim (text ++ [c]) = text.dropWhile isBlank ++ [c] := by
  have last : ∀ text : List Char, trimEnd (text ++ [c]) = text ++ [c] := by
    intro text
    rw [trimEnd, List.reverse_append, List.reverse_singleton, List.singleton_append,
      List.dropWhile_cons_of_neg (by simp [hc]), List.reverse_cons, List.reverse_reverse]
  rw [trim, List.dropWhile_append]
  split
  · rename_i he
    rw [List.isEmpty_iff.1 he, List.dropWhile_cons_of_neg (by simp [hc])]
    exact last []
  · exact last _

end Text

namespace TypeRef

open Text

/-- The text is a reference: a name, a reference in brackets, or a name or list
with an exclamation mark, with blanks around every token. -/
inductive Spelled : List Char → TypeRef → Prop
  | named {left name right : List Char} (hl : Blank left) (hn : isName name = true)
      (hr : Blank right) : Spelled (left ++ (name ++ right)) (.named (String.ofList name))
  | list {left item right : List Char} {type : TypeRef} (hl : Blank left) (hi : Spelled item type)
      (hr : Blank right) : Spelled (left ++ '[' :: (item ++ ']' :: right)) (.list type)
  | nonNull {inner right : List Char} {type : TypeRef} (hi : Spelled inner type)
      (hn : type.isNonNull = false) (hr : Blank right) :
      Spelled (inner ++ '!' :: right) (.nonNull type)

variable {left right text : List Char} {type : TypeRef}

theorem Spelled.append_left (h : Spelled text type) (hl : Blank left) :
    Spelled (left ++ text) type := by
  induction h with
  | named hl' hn hr =>
    rw [← List.append_assoc]
    exact .named (hl.append hl') hn hr
  | list hl' hi hr =>
    rw [← List.append_assoc]
    exact .list (hl.append hl') hi hr
  | nonNull _ hn hr ih =>
    rw [← List.append_assoc]
    exact .nonNull ih hn hr

theorem eq_append_of_dropLast? {c : Char} {rest : List Char} (h : dropLast? c text = some rest) :
    text = rest ++ [c] := by
  unfold dropLast? at h
  split at h
  · rename_i hl
    cases h
    exact (List.dropLast_append_getLast? c hl).symm
  · cases h

/-! ## The reader and the grammar -/

/-- Soundness: what is read is spelled so, by the recursion of the reader. -/
theorem spelled_of_ofChars? (h : ofChars? text = some type) : Spelled text type := by
  fun_induction ofChars? text generalizing type with
  | case1 => cases h
  | case2 text inner hb _ found hn hi ih =>
    cases h
    obtain ⟨left, right, hl, hr, ht⟩ := exists_trim text
    rw [eq_append_of_dropLast? hb, List.append_assoc, ← List.append_assoc] at ht
    rw [ht]
    refine .nonNull ((ih hi).append_left hl) ?_ hr
    cases found with
    | nonNull inner => exact absurd rfl (hn inner)
    | _ => rfl
  | case3 => cases h
  | case4 text _ rest ht item hd _ ih =>
    obtain ⟨found, hf, rfl⟩ := Option.map_eq_some_iff.1 h
    obtain ⟨left, right, hl, hr, he⟩ := exists_trim text
    rw [ht, eq_append_of_dropLast? hd, List.cons_append, List.append_assoc] at he
    rw [he]
    exact .list hl (ih hf) hr
  | case5 => cases h
  | case6 text _ _ hn =>
    cases h
    obtain ⟨left, right, hl, hr, he⟩ := exists_trim text
    have hs := Spelled.named hl hn hr
    rwa [← he] at hs
  | case7 => cases h

/-- The reader drops blanks itself. -/
theorem ofChars?_dropWhile (text : List Char) :
    ofChars? (text.dropWhile isBlank) = ofChars? text := by
  have ht : trim (text.dropWhile isBlank) = trim text := by
    rw [trim, List.dropWhile_idempotent, trim]
  rw [ofChars?_eq, ofChars?_eq text, ht]

/-- Completeness: whatever the grammar spells is read. -/
theorem Spelled.ofChars? (h : Spelled text type) : TypeRef.ofChars? text = some type := by
  induction h with
  | @named left name right hl hn hr =>
    have parts := isNamePart_of_isName hn
    have ht : trim (left ++ (name ++ right)) = name := by
      rw [trim_append_left hl, trim_append_right hr]
      exact trim_eq_self fun c hc => isBlank_of_isNamePart (parts c hc)
    have hb : dropLast? '!' name = none := by
      refine dropLast?_eq_none fun hlast => ?_
      exact absurd (parts '!' (List.mem_of_getLast? hlast)) (by decide)
    rw [ofChars?_eq, ht, hb]
    dsimp only
    split
    · rename_i rest
      exact absurd (parts '[' List.mem_cons_self) (by decide)
    · rw [if_pos hn]
  | @list left item right type hl _ hr ih =>
    have ht : trim (left ++ '[' :: (item ++ ']' :: right)) = '[' :: (item ++ [']']) := by
      have split : '[' :: (item ++ ']' :: right) = (('[' :: item) ++ [']']) ++ right := by simp
      rw [trim_append_left hl, split, trim_append_right hr, trim_concat (by decide),
        List.dropWhile_cons_of_neg (by decide), List.cons_append]
    have hb : dropLast? '!' ('[' :: (item ++ [']'])) = none := by
      refine dropLast?_eq_none ?_
      rw [← List.cons_append, List.getLast?_concat]
      decide
    rw [ofChars?_eq, ht, hb]
    simp only [dropLast?_concat, ih, Option.map_some]
  | @nonNull inner right type _ hn hr ih =>
    have ht : trim (inner ++ '!' :: right) = inner.dropWhile isBlank ++ ['!'] := by
      have split : inner ++ '!' :: right = (inner ++ ['!']) ++ right := by simp
      rw [split, trim_append_right hr, trim_concat (by decide)]
    rw [ofChars?_eq, ht, dropLast?_concat]
    simp only [ofChars?_dropWhile, ih]
    cases type with
    | nonNull inner => cases hn
    | _ => rfl

theorem ofText?_eq_some_iff {text : String} : ofText? text = some type ↔ Spelled text.toList type :=
  ⟨spelled_of_ofChars?, Spelled.ofChars?⟩

/-! ## Display -/

/-- A reference is displayed as it is spelled, without the blanks. -/
theorem Spelled.display (h : Spelled text type) :
    type.display.toList = text.filter fun c => !isBlank c := by
  induction h with
  | @named left name right hl hn hr =>
    have hf : name.filter (fun c => !isBlank c) = name := by
      rw [List.filter_eq_self]
      intro c hc
      rw [isBlank_of_isNamePart (isNamePart_of_isName hn c hc)]
      rfl
    rw [List.filter_append, List.filter_append, hl.filter_eq_nil, hr.filter_eq_nil, hf,
      List.nil_append, List.append_nil, TypeRef.display, String.toList_ofList]
  | list hl _ hr ih =>
    rw [List.filter_append, List.filter_cons_of_pos (by decide), List.filter_append,
      List.filter_cons_of_pos (by decide), hl.filter_eq_nil, hr.filter_eq_nil, ← ih]
    simp [TypeRef.display]
  | nonNull _ _ hr ih =>
    rw [List.filter_append, List.filter_cons_of_pos (by decide), hr.filter_eq_nil, ← ih]
    simp [TypeRef.display]

/-- **Reading accepts the grammar and nothing else**, with the reference that is
spelled. The display of what is read is the text without its blanks, which is
read as the same again; and a reference is read off its display exactly if its
name is a name and no non-null wraps a non-null. -/
theorem reading_and_display :
    (∀ text type, ofText? text = some type ↔ Spelled text.toList type) ∧
      (∀ text type, ofText? text = some type →
        type.display = String.ofList (text.toList.filter fun c => !isBlank c) ∧
          ofText? type.display = some type) ∧
      ∀ type, ofText? type.display = some type ↔ type.isWritten = true := by
  refine ⟨fun _ _ => ofText?_eq_some_iff, ?_, ?_⟩
  · intro text type h
    refine ⟨?_, ofText?_display (isWritten_of_ofText? h)⟩
    rw [← (ofText?_eq_some_iff.1 h).display, String.ofList_toList]
  · exact fun type => ⟨isWritten_of_ofText?, ofText?_display⟩

/-- A list of names that cannot be null, itself not null, with blanks around its tokens:
no-break spaces among them. -/
theorem reading_and_display_spaced :
    ofText? " [ Dog\u00a0! ]\n! " = some (.nonNull (.list (.nonNull (.named "Dog")))) ∧
      (TypeRef.nonNull (.list (.nonNull (.named "Dog")))).display =
        String.ofList (" [ Dog\u00a0! ]\n! ".toList.filter fun c => !isBlank c) ∧
      ofText? (TypeRef.nonNull (.list (.nonNull (.named "Dog")))).display =
        some (.nonNull (.list (.nonNull (.named "Dog")))) := by
  have h : ofText? " [ Dog\u00a0! ]\n! " = some (.nonNull (.list (.nonNull (.named "Dog")))) := by
    cbv
  exact ⟨h, reading_and_display.2.1 _ _ h⟩

end TypeRef

end GraphQL
