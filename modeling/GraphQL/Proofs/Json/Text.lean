import GraphQL.Json.Printer
import GraphQL.Json.Reader
import GraphQL.Proofs.Number.Written

/-!
# JSON — the text tells the value

A compact text can be read from the front: a string ends at its closing quote,
a list at its bracket, and a number where a character stands that no number
has. So a value and what stands behind it are told by the text they make
together (`IsValue.told`), by induction on the value. Main statement: no two
values have the same text. It holds of values that can stand in a text: an
unread part is written as a null, as are NaN and the infinities.
-/

namespace GraphQL.Json

variable {rest rest' : List Char}

/-! ## Strings -/

/-- Every control character that is written by its number reads back. -/
theorem hex?_control {n : ℕ} (h : n < 0x20) :
    hex? '0' '0' (hexDigit (n / 16)) (hexDigit (n % 16)) = some n := by
  revert h
  revert n
  decide

/-- An escaped character is read as the character. -/
theorem stringTail?_escape (reversed : List Char) (c : Char) (rest : List Char) :
    stringTail? ⟨reversed, none, true⟩ (escape c ++ rest) =
      stringTail? ⟨c :: reversed, none, true⟩ rest := by
  unfold escape
  split
  case _ => rfl
  case _ => rfl
  case _ => rfl
  case _ => rfl
  case _ => rfl
  case _ => rfl
  case _ => rfl
  case _ hq hb _ _ _ _ _ =>
    split
    · rename_i hc
      show stringTail? _ ('\\' :: 'u' :: '0' :: '0' :: hexDigit (c.toNat / 16) ::
        hexDigit (c.toNat % 16) :: rest) = _
      rw [stringTail?, hex?_control hc]
      have hlow : ¬ (0xD800 ≤ c.toNat ∧ c.toNat < 0xDC00) := by omega
      have hhigh : ¬ (0xDC00 ≤ c.toNat ∧ c.toNat < 0xE000) := by omega
      simp only [StringState.pushUnit, if_neg hlow, if_neg hhigh, StringState.push,
        Char.ofNat_toNat]
      rfl
    · rename_i hc
      have hplain : ¬ (c.toNat < 0x20 ∨ c = '\\') := fun h => h.elim hc hb
      rw [List.singleton_append, stringTail?, if_neg hplain]
      · rfl
      · exact hq
      · exact fun _ _ _ _ _ h => absurd h hb
      · exact fun _ _ h => absurd h hb

theorem stringTail?_escaped (chars reversed rest : List Char) :
    stringTail? ⟨reversed, none, true⟩ (chars.flatMap escape ++ '"' :: rest) =
      some (some (String.ofList (reversed.reverse ++ chars)), rest) := by
  induction chars generalizing reversed with
  | nil =>
    rw [List.append_nil]
    rfl
  | cons c chars ih =>
    rw [List.flatMap_cons, List.append_assoc, stringTail?_escape, ih]
    simp

/-- **A quoted string reads back.** -/
theorem quoted?_quote (s : String) (rest : List Char) :
    quoted? ((quote s).toList ++ rest) = some (some s, rest) := by
  have hq : (quote s).toList ++ rest = '"' :: (s.toList.flatMap escape ++ '"' :: rest) := by
    simp [quote]
  rw [hq, quoted?, stringTail?_escaped]
  simp

theorem quote_append_inj {s t : String} (h : (quote s).toList ++ rest = (quote t).toList ++ rest') :
    s = t ∧ rest = rest' := by
  have hs := quoted?_quote s rest
  rw [h, quoted?_quote t rest'] at hs
  simp only [Option.some.injEq, Prod.mk.injEq] at hs
  exact ⟨hs.1.symm, hs.2.symm⟩

/-! ## Numbers -/

/-- What can stand behind a value in a text: nothing, or a character that ends it. -/
def Ends (rest : List Char) : Prop := ∀ c ∈ rest.head?, c = ',' ∨ c = ']' ∨ c = '\x7d'

/-- A text made of an item tells the item, and where its part of the text ends. -/
def Told {α : Type} (print : α → List Char) (good : α → Prop) (item : α) : Prop :=
  ∀ item', good item' → ∀ rest rest', Ends rest → Ends rest' →
    print item ++ rest = print item' ++ rest' → item = item' ∧ rest = rest'

/-- A text of numeric characters ends where another character stands. -/
theorem numeric_append_inj {text text' : List Char} (h : ∀ c ∈ text, Number.isNumeric c = true)
    (h' : ∀ c ∈ text', Number.isNumeric c = true) (hr : Ends rest) (hr' : Ends rest')
    (ht : text ++ rest = text' ++ rest') : text = text' ∧ rest = rest' := by
  have hends : ∀ {text rest : List Char}, (∀ c ∈ text, Number.isNumeric c = true) → Ends rest →
      (text ++ rest).takeWhile Number.isNumeric = text := by
    intro text rest h hr
    rw [List.takeWhile_append_of_pos h]
    cases rest with
    | nil => simp
    | cons c rest =>
      have hc : Number.isNumeric c = false := by
        rcases hr c rfl with rfl | rfl | rfl <;> decide
      simp [hc]
  have heq : text = text' := (hends h hr).symm.trans ((congrArg _ ht).trans (hends h' hr'))
  subst heq
  exact ⟨rfl, List.append_cancel_left ht⟩

/-! ## Lists between brackets -/

section Lists

variable {α : Type} {print : α → List Char} {good : α → Prop} {close : Char}

/-- Texts with commas between them. -/
def commaed (print : α → List Char) (items : List α) : List Char :=
  [','].intercalate (items.map print)

/-- What stands behind the first text. -/
def afterFirst (print : α → List Char) : List α → List Char
  | [] => []
  | item :: items => ',' :: commaed print (item :: items)

theorem commaed_cons (item : α) (items : List α) :
    commaed print (item :: items) = print item ++ afterFirst print items := by
  cases items with
  | nil => simp [commaed, afterFirst]
  | cons next items =>
    rw [commaed, List.map_cons, List.map_cons, List.intercalate_cons_cons, List.append_assoc]
    rfl

theorem ends_afterFirst (hc : close = ']' ∨ close = '\x7d') (items : List α) (rest : List Char) :
    Ends (afterFirst print items ++ close :: rest) := by
  intro c h
  cases items with
  | nil =>
    cases h
    exact .inr hc
  | cons item items =>
    cases h
    exact .inl rfl

/-- A list between brackets tells its items if each text tells its item, and
where that text ends, and none begins with the closing bracket. -/
theorem commaed_append_inj (hc : close = ']' ∨ close = '\x7d') {items items' : List α}
    (hopen : ∀ item, good item → ∃ c text, print item = c :: text ∧ c ≠ close)
    (hprint : ∀ item ∈ items, Told print good item)
    (hg : ∀ item ∈ items, good item) (hg' : ∀ item ∈ items', good item)
    (h : commaed print items ++ close :: rest = commaed print items' ++ close :: rest') :
    items = items' ∧ rest = rest' := by
  have hcomma : close ≠ ',' := by rcases hc with rfl | rfl <;> decide
  induction items generalizing items' with
  | nil =>
    cases items' with
    | nil => exact ⟨rfl, (List.cons.inj h).2⟩
    | cons item' items' =>
      obtain ⟨c, text, ht, hne⟩ := hopen item' (hg' _ List.mem_cons_self)
      rw [commaed_cons, ht] at h
      exact absurd (List.cons.inj h).1.symm hne
  | cons item items ih =>
    cases items' with
    | nil =>
      obtain ⟨c, text, ht, hne⟩ := hopen item (hg _ List.mem_cons_self)
      rw [commaed_cons, ht] at h
      exact absurd (List.cons.inj h).1 hne
    | cons item' items' =>
      rw [commaed_cons, commaed_cons, List.append_assoc, List.append_assoc] at h
      obtain ⟨rfl, htail⟩ := hprint item List.mem_cons_self item' (hg' _ List.mem_cons_self) _ _
        (ends_afterFirst hc items rest) (ends_afterFirst hc items' rest') h
      have hi : commaed print items ++ close :: rest = commaed print items' ++ close :: rest' := by
        cases items with
        | nil =>
          cases items' with
          | nil => exact htail
          | cons _ _ => exact absurd (List.cons.inj htail).1 hcomma
        | cons _ _ =>
          cases items' with
          | nil => exact absurd (List.cons.inj htail).1.symm hcomma
          | cons _ _ => exact (List.cons.inj htail).2
      obtain ⟨rfl, hr⟩ := ih (List.forall_mem_cons.1 hprint).2 (List.forall_mem_cons.1 hg).2
        (List.forall_mem_cons.1 hg').2 hi
      exact ⟨rfl, hr⟩

end Lists

/-- The text as characters. -/
abbrev chars (v : Json) : List Char := v.text.toList

theorem toList_itemsText (items : List Json) :
    (itemsText items).toList = commaed chars items := by
  induction items with
  | nil => rfl
  | cons item items ih =>
    cases items with
    | nil => simp [itemsText, commaed]
    | cons next items =>
      rw [commaed_cons item, afterFirst, ← ih, itemsText]
      · simp
      · simp

/-- A member as it is written. -/
def memberText (member : String × Json) : List Char :=
  (quote member.1).toList ++ ':' :: member.2.chars

theorem toList_membersText (members : List (String × Json)) :
    (membersText members).toList = commaed memberText members := by
  induction members with
  | nil => rfl
  | cons member members ih =>
    obtain ⟨name, value⟩ := member
    cases members with
    | nil => simp [membersText, commaed, memberText]
    | cons next members =>
      rw [commaed_cons (name, value), afterFirst, ← ih, membersText]
      · simp [memberText]
      · simp

theorem chars_array (items : List Json) (rest : List Char) :
    (Json.array items).chars ++ rest =
      '[' :: (commaed chars items ++ ']' :: rest) := by
  show ("[" ++ itemsText items ++ "]").toList ++ rest = _
  rw [String.toList_append, String.toList_append, toList_itemsText]
  simp

theorem chars_object (members : List (String × Json)) (rest : List Char) :
    (Json.object members).chars ++ rest =
      '\x7b' :: (commaed memberText members ++ '\x7d' :: rest) := by
  show ("\x7b" ++ membersText members ++ "\x7d").toList ++ rest = _
  rw [String.toList_append, String.toList_append, toList_membersText]
  simp

/-! ## Values -/

/-- The value can stand in a text: nothing in it is unread, its doubles are finite. -/
inductive IsValue : Json → Prop
  | null : IsValue .null
  | bool (b : Bool) : IsValue (.bool b)
  | int (n : Int) : IsValue (.int n)
  | float {x : Float} (h : x.isFinite = true) : IsValue (.float x)
  | string (s : String) : IsValue (.string s)
  | array {items : List Json} (h : ∀ item ∈ items, IsValue item) : IsValue (.array items)
  | object {members : List (String × Json)} (h : ∀ member ∈ members, IsValue member.2) :
      IsValue (.object members)

/-- What the first character of a text says of the value. -/
inductive Mark where
  | null
  | bool (b : Bool)
  | number
  | string
  | array
  | object

/-- The mark of a value. -/
def mark : Json → Mark
  | .null => .null
  | .bool b => .bool b
  | .int _ => .number
  | .float _ => .number
  | .string _ => .string
  | .array _ => .array
  | .object _ => .object
  | .unread => .null

/-- The mark of a value whose text begins with a character. -/
def Mark.ofChar? : Char → Option Mark
  | 'n' => some .null
  | 't' => some (.bool true)
  | 'f' => some (.bool false)
  | '"' => some .string
  | '[' => some .array
  | '\x7b' => some .object
  | c => if Number.isNumeric c then some .number else none

theorem Mark.ofChar?_numeric {c : Char} (h : Number.isNumeric c = true) :
    ofChar? c = some .number := by
  unfold ofChar?
  split
  case h_7 => exact if_pos h
  all_goals exact absurd h (by decide)

theorem toList_toString_ofNat (n : Nat) :
    (toString (Int.ofNat n)).toList = Nat.toDigits 10 n := Nat.toList_repr

theorem toList_toString_negSucc (n : Nat) :
    (toString (Int.negSucc n)).toList = '-' :: Nat.toDigits 10 (n + 1) := by
  show ("-" ++ (n + 1).repr).toList = _
  rw [String.toList_append, Nat.toList_repr]
  rfl

/-- An integer is digits with a sign at most. -/
theorem digit_or_sign_of_mem_int {n : Int} {c : Char} (hc : c ∈ (toString n).toList) :
    c.isDigit = true ∨ c = '-' := by
  cases n with
  | ofNat n =>
    rw [toList_toString_ofNat] at hc
    exact .inl (Number.allDigits_toDigits n c hc)
  | negSucc n =>
    rw [toList_toString_negSucc] at hc
    rcases List.mem_cons.1 hc with rfl | hc
    · exact .inr rfl
    · exact .inl (Number.allDigits_toDigits (n + 1) c hc)

/-- Digits and sign tell the integer. -/
theorem toString_int_inj {m n : Int} (h : toString m = toString n) : m = n := by
  have digits : ∀ {m n : Nat}, Nat.toDigits 10 m = Nat.toDigits 10 n → m = n := by
    intro m n h
    rw [← @Nat.ofDigitChars_ten_toDigits m, h, Nat.ofDigitChars_ten_toDigits]
  have signed : ∀ {m n : Nat}, '-' :: Nat.toDigits 10 m ≠ Nat.toDigits 10 n := by
    intro m n h
    exact absurd (Number.allDigits_toDigits n '-' (h ▸ List.mem_cons_self)) (by decide)
  have texts := congrArg String.toList h
  cases m with
  | ofNat m =>
    cases n with
    | ofNat n =>
      rw [toList_toString_ofNat, toList_toString_ofNat] at texts
      exact congrArg Int.ofNat (digits texts)
    | negSucc n =>
      rw [toList_toString_ofNat, toList_toString_negSucc] at texts
      exact absurd texts.symm signed
  | negSucc m =>
    cases n with
    | ofNat n =>
      rw [toList_toString_negSucc, toList_toString_ofNat] at texts
      exact absurd texts signed
    | negSucc n =>
      rw [toList_toString_negSucc, toList_toString_negSucc] at texts
      exact congrArg Int.negSucc (Nat.succ.inj (digits (List.cons.inj texts).2))

theorem int_ne_nil (n : Int) : (toString n).toList ≠ [] := by
  rw [Int.toString_eq_repr]
  cases n with
  | ofNat n =>
    show n.repr.toList ≠ []
    rw [Nat.toList_repr]
    exact List.ne_nil_of_length_pos Nat.length_toDigits_pos
  | negSucc n =>
    show ("-" ++ (n + 1).repr).toList ≠ []
    simp [String.toList_append]

/-- A double is numeric characters, a point or an exponent among them. -/
theorem numeric_float {x : Float} (h : x.isFinite = true) :
    (∀ c ∈ (Number.jsonText x).toList, Number.isNumeric c = true) ∧
      ('.' ∈ (Number.jsonText x).toList ∨ 'e' ∈ (Number.jsonText x).toList) := by
  obtain ⟨size, q, ht, hw, -⟩ := Number.exists_writes_jsonText h
  have hs : (Number.signed x size).toList = size.toList ∨
      (Number.signed x size).toList = '-' :: size.toList := by
    rw [Number.signed]
    split
    · exact .inr (by rw [String.toList_append]; rfl)
    · exact .inl rfl
  rw [ht]
  rcases hs with hs | hs <;> rw [hs]
  · exact ⟨hw.numeric, hw.marked⟩
  · exact ⟨List.forall_mem_cons.2 ⟨by decide, hw.numeric⟩,
      hw.marked.imp (List.mem_cons_of_mem _) (List.mem_cons_of_mem _)⟩

variable {v w : Json}

theorem IsValue.numeric (hv : v.IsValue) (hm : v.mark = .number) :
    ∀ c ∈ v.chars, Number.isNumeric c = true := by
  cases hv with
  | int n =>
    intro c hc
    rcases digit_or_sign_of_mem_int hc with h | rfl
    · simp [Number.isNumeric, h]
    · decide
  | float h => exact (numeric_float h).1
  | _ => cases hm

/-- Two numbers have different texts. -/
theorem IsValue.number_inj (hv : v.IsValue) (hw : w.IsValue) (hm : v.mark = .number)
    (hm' : w.mark = .number) (h : v.text = w.text) : v = w := by
  -- an integer has neither point nor exponent
  have hmixed : ∀ {n : Int} {x : Float}, x.isFinite = true → toString n ≠ Number.jsonText x := by
    intro n x hx he
    rcases (numeric_float hx).2 with hc | hc <;> rw [← he] at hc <;>
      rcases digit_or_sign_of_mem_int hc with hd | hd <;> exact absurd hd (by decide)
  cases hv with
  | int n =>
    cases hw with
    | int m => exact congrArg Json.int (toString_int_inj h)
    | float hx => exact absurd h (hmixed hx)
    | _ => cases hm'
  | float hx =>
    cases hw with
    | int m => exact absurd h.symm (hmixed hx)
    | float hy => exact congrArg Json.float (Number.jsonText_injOn hx hy h)
    | _ => cases hm'
  | _ => cases hm

/-- The first character of a text gives the mark of the value. -/
theorem IsValue.exists_head (hv : v.IsValue) :
    ∃ c text, v.chars = c :: text ∧ Mark.ofChar? c = some v.mark := by
  cases hv with
  | null => exact ⟨'n', _, rfl, rfl⟩
  | bool b => cases b <;> exact ⟨_, _, rfl, rfl⟩
  | int n =>
    obtain ⟨c, text, ht⟩ := List.exists_cons_of_ne_nil (int_ne_nil n)
    have hc := (IsValue.int n).numeric rfl c (List.mem_of_mem_head? (congrArg List.head? ht))
    exact ⟨c, text, ht, Mark.ofChar?_numeric hc⟩
  | @float x h =>
    have hne : (Number.jsonText x).toList ≠ [] := by
      intro he
      rcases (numeric_float h).2 with hc | hc <;> rw [he] at hc <;> cases hc
    obtain ⟨c, text, ht⟩ := List.exists_cons_of_ne_nil hne
    have hc := (numeric_float h).1 c (ht ▸ List.mem_cons_self)
    exact ⟨c, text, ht, Mark.ofChar?_numeric hc⟩
  | string s => exact ⟨'"', _, String.toList_ofList, rfl⟩
  | @array items h =>
    exact ⟨'[', _, (List.append_nil _).symm.trans (chars_array items []), rfl⟩
  | @object members h =>
    exact ⟨'\x7b', _, (List.append_nil _).symm.trans (chars_object members []), rfl⟩

/-- The texts of two values tell their marks. -/
theorem IsValue.mark_eq (hv : v.IsValue) (hw : w.IsValue)
    (h : v.chars ++ rest = w.chars ++ rest') : v.mark = w.mark := by
  obtain ⟨c, text, ht, hc⟩ := hv.exists_head
  obtain ⟨c', text', ht', hc'⟩ := hw.exists_head
  rw [ht, ht'] at h
  exact Option.some.inj (hc.symm.trans ((congrArg _ (List.cons.inj h).1).trans hc'))

theorem IsValue.number_told (hv : v.IsValue) (hm : v.mark = .number) :
    Told chars IsValue v := by
  intro w hw rest rest' hr hr' h
  have hm' := (hv.mark_eq hw h).symm.trans hm
  obtain ⟨ht, hrest⟩ := numeric_append_inj (hv.numeric hm) (hw.numeric hm') hr hr' h
  exact ⟨hv.number_inj hw hm hm' (String.toList_inj.1 ht), hrest⟩

theorem array_told {items : List Json} (hi : ∀ item ∈ items, item.IsValue)
    (ih : ∀ item ∈ items, Told chars IsValue item) :
    Told chars IsValue (.array items) := by
  intro w hw rest rest' _ _ h
  have hm := (IsValue.array hi).mark_eq hw h
  have hopen : ∀ item : Json, item.IsValue → ∃ c text, item.chars = c :: text ∧ c ≠ ']' := by
    intro item hv
    obtain ⟨c, text, ht, hc⟩ := hv.exists_head
    refine ⟨c, text, ht, ?_⟩
    rintro rfl
    cases hc
  cases hw with
  | @array items' hi' =>
    rw [chars_array, chars_array] at h
    obtain ⟨rfl, hrest⟩ := commaed_append_inj (.inl rfl) hopen ih hi hi' (List.cons.inj h).2
    exact ⟨rfl, hrest⟩
  | _ => cases hm

theorem member_told {member : String × Json}
    (h : Told chars IsValue member.2) :
    Told memberText (fun member => member.2.IsValue) member := by
  intro member' hv rest rest' hr hr' ht
  rw [memberText, memberText, List.append_assoc, List.append_assoc] at ht
  obtain ⟨hn, ht⟩ := quote_append_inj ht
  obtain ⟨hv, hrest⟩ := h _ hv rest rest' hr hr' (List.cons.inj ht).2
  exact ⟨Prod.ext hn hv, hrest⟩

theorem object_told {members : List (String × Json)} (hi : ∀ member ∈ members, member.2.IsValue)
    (ih : ∀ member ∈ members, Told chars IsValue member.2) :
    Told chars IsValue (.object members) := by
  intro w hw rest rest' _ _ h
  have hm := (IsValue.object hi).mark_eq hw h
  have hopen : ∀ member : String × Json, member.2.IsValue →
      ∃ c text, memberText member = c :: text ∧ c ≠ '\x7d' := by
    intro member _
    exact ⟨'"', _, by rw [memberText, quote, String.toList_ofList]; rfl, by decide⟩
  cases hw with
  | @object members' hi' =>
    rw [chars_object, chars_object] at h
    obtain ⟨rfl, hrest⟩ := commaed_append_inj (.inr rfl) hopen
      (fun member hm => member_told (ih member hm)) hi hi' (List.cons.inj h).2
    exact ⟨rfl, hrest⟩
  | _ => cases hm

/-- A text tells the value at its front, and where the value ends. -/
theorem IsValue.told (hv : v.IsValue) : Told chars IsValue v := by
  induction hv with
  | null =>
    intro w hw rest rest' _ _ h
    have hm := IsValue.null.mark_eq hw h
    cases hw with
    | null => exact ⟨rfl, List.append_cancel_left h⟩
    | _ => cases hm
  | bool b =>
    intro w hw rest rest' _ _ h
    have hm := (IsValue.bool b).mark_eq hw h
    cases hw with
    | bool b' =>
      cases hm
      exact ⟨rfl, List.append_cancel_left h⟩
    | _ => cases hm
  | int n => exact (IsValue.int n).number_told rfl
  | float hx => exact (IsValue.float hx).number_told rfl
  | string s =>
    intro w hw rest rest' _ _ h
    have hm := (IsValue.string s).mark_eq hw h
    cases hw with
    | string s' =>
      obtain ⟨rfl, hrest⟩ := quote_append_inj h
      exact ⟨rfl, hrest⟩
    | _ => cases hm
  | array hi ih => exact array_told hi ih
  | object hi ih => exact object_told hi ih

/-- **The compact text tells the value.** -/
theorem text_injOn : {v : Json | v.IsValue}.InjOn text := by
  intro v hv w hw h
  have hends : Ends [] := fun c hc => by cases hc
  exact (hv.told w hw [] [] hends hends (by rw [chars, chars, h])).1

end GraphQL.Json
