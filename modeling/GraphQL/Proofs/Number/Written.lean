import GraphQL.Number.Layout
import GraphQL.Proofs.Number.Conversion
import GraphQL.Proofs.Number.Interval

/-!
# Numbers — what the text of a double stands for

The layouts of a decimal, with a point or with an exponent, are read back by
`written`: the number that a text of digits stands for. So the text of a JSON
number stands for a decimal that rounds to the double, and since a number
rounds to one double at most, no two doubles share a text (`jsonText_injOn`).
-/

namespace GraphQL.Number

variable {whole places text rest : List Char} {c : Char} {x y : Float} {q : ℚ}

/-! ## Reading digits -/

/-- The number that digits stand for. -/
abbrev ofDigitChars (digits : List Char) : ℕ := Nat.ofDigitChars 10 digits 0

/-- An exponent behind its letter. -/
def writtenExponent : List Char → ℤ
  | '+' :: digits => ofDigitChars digits
  | '-' :: digits => -ofDigitChars digits
  | _ => 0

/-- The number that a text of digits stands for, with a point between them and
an exponent behind them if it has one. -/
def written (text : List Char) : ℚ :=
  let mantissa := text.takeWhile (· != 'e')
  let places := (mantissa.dropWhile (· != '.')).tail
  ofDigitChars (mantissa.takeWhile (· != '.') ++ places) *
    10 ^ (writtenExponent (text.dropWhile (· != 'e')).tail - places.length)

/-- All characters are decimal digits. -/
def AllDigits (text : List Char) : Prop := ∀ c ∈ text, c.isDigit = true

theorem AllDigits.not_mem (h : AllDigits text) (hc : c.isDigit = false) : c ∉ text :=
  fun hm => by cases hc.symm.trans (h c hm)

/-- A text is taken apart at the first place of a character. -/
theorem takeWhile_dropWhile_append (hc : c ∉ text) (hr : rest = [] ∨ rest.head? = some c) :
    (text ++ rest).takeWhile (· != c) = text ∧ (text ++ rest).dropWhile (· != c) = rest := by
  have hne : ∀ a ∈ text, (a != c) = true := fun a ha => bne_iff_ne.2 fun h => hc (h ▸ ha)
  rw [List.takeWhile_append_of_pos hne, List.dropWhile_append_of_pos hne]
  rcases hr with rfl | hr
  · simp
  · cases rest <;> simp_all

variable {exponent : List Char}

/-- Digits and an exponent. -/
theorem written_append (hw : AllDigits whole) (he : exponent = [] ∨ exponent.head? = some 'e') :
    written (whole ++ exponent) = ofDigitChars whole * 10 ^ writtenExponent exponent.tail := by
  obtain ⟨hm, hx⟩ := takeWhile_dropWhile_append (hw.not_mem (by decide)) he
  obtain ⟨ht, hd⟩ := takeWhile_dropWhile_append (hw.not_mem (c := '.') (by decide)) (.inl rfl)
  rw [List.append_nil] at ht hd
  simp only [written, hm, hx, ht, hd]
  simp

/-- Digits with a point between them, and an exponent. -/
theorem written_point_append (hw : AllDigits whole) (hp : AllDigits places)
    (he : exponent = [] ∨ exponent.head? = some 'e') :
    written (whole ++ '.' :: places ++ exponent) =
      ofDigitChars (whole ++ places) * 10 ^ (writtenExponent exponent.tail - places.length) := by
  have hno : 'e' ∉ whole ++ '.' :: places := by
    simp [hw.not_mem (c := 'e') (by decide), hp.not_mem (c := 'e') (by decide)]
  obtain ⟨hm, hx⟩ := takeWhile_dropWhile_append hno he
  have hdot : (whole ++ '.' :: places).takeWhile (· != '.') = whole ∧
      (whole ++ '.' :: places).dropWhile (· != '.') = '.' :: places :=
    takeWhile_dropWhile_append (hw.not_mem (by decide)) (.inr rfl)
  obtain ⟨ht, hd⟩ := hdot
  simp only [written, hm, hx, ht, hd]
  rfl

/-! ## The digits of a decimal -/

theorem allDigits_toDigits (n : ℕ) : AllDigits (Nat.toDigits 10 n) :=
  fun _ h => Nat.isDigit_of_mem_toDigits (by decide) (by decide) h

theorem toList_toString (n : ℕ) : (toString n).toList = Nat.toDigits 10 n := Nat.toList_repr

theorem allDigits_zeros (n : ℕ) : AllDigits (List.replicate n '0') := by
  intro c hc
  rw [List.eq_of_mem_replicate hc]
  rfl

theorem AllDigits.append (hw : AllDigits whole) (hp : AllDigits places) :
    AllDigits (whole ++ places) := by
  intro c hc
  exact (List.mem_append.1 hc).elim (hw c) (hp c)

/-- Zeros in front do not count. -/
theorem ofDigitChars_zeros_append (n : ℕ) (digits : List Char) :
    ofDigitChars (List.replicate n '0' ++ digits) = ofDigitChars digits := by
  rw [ofDigitChars, Nat.ofDigitChars_append, Nat.ofDigitChars_replicate_zero, mul_zero]

/-- Zeros behind multiply by a power of ten. -/
theorem ofDigitChars_append_zeros (digits : List Char) (n : ℕ) :
    ofDigitChars (digits ++ List.replicate n '0') = 10 ^ n * ofDigitChars digits := by
  rw [ofDigitChars, Nat.ofDigitChars_append, Nat.ofDigitChars_replicate_zero]

/-! ## Texts that stand for a number -/

/-- A character of a number. -/
def isNumeric (c : Char) : Bool := c.isDigit || c == '-' || c == '+' || c == '.' || c == 'e'

/-- The text of a double that is not negative: it begins with a digit, shows a
point or an exponent, and stands for a number. -/
structure Writes (text : List Char) (q : ℚ) : Prop where
  written : written text = q
  head : ∃ c rest, text = c :: rest ∧ c.isDigit = true
  numeric : ∀ c ∈ text, isNumeric c = true
  marked : '.' ∈ text ∨ 'e' ∈ text

/-- Digits around a point. -/
theorem writes_point (hw : AllDigits whole) (hp : AllDigits places) (hne : whole ≠ []) :
    Writes (whole ++ '.' :: places)
      (ofDigitChars (whole ++ places) * 10 ^ (-places.length : ℤ)) := by
  have h := written_point_append hw hp (.inl rfl)
  refine ⟨?_, ?_, ?_, .inl (by simp)⟩
  · simpa [writtenExponent] using h
  · obtain ⟨c, rest, rfl⟩ := List.exists_cons_of_ne_nil hne
    exact ⟨c, rest ++ '.' :: places, rfl, hw c List.mem_cons_self⟩
  · intro c hc
    rcases List.mem_append.1 hc with hc | hc
    · simp [isNumeric, hw c hc]
    · rcases List.mem_cons.1 hc with rfl | hc
      · decide
      · simp [isNumeric, hp c hc]

/-- Digits of which so many stand behind the point. -/
theorem writes_places {digits : List Char} (hd : AllDigits digits) {places : ℕ}
    (h : places < digits.length) :
    Writes (digits.take (digits.length - places) ++ '.' :: digits.drop (digits.length - places))
      (ofDigitChars digits * 10 ^ (-places : ℤ)) := by
  have hw : AllDigits (digits.take (digits.length - places)) :=
    fun c hc => hd c (List.mem_of_mem_take hc)
  have hp : AllDigits (digits.drop (digits.length - places)) :=
    fun c hc => hd c (List.mem_of_mem_drop hc)
  have hne : digits.take (digits.length - places) ≠ [] := by
    rw [ne_eq, List.take_eq_nil_iff, ← List.length_eq_zero_iff]
    omega
  have hl : (digits.drop (digits.length - places)).length = places := by
    rw [List.length_drop]
    omega
  have hwrites := writes_point hw hp hne
  rwa [List.take_append_drop, hl] at hwrites

/-- The layout with a point stands for the decimal. -/
theorem writes_positional (d : Decimal) : Writes d.positional.toList d.value := by
  obtain ⟨digits, exponent⟩ := d
  have hd := allDigits_toDigits digits
  have hv : ofDigitChars (Nat.toDigits 10 digits) = digits := Nat.ofDigitChars_ten_toDigits
  cases exponent with
  | ofNat zeros =>
    have ht : (Decimal.positional ⟨digits, .ofNat zeros⟩).toList =
        Nat.toDigits 10 digits ++ List.replicate zeros '0' ++ '.' :: List.replicate 1 '0' := by
      simp [Decimal.positional, String.toList_append]
    have hq : Decimal.value ⟨digits, .ofNat zeros⟩ =
        (ofDigitChars (Nat.toDigits 10 digits ++ List.replicate zeros '0' ++
          List.replicate 1 '0') : ℚ) * 10 ^ (-(List.replicate 1 '0').length : ℤ) := by
      rw [ofDigitChars_append_zeros, ofDigitChars_append_zeros, hv, Decimal.value]
      simp
      ring
    rw [ht, hq]
    exact writes_point (hd.append (allDigits_zeros zeros)) (allDigits_zeros 1) (by simp)
  | negSucc n =>
    -- zeros in front leave a digit before the point
    have ht : (Decimal.positional ⟨digits, .negSucc n⟩).toList =
        let padded := List.replicate (n + 1 + 1 - (Nat.toDigits 10 digits).length) '0' ++
          Nat.toDigits 10 digits
        padded.take (padded.length - (n + 1)) ++ '.' :: padded.drop (padded.length - (n + 1)) := by
      simp [Decimal.positional, String.toList_append]
    have hq : Decimal.value ⟨digits, .negSucc n⟩ =
        (ofDigitChars (List.replicate (n + 1 + 1 - (Nat.toDigits 10 digits).length) '0' ++
          Nat.toDigits 10 digits) : ℚ) * 10 ^ (-(n + 1 : ℕ) : ℤ) := by
      rw [ofDigitChars_zeros_append, hv, Decimal.value]
      rfl
    rw [ht, hq]
    refine writes_places ((allDigits_zeros _).append hd) ?_
    rw [List.length_append, List.length_replicate]
    omega

/-! ## Exponents -/

/-- A signed exponent is read as it was written. -/
theorem exists_exponentText (n : ℤ) : ∃ tail,
    (if n < 0 then s!"e{n}" else s!"e+{n}").toList = 'e' :: tail ∧ writtenExponent tail = n ∧
      ∀ c ∈ tail, isNumeric c = true := by
  have numeric : ∀ k, ∀ c ∈ Nat.toDigits 10 k, isNumeric c = true := fun k c hc => by
    simp [isNumeric, allDigits_toDigits k c hc]
  have value : ∀ k, ofDigitChars (Nat.toDigits 10 k) = k := fun k => Nat.ofDigitChars_ten_toDigits
  cases n with
  | ofNat k =>
    refine ⟨'+' :: Nat.toDigits 10 k, ?_, ?_, ?_⟩
    · have hk : ¬ Int.ofNat k < 0 := Int.not_lt.2 (Int.natCast_nonneg k)
      rw [if_neg hk, String.toList_append, Int.toString_eq_repr]
      exact congrArg ('e' :: '+' :: ·) Nat.toList_repr
    · rw [writtenExponent, value]
      rfl
    · exact List.forall_mem_cons.2 ⟨by decide, numeric k⟩
  | negSucc k =>
    refine ⟨'-' :: Nat.toDigits 10 (k + 1), ?_, ?_, ?_⟩
    · rw [if_pos (Int.negSucc_lt_zero k), String.toList_append, Int.toString_eq_repr]
      show 'e' :: ("-" ++ (k + 1).repr).toList = _
      rw [String.toList_append, Nat.toList_repr]
      rfl
    · rw [writtenExponent, value]
      rfl
    · exact List.forall_mem_cons.2 ⟨by decide, numeric (k + 1)⟩

/-- Digits, a point among them perhaps, and an exponent. -/
theorem writes_exponent {mantissa tail : List Char} (hm : ∀ c ∈ mantissa, isNumeric c = true)
    (hhead : ∃ c rest, mantissa = c :: rest ∧ c.isDigit = true)
    (ht : ∀ c ∈ tail, isNumeric c = true) (hq : written (mantissa ++ 'e' :: tail) = q) :
    Writes (mantissa ++ 'e' :: tail) q := by
  obtain ⟨c, rest, rfl, hc⟩ := hhead
  refine ⟨hq, ⟨c, rest ++ 'e' :: tail, rfl, hc⟩, ?_, .inr (by simp)⟩
  exact List.forall_mem_append.2 ⟨hm, List.forall_mem_cons.2 ⟨by decide, ht⟩⟩

/-- The layout with an exponent stands for the decimal. -/
theorem writes_scientific (d : Decimal) : Writes d.scientific.toList d.value := by
  obtain ⟨tail, ht, hlead, htail⟩ := exists_exponentText d.lead
  obtain ⟨first, rest, hdigits⟩ : ∃ first rest, Nat.toDigits 10 d.digits = first :: rest :=
    List.exists_cons_of_ne_nil (List.ne_nil_of_length_pos Nat.length_toDigits_pos)
  have hall : AllDigits (first :: rest) := hdigits ▸ allDigits_toDigits d.digits
  have hfirst := hall first List.mem_cons_self
  have hv : ofDigitChars (first :: rest) = d.digits := hdigits ▸ Nat.ofDigitChars_ten_toDigits
  have hl : d.lead = rest.length + d.exponent := by
    rw [Decimal.lead, ← String.length_toList, toList_toString, hdigits]
    simp
  have hnumeric : ∀ c ∈ first :: rest, isNumeric c = true := fun c hc => by
    simp [isNumeric, hall c hc]
  simp only [Decimal.scientific, toList_toString, hdigits]
  -- a single digit has no point behind it
  cases rest with
  | nil =>
    have hq : d.value = ofDigitChars [first] * 10 ^ writtenExponent tail := by
      rw [hv, hlead, hl, Decimal.value]
      simp
    rw [String.toList_append, ht, String.toList_ofList, hq]
    exact writes_exponent hnumeric ⟨first, [], rfl, hfirst⟩ htail (written_append hall (.inr rfl))
  | cons second rest =>
    have hq : d.value = ofDigitChars ([first] ++ second :: rest) *
        10 ^ (writtenExponent tail - (second :: rest).length) := by
      rw [List.singleton_append, hv, hlead, hl, Decimal.value, add_sub_cancel_left]
    have hone : AllDigits [first] := List.forall_mem_singleton.2 hfirst
    have hrest : AllDigits (second :: rest) := (List.forall_mem_cons.1 hall).2
    have hpoint : ∀ c ∈ first :: '.' :: second :: rest, isNumeric c = true := by
      obtain ⟨hn, hns⟩ := List.forall_mem_cons.1 hnumeric
      exact List.forall_mem_cons.2 ⟨hn, List.forall_mem_cons.2 ⟨by decide, hns⟩⟩
    rw [String.toList_append, ht, String.toList_ofList, hq]
    exact writes_exponent hpoint ⟨first, _, rfl, hfirst⟩ htail
      (written_point_append hone hrest (.inr rfl))

/-! ## Finite doubles -/

/-- The text of a finite double, and what its size stands for. -/
theorem exists_writes_jsonText (h : x.isFinite = true) : ∃ size q,
    jsonText x = signed x size ∧ Writes size.toList q ∧ (Binary.ofFloat x).Contains q := by
  have hfinite : ¬ (x.isNaN || x.isInf) = true := by
    show ¬ (x.toModel.unpack.isNaN || x.toModel.unpack.isInf) = true
    have h : x.toModel.unpack.isFinite = true := h
    cases hu : x.toModel.unpack with
    | infinity => rw [hu] at h; cases h
    | notANumber => rw [hu] at h; cases h
    | zero => exact Bool.false_ne_true
    | finite => exact Bool.false_ne_true
  rw [jsonText, if_neg hfinite]
  by_cases hm : (Binary.ofFloat x).mantissa = 0
  · refine ⟨"0.0", 0, if_pos hm, ?_, Binary.contains_zero hm⟩
    have hw := writes_point (allDigits_zeros 1) (allDigits_zeros 1) (by decide)
    have hz : ofDigitChars (List.replicate 1 '0' ++ List.replicate 1 '0') = 0 := by decide
    rw [hz, Nat.cast_zero, zero_mul] at hw
    exact hw
  · have hc := Binary.contains_shortest (Nat.pos_of_ne_zero hm) .even
    refine ⟨_, _, if_neg hm, ?_, hc⟩
    split
    · exact writes_positional _
    · exact writes_scientific _

/-- The sign in front of a text shows, since the text begins with a digit. -/
theorem signed_inj {size size' : String} {q' : ℚ} (hw : Writes size.toList q)
    (hw' : Writes size'.toList q') (h : signed x size = signed y size') :
    isNegative x = isNegative y ∧ size = size' := by
  have hne : ∀ {text : List Char} {q : ℚ}, Writes text q → text.head? ≠ some '-' := by
    intro text q hw he
    obtain ⟨c, rest, rfl, hd⟩ := hw.head
    cases Option.some.inj he
    cases hd
  have hl := congrArg String.toList h
  rw [signed, signed] at hl
  split at hl <;> split at hl <;> rename_i hx hy
  · rw [String.toList_append, String.toList_append, List.append_cancel_left_eq] at hl
    exact ⟨hx.trans hy.symm, String.toList_inj.1 hl⟩
  · rw [String.toList_append] at hl
    exact absurd (congrArg List.head? hl.symm) (hne hw')
  · rw [String.toList_append] at hl
    exact absurd (congrArg List.head? hl) (hne hw)
  · rw [Bool.not_eq_true] at hx hy
    exact ⟨hx.trans hy.symm, String.toList_inj.1 hl⟩

/-- **The text of a JSON number tells which double it is.** -/
theorem jsonText_injOn : {x : Float | x.isFinite = true}.InjOn jsonText := by
  intro x hx y hy h
  obtain ⟨size, q, ht, hw, hc⟩ := exists_writes_jsonText hx
  obtain ⟨size', q', ht', hw', hc'⟩ := exists_writes_jsonText hy
  obtain ⟨hs, rfl⟩ := signed_inj hw hw' (ht ▸ ht' ▸ h)
  have hq : q = q' := hw.written.symm.trans hw'.written
  obtain ⟨he, hm⟩ :=
    Binary.eq_of_contains (isCanonical_ofFloat hx) (isCanonical_ofFloat hy) hc (hq ▸ hc')
  exact eq_of_ofFloat hs he hm

end GraphQL.Number
