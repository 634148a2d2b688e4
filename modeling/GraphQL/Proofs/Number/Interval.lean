import GraphQL.Number.Shortest
import GraphQL.Proofs.Number.Conversion
import Mathlib.Algebra.Order.Field.Power
import Mathlib.Tactic.FieldSimp
import Mathlib.Tactic.Positivity
import Mathlib.Tactic.Ring

/-!
# Numbers — the reals that round to a double

The decimals that read back to a double fill an interval around it, whose ends
belong to it when the mantissa is even (`Binary.Contains`). The search for the
shortest of them answers with one that reads back in any case. Main statement:
the intervals of two doubles have no number in common, so a decimal that reads
back tells which double it was printed for.
-/

namespace GraphQL.Number

open Float.Model Float.Model.UnpackedFloat

variable {b c : Binary} {q : ℚ}

/-! ## Values -/

/-- The number that a decimal stands for. -/
def Decimal.value (d : Decimal) : ℚ := d.digits * 10 ^ d.exponent

/-- The number that a double stands for, sign left out. -/
def Binary.value (b : Binary) : ℚ := b.mantissa * 2 ^ b.exponent

/-- A power is split by the sign of its exponent. -/
theorem zpow_eq_div (x : ℚ) (i : ℤ) : x ^ i = x ^ i.toNat / x ^ (-i).toNat := by
  cases i with
  | ofNat n => simp
  | negSucc n =>
    have hz : (Int.negSucc n).toNat = 0 := rfl
    have hs : (-Int.negSucc n).toNat = n + 1 := rfl
    rw [hz, hs, zpow_negSucc, pow_zero, one_div]

/-- The comparison in natural numbers is that of the numbers themselves. -/
theorem compareScaled_eq (a : ℕ) (i : ℤ) (n : ℕ) (j : ℤ) :
    compareScaled a i n j = compare ((a : ℚ) * 10 ^ i) (n * 2 ^ j) := by
  have hl : (a : ℚ) * 10 ^ i = ((a * 10 ^ i.toNat * 2 ^ (-j).toNat : ℕ) : ℚ) /
      (10 ^ (-i).toNat * 2 ^ (-j).toNat) := by
    rw [zpow_eq_div 10 i]
    push_cast
    field_simp
  have hr : (n : ℚ) * 2 ^ j = ((n * 2 ^ j.toNat * 10 ^ (-i).toNat : ℕ) : ℚ) /
      (10 ^ (-i).toNat * 2 ^ (-j).toNat) := by
    rw [zpow_eq_div 2 j]
    push_cast
    field_simp
  have hp : (0 : ℚ) < 10 ^ (-i).toNat * 2 ^ (-j).toNat := by positivity
  rw [hl, hr]
  show compare (a * 10 ^ i.toNat * 2 ^ (-j).toNat) (n * 2 ^ j.toNat * 10 ^ (-i).toNat) = _
  generalize a * 10 ^ i.toNat * 2 ^ (-j).toNat = x
  generalize n * 2 ^ j.toNat * 10 ^ (-i).toNat = y
  rcases lt_trichotomy x y with h | h | h
  · rw [compare_lt_iff_lt.2 h, eq_comm, compare_lt_iff_lt, div_lt_div_iff_of_pos_right hp]
    exact_mod_cast h
  · rw [h, compare_eq_iff_eq.2 rfl, compare_eq_iff_eq.2 rfl]
  · rw [compare_gt_iff_gt.2 h, eq_comm, compare_gt_iff_gt, div_lt_div_iff_of_pos_right hp]
    exact_mod_cast h

/-! ## Intervals -/

/-- The lower end, in quarters of the last bit of the mantissa. -/
def Binary.lowQuarters (b : Binary) : ℕ := 4 * b.mantissa - if b.narrow then 1 else 2

/-- The upper end, in quarters of the last bit of the mantissa. -/
def Binary.highQuarters (b : Binary) : ℕ := 4 * b.mantissa + 2

/-- So many quarters of the last bit of the mantissa. -/
def Binary.quarters (b : Binary) (n : ℕ) : ℚ := n * 2 ^ (b.exponent - 2)

/-- The number rounds to the double: it lies between the ends, or is one of
them and the mantissa is even. -/
def Binary.Contains (b : Binary) (q : ℚ) : Prop :=
  (b.quarters b.lowQuarters < q ∨ 2 ∣ b.mantissa ∧ b.quarters b.lowQuarters = q) ∧
    (q < b.quarters b.highQuarters ∨ 2 ∣ b.mantissa ∧ q = b.quarters b.highQuarters)

theorem Binary.quarters_lt_iff {m n : ℕ} : b.quarters m < b.quarters n ↔ m < n := by
  have h2 : (0 : ℚ) < 2 ^ (b.exponent - 2) := by positivity
  rw [quarters, quarters, mul_lt_mul_iff_left₀ h2, Nat.cast_lt]

theorem Binary.value_eq_quarters : b.value = b.quarters (4 * b.mantissa) := by
  have h : (2 : ℚ) ^ b.exponent = 2 ^ (b.exponent - 2) * 4 := by
    rw [zpow_sub₀ (by norm_num)]
    norm_num
  rw [value, quarters, h]
  push_cast
  ring

/-- The test in exact arithmetic decides whether a decimal lies in the interval. -/
theorem Binary.readsBack_iff {d : Decimal} : b.readsBack d = true ↔ b.Contains d.value := by
  have hm : (b.mantissa % 2 == 0) = true ↔ 2 ∣ b.mantissa := by
    rw [beq_iff_eq, Nat.dvd_iff_mod_eq_zero]
  have hl : compareScaled d.digits d.exponent b.lowQuarters (b.exponent - 2) =
      compare d.value (b.quarters b.lowQuarters) := compareScaled_eq ..
  have hh : compareScaled d.digits d.exponent b.highQuarters (b.exponent - 2) =
      compare d.value (b.quarters b.highQuarters) := compareScaled_eq ..
  show ((compareScaled d.digits d.exponent b.lowQuarters (b.exponent - 2) == .gt ||
      b.mantissa % 2 == 0 &&
        compareScaled d.digits d.exponent b.lowQuarters (b.exponent - 2) == .eq) &&
    (compareScaled d.digits d.exponent b.highQuarters (b.exponent - 2) == .lt ||
      b.mantissa % 2 == 0 &&
        compareScaled d.digits d.exponent b.highQuarters (b.exponent - 2) == .eq)) = true ↔ _
  rw [hl, hh, Bool.and_eq_true, Bool.or_eq_true, Bool.or_eq_true, Bool.and_eq_true,
    Bool.and_eq_true, hm, beq_iff_eq, beq_iff_eq, beq_iff_eq, beq_iff_eq, compare_gt_iff_gt,
    compare_lt_iff_lt, compare_eq_iff_eq, compare_eq_iff_eq, Contains, @eq_comm _ d.value]

/-! ## What the search answers with -/

/-- A double that is not zero rounds to itself. -/
theorem Binary.contains_value (h : 0 < b.mantissa) : b.Contains b.value := by
  rw [value_eq_quarters]
  refine ⟨.inl (quarters_lt_iff.2 ?_), .inl (quarters_lt_iff.2 ?_)⟩
  · rw [lowQuarters]
    split <;> omega
  · rw [highQuarters]
    omega

/-- Zero rounds to itself, at the end of its interval. -/
theorem Binary.contains_zero (h : b.mantissa = 0) : b.Contains 0 := by
  have hz : b.quarters 0 = 0 := by simp [quarters]
  have hl : b.lowQuarters = 0 := by simp [lowQuarters, h]
  have hh : 0 < b.highQuarters := Nat.succ_pos _
  exact ⟨.inr ⟨h ▸ dvd_zero 2, hl ▸ hz⟩, .inl (hz ▸ quarters_lt_iff.2 hh)⟩

theorem Decimal.value_strip (fuel : ℕ) (d : Decimal) : (d.strip fuel).value = d.value := by
  induction fuel generalizing d with
  | zero => rfl
  | succ fuel ih =>
    rw [strip]
    split
    · rename_i h
      rw [ih, value, value]
      have hd : (d.digits : ℚ) = (d.digits / 10 : ℕ) * 10 := by
        have := Nat.div_mul_cancel (Nat.dvd_of_mod_eq_zero h.2)
        exact_mod_cast this.symm
      rw [hd, zpow_add₀ (by norm_num)]
      ring
    · rfl

/-- A grid answers with a decimal that reads back. -/
theorem Binary.readsBack_of_onGrid {tie : Tie} {e : ℤ} {d : Decimal}
    (h : b.onGrid tie e = some d) : b.readsBack d = true := by
  simp only [onGrid, nearer] at h
  grind

theorem Binary.contains_search (h : 0 < b.mantissa) (tie : Tie) (grids : ℕ) (e : ℤ) :
    b.Contains (b.search tie grids e).value := by
  induction grids generalizing e with
  | zero =>
    have hv : (b.search tie 0 e).value = b.value := by
      rw [search, Decimal.value, value, zpow_eq_div 2 b.exponent, zpow_neg, zpow_natCast]
      have h10 : (10 : ℚ) ^ (-b.exponent).toNat =
          2 ^ (-b.exponent).toNat * 5 ^ (-b.exponent).toNat := by
        rw [← mul_pow]
        norm_num
      simp only [Nat.pow_eq]
      push_cast
      rw [h10]
      field_simp
    rw [hv]
    exact contains_value h
  | succ grids ih =>
    rw [search]
    cases hd : b.onGrid tie e with
    | none => exact ih (e - 1)
    | some d => exact readsBack_iff.1 (readsBack_of_onGrid hd)

/-- **The shortest decimal rounds to the double it was found for.** -/
theorem Binary.contains_shortest (h : 0 < b.mantissa) (tie : Tie) :
    b.Contains (b.shortest tie).value := by
  rw [shortest, Decimal.value_strip]
  exact contains_search h ..

/-! ## Doubles apart -/

/-- The form of a finite double: a mantissa of 53 bits, and all of them unless
the exponent is the least. -/
structure Binary.IsCanonical (b : Binary) : Prop where
  lt : b.mantissa < 2 ^ 53
  exponent_ge : -1074 ≤ b.exponent
  normal : b.exponent = -1074 ∨ 2 ^ 52 ≤ b.mantissa
  narrow_iff : b.narrow = true ↔ b.mantissa = 2 ^ 52 ∧ b.exponent ≠ -1074

/-- The double comes before the other in the order of exponents and mantissas. -/
def Binary.Before (b c : Binary) : Prop :=
  b.exponent < c.exponent ∨ b.exponent = c.exponent ∧ b.mantissa < c.mantissa

/-- The lower end is nearer to the double where the exponent changes. -/
theorem Binary.IsCanonical.lowQuarters_cases (hb : b.IsCanonical) :
    b.mantissa = 2 ^ 52 ∧ b.exponent ≠ -1074 ∧ b.lowQuarters = 4 * b.mantissa - 1 ∨
      ¬ (b.mantissa = 2 ^ 52 ∧ b.exponent ≠ -1074) ∧ b.lowQuarters = 4 * b.mantissa - 2 := by
  rw [lowQuarters]
  by_cases hn : b.narrow = true
  · obtain ⟨hm, he⟩ := hb.narrow_iff.1 hn
    exact .inl ⟨hm, he, by rw [if_pos hn]⟩
  · exact .inr ⟨fun h => hn (hb.narrow_iff.2 h), by rw [if_neg hn]⟩

/-- The ends of a double and of a later one, in quarters of the last bit of the first. -/
theorem Binary.Before.highQuarters_le (hb : b.IsCanonical) (hc : c.IsCanonical) (h : b.Before c)
    {k : ℕ} (hk : c.exponent = b.exponent + k) :
    b.highQuarters < c.lowQuarters * 2 ^ k ∨
      b.highQuarters = c.lowQuarters * 2 ^ k ∧ ¬ (2 ∣ b.mantissa ∧ 2 ∣ c.mantissa) := by
  have hlow := hc.lowQuarters_cases
  have hnormal := hb.normal
  have hnormal' := hc.normal
  have hlt := hb.lt
  have hge := hb.exponent_ge
  rw [highQuarters]
  cases k with
  | zero =>
    have hm : b.mantissa < c.mantissa := by rcases h with h | h <;> omega
    rw [pow_zero, mul_one]
    omega
  | succ k =>
    -- one bit more for the later double, which has all bits of a mantissa
    have hlarge : 2 ^ 54 - 1 ≤ c.lowQuarters := by omega
    have hpow := Nat.one_le_two_pow (n := k)
    have hmul : c.lowQuarters * 2 ≤ c.lowQuarters * 2 ^ (k + 1) :=
      Nat.mul_le_mul_left _ (by omega)
    omega

/-- The interval of a double ends where that of a later one begins at the latest,
and two that touch are not both closed. -/
theorem Binary.Before.high_le_low (hb : b.IsCanonical) (hc : c.IsCanonical) (h : b.Before c) :
    b.quarters b.highQuarters < c.quarters c.lowQuarters ∨
      b.quarters b.highQuarters = c.quarters c.lowQuarters ∧
        ¬ (2 ∣ b.mantissa ∧ 2 ∣ c.mantissa) := by
  obtain ⟨k, hk⟩ : ∃ k : ℕ, c.exponent = b.exponent + k := by
    refine ⟨(c.exponent - b.exponent).toNat, ?_⟩
    rcases h with h | h <;> omega
  have hq : c.quarters c.lowQuarters = b.quarters (c.lowQuarters * 2 ^ k) := by
    have he : c.exponent - 2 = (b.exponent - 2) + k := by omega
    rw [quarters, quarters, he, zpow_add₀ (by norm_num), zpow_natCast]
    push_cast
    ring
  rw [hq, quarters_lt_iff]
  exact (h.highQuarters_le hb hc hk).imp_right fun hn => ⟨congrArg _ hn.1, hn.2⟩

/-- No number rounds to a double and to a later one. -/
theorem Binary.Before.not_contains (hb : b.IsCanonical) (hc : c.IsCanonical) (h : b.Before c)
    (hq : b.Contains q) : ¬ c.Contains q := by
  intro hq'
  have hle : q ≤ b.quarters b.highQuarters := by
    rcases hq.2 with h | h
    · exact h.le
    · exact h.2.le
  have hge : c.quarters c.lowQuarters ≤ q := by
    rcases hq'.1 with h | h
    · exact h.le
    · exact h.2.le
  rcases h.high_le_low hb hc with hl | ⟨hl, hodd⟩
  · exact absurd (hge.trans hle) (not_le_of_gt hl)
  · -- the number is the end that the two have in common
    have hu : q = b.quarters b.highQuarters := le_antisymm hle (hl ▸ hge)
    have heven := hq.2.resolve_left hu.not_lt
    have heven' := hq'.1.resolve_left (hl ▸ hu.not_gt)
    exact hodd ⟨heven.1, heven'.1⟩

/-- **A number rounds to one double at most.** -/
theorem Binary.eq_of_contains (hb : b.IsCanonical) (hc : c.IsCanonical) (hq : b.Contains q)
    (hq' : c.Contains q) : b.exponent = c.exponent ∧ b.mantissa = c.mantissa := by
  have h : b.Before c ∨ c.Before b ∨ b.exponent = c.exponent ∧ b.mantissa = c.mantissa := by
    simp only [Before]
    omega
  rcases h with h | h | h
  · exact absurd hq' (h.not_contains hb hc hq)
  · exact absurd hq (h.not_contains hc hb hq')
  · exact h

/-! ## Bits -/

theorem toNat_fraction (bits : UInt64) :
    (bits &&& 0xFFFFFFFFFFFFF).toNat = bits.toNat % 2 ^ 52 := by
  rw [UInt64.toNat_and]
  exact Nat.and_two_pow_sub_one_eq_mod bits.toNat 52

theorem toNat_biased (bits : UInt64) :
    ((bits >>> 52) &&& 0x7FF).toNat = bits.toNat / 2 ^ 52 % 2 ^ 11 := by
  rw [UInt64.toNat_and, UInt64.toNat_shiftRight]
  show (bits.toNat >>> 52) &&& (2 ^ 11 - 1) = _
  rw [Nat.and_two_pow_sub_one_eq_mod, Nat.shiftRight_eq_div_pow]

theorem shiftRight_sign_eq (bits : UInt64) :
    (bits >>> 63 == 1) = decide (bits.toNat / 2 ^ 63 = 1) := by
  rw [beq_eq_decide, decide_eq_decide, ← UInt64.toNat_inj, UInt64.toNat_shiftRight]
  show bits.toNat >>> 63 = 1 ↔ _
  rw [Nat.shiftRight_eq_div_pow]

theorem storedExponent_eq (bits : BitVec 64) :
    storedExponent bits = bits.toNat / 2 ^ 52 % 2 ^ 11 := by
  rw [storedExponent, unpackExponent, BitVec.toNat_cast, BitVec.extractLsb_toNat,
    Nat.shiftRight_eq_div_pow]
  rfl

/-- The largest exponent is that of NaN and the infinities. -/
theorem storedExponent_lt {x : Float} (h : x.isFinite = true) :
    storedExponent x.toBits.toBitVec < 2047 := by
  have hu : (UnpackedFloat.unpack Format.binary64 x.toBits.toBitVec).isFinite = true := h
  have hlt : storedExponent x.toBits.toBitVec < 2 ^ 11 := BitVec.isLt _
  by_contra hge
  have he : @unpackExponent Format.binary64 x.toBits.toBitVec = -1#_ := by
    apply BitVec.eq_of_toNat_eq
    show storedExponent x.toBits.toBitVec = 2047
    omega
  delta UnpackedFloat.unpack at hu
  rw [if_pos he] at hu
  by_cases hm : @unpackMantissa Format.binary64 x.toBits.toBitVec = 0#_
  · rw [if_pos hm] at hu
    cases hu
  · rw [if_neg hm] at hu
    cases hu

theorem isCanonical_ofFloat {x : Float} (h : x.isFinite = true) :
    (Binary.ofFloat x).IsCanonical := by
  have hlt := storedExponent_lt h
  rw [storedExponent_eq] at hlt
  have hlt : x.toBits.toNat / 2 ^ 52 % 2 ^ 11 < 2047 := hlt
  rw [Binary.ofFloat, Binary.ofBits, toNat_biased, toNat_fraction]
  have hf : x.toBits.toNat % 2 ^ 52 < 2 ^ 52 := Nat.mod_lt _ (by decide)
  generalize x.toBits.toNat / 2 ^ 52 % 2 ^ 11 = biased at hlt
  generalize x.toBits.toNat % 2 ^ 52 = fraction at hf
  simp only [Nat.pow_eq]
  split
  · exact ⟨by simp only; omega, by simp, .inl rfl, by simp⟩
  · refine ⟨?_, ?_, .inr ?_, ?_⟩ <;> simp <;> omega

/-- A double is its sign, its exponent and its mantissa. -/
theorem eq_of_ofFloat {x y : Float} (hs : isNegative x = isNegative y)
    (he : (Binary.ofFloat x).exponent = (Binary.ofFloat y).exponent)
    (hm : (Binary.ofFloat x).mantissa = (Binary.ofFloat y).mantissa) : x = y := by
  have hbits : x.toBits = y.toBits := by
    have hx := x.toBits.toNat_lt
    have hy := y.toBits.toNat_lt
    rw [isNegative, isNegative, shiftRight_sign_eq, shiftRight_sign_eq, decide_eq_decide] at hs
    simp only [Binary.ofFloat, Binary.ofBits, toNat_biased, toNat_fraction, Nat.pow_eq] at he hm
    rw [← UInt64.toNat_inj]
    generalize x.toBits.toNat = a at *
    generalize y.toBits.toNat = b at *
    split at he <;> split at he <;> simp_all <;> omega
  obtain ⟨⟨_, _⟩⟩ := x
  obtain ⟨⟨_, _⟩⟩ := y
  cases hbits
  rfl

end GraphQL.Number
