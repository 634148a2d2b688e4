import GraphQL.Number.Layout
import Mathlib.Algebra.Group.Int.Defs
import Mathlib.Algebra.Group.Nat.Defs

/-!
# Numbers — integers as floats

An integer of 64 bits is a finite float. The argument bounds exponents only:
rounding moves an exponent up by no more than twice the bits of the mantissa
(`fits_roundWithAccuracy`), and the exponent at which floats become infinite
is far beyond what an integer reaches that way.
-/

namespace GraphQL.Number

open Float.Model Float.Model.UnpackedFloat

/-- The float is zero, or finite with so many bits and an exponent up to a bound. -/
inductive Fits (bits : Nat) (bound : Int) : UnpackedFloat → Prop
  | zero (sign : Sign) : Fits bits bound (.zero sign)
  | finite {sign : Sign} {m : Nat} {e : Int} {hm : 0 < m} (hb : m < 2 ^ bits) (he : e ≤ bound) :
      Fits bits bound (.finite sign m e hm)

variable {bits : Nat} {bound : Int} {x : UnpackedFloat}

theorem Fits.mono {larger : Int} (h : Fits bits bound x) (hl : bound ≤ larger) :
    Fits bits larger x := by
  cases h with
  | zero sign => exact .zero sign
  | finite hb he => exact .finite hb (Int.le_trans he hl)

theorem Fits.neg (h : Fits bits bound x) : Fits bits bound x.neg := by
  cases h with
  | zero sign => exact .zero _
  | finite hb he => exact .finite hb he

theorem Fits.isFinite (h : Fits bits bound x) : x.isFinite = true := by
  cases h <;> rfl

/-! ## Rounding -/

theorem mantissa_shiftRight_le (em : ExtendedMantissa) (n : Nat) :
    (em >>> n).mantissa ≤ em.mantissa := by
  show (n.repeat ExtendedMantissa.shiftRightOne em).mantissa ≤ em.mantissa
  induction n with
  | zero => exact Nat.le_refl _
  | succ n ih =>
    show (n.repeat ExtendedMantissa.shiftRightOne em).mantissa / 2 ≤ em.mantissa
    omega

theorem roundedMantissa_le (em : ExtendedMantissa) : em.roundedMantissa ≤ em.mantissa + 1 := by
  unfold ExtendedMantissa.roundedMantissa Accuracy.roundToNearestEven
  split <;> omega

theorem log2_lt_of_lt {m : Nat} (h : m < 2 ^ bits) (hb : 0 < bits) : m.log2 < bits := by
  by_cases hm : m = 0
  · subst hm
    simpa using hb
  · exact (Nat.log2_lt hm).2 h

theorem mantissa_shiftToTargetExponent_le (m : Nat) (e : Int) :
    (shiftToTargetExponent Format.binary64 m e .exact).1.mantissa ≤ m :=
  mantissa_shiftRight_le ⟨m, false, false⟩ _

theorem mantissaBits_binary64 : Format.binary64.mantissaBits = 53 := rfl

theorem minExponent_binary64 : Format.binary64.minExponent = -1074 := rfl

/-- A shift moves the exponent up by at most the bits of the mantissa. -/
theorem exponent_shiftToTargetExponent_le {m : Nat} (e : Int) (h : m < 2 ^ bits)
    (hb : 0 < bits) :
    (shiftToTargetExponent Format.binary64 m e .exact).2 ≤ max e (-1074) + bits := by
  have := log2_lt_of_lt h hb
  simp only [shiftToTargetExponent, shiftToExponent, Format.targetExponent, totalExponent,
    minExponent_binary64]
  omega

/-- Rounding shifts twice, since the rounded mantissa may have one bit more. -/
theorem fits_roundWithAccuracy {m : Nat} {e : Int} (h : m < 2 ^ bits) (hb : 0 < bits)
    (sign : Sign) :
    Fits (bits + 1) (max e (-1074) + 2 * bits + 1)
      (roundWithAccuracy Format.binary64 sign m e .exact) := by
  -- the mantissa is shifted before and after it is rounded up
  have hfirst := exponent_shiftToTargetExponent_le e h hb
  have hm := mantissa_shiftToTargetExponent_le m e
  unfold roundWithAccuracy
  generalize shiftToTargetExponent Format.binary64 m e .exact = first at hfirst hm
  obtain ⟨em, e₁⟩ := first
  have hr : em.roundedMantissa < 2 ^ (bits + 1) := by
    have := roundedMantissa_le em
    have : em.mantissa ≤ m := hm
    rw [Nat.pow_succ]
    omega
  have hsecond := exponent_shiftToTargetExponent_le e₁ hr (Nat.succ_pos bits)
  have hle := mantissa_shiftToTargetExponent_le em.roundedMantissa e₁
  dsimp only at hfirst ⊢
  by_cases hz :
      (shiftToTargetExponent Format.binary64 em.roundedMantissa e₁ .exact).1.mantissa = 0
  · rw [dif_pos hz]
    exact .zero sign
  · rw [dif_neg hz]
    exact .finite (Nat.lt_of_le_of_lt hle hr) (by omega)

/-- An integer is first given room for the 53 bits of a mantissa. -/
theorem fits_round {m : Nat} (h : m < 2 ^ bits) (hb : 0 < bits) (sign : Sign) :
    Fits (bits + 53) (2 * (bits + 52) + 1) (UnpackedFloat.round Format.binary64 sign m 0) := by
  unfold UnpackedFloat.round decreaseExponent
  simp only
  generalize hk : (0 - Format.binary64.targetExponent (totalExponent m 0)).toNat = k
  have hle : k ≤ 52 := by
    simp only [Format.targetExponent, mantissaBits_binary64, minExponent_binary64,
      totalExponent] at hk
    omega
  have hs : m <<< k < 2 ^ (bits + 52) := by
    rw [Nat.shiftLeft_eq, Nat.pow_add]
    have := Nat.pow_le_pow_right Nat.zero_lt_two hle
    exact Nat.mul_lt_mul_of_lt_of_le h this (Nat.two_pow_pos 52)
  refine (fits_roundWithAccuracy hs (by omega) sign).mono ?_
  omega

theorem Fits.mul {bits' : Nat} {bound' : Int} {y : UnpackedFloat} (hx : Fits bits bound x)
    (hy : Fits bits' bound' y) (hb : 0 < bits) :
    Fits (bits + bits' + 1) (max (bound + bound') (-1074) + 2 * (bits + bits') + 1)
      (UnpackedFloat.mul Format.binary64 x y) := by
  cases hx with
  | zero sign => cases hy <;> exact .zero _
  | @finite _ m e _ hm he =>
    cases hy with
    | zero sign => exact .zero _
    | @finite _ m' e' _ hm' he' =>
      have hp : m * m' < 2 ^ (bits + bits') := by
        rw [Nat.pow_add]
        exact Nat.mul_lt_mul'' hm hm'
      refine (fits_roundWithAccuracy hp (by omega) _).mono ?_
      omega

/-! ## Packing -/

/-- The exponent as a double stores it. -/
def storedExponent (b : BitVec 64) : Nat := (@unpackExponent Format.binary64 b).toNat

theorem storedExponent_pack (h : Fits bits bound x) (hb : bound < 972) :
    storedExponent (UnpackedFloat.pack Format.binary64 x) ≤ (bound + 1075).toNat := by
  unfold storedExponent
  cases h with
  | zero sign =>
    show (@unpackExponent Format.binary64 (packedZero _ sign)).toNat ≤ _
    simp [packedZero]
  | @finite sign m e hm _ he =>
    have hbias : (e + (Format.binary64.exponentBias : Int) + (52 : Nat)).toNat =
        (e + 1075).toNat := by
      show (e + 1023 + 52).toNat = _
      omega
    have hlt : ¬ 2 ^ 11 ≤ (e + 1075).toNat + 1 := by omega
    show (@unpackExponent Format.binary64 (if 2 ^ 11 ≤ _ + 1 then _ else
      if m.log2 + 1 = 53 then _ else _)).toNat ≤ _
    rw [hbias, if_neg hlt]
    split
    · rw [unpackExponent_packComponents, BitVec.toNat_ofNat]
      exact Nat.le_trans (Nat.mod_le _ _) (by omega)
    · rw [unpackExponent_packComponents]
      simp

/-- A bit pattern whose stored exponent is not the largest one is a finite
float with a mantissa of 53 bits. -/
theorem fits_unpack {b : BitVec 64} (h : storedExponent b < 2047) :
    Fits 53 (storedExponent b - 1074) (UnpackedFloat.unpack Format.binary64 b) := by
  have hne : ¬ @unpackExponent Format.binary64 b = -1#_ := by
    intro he
    rw [storedExponent, he] at h
    exact absurd h (by decide)
  delta UnpackedFloat.unpack
  rw [if_neg hne]
  by_cases he : @unpackExponent Format.binary64 b = 0#_
  · rw [if_pos he]
    by_cases hm : @unpackMantissa Format.binary64 b = 0#_
    · rw [dif_pos hm]
      exact .zero _
    · rw [dif_neg hm]
      have hlt := (@unpackMantissa Format.binary64 b).isLt
      refine .finite (Nat.lt_of_lt_of_le hlt (by decide)) ?_
      show (storedExponent b : Int) - (1023 + 52) + 1 ≤ _
      omega
  · rw [if_neg he]
    refine .finite (BitVec.isLt _) ?_
    show (storedExponent b : Int) - (1023 + 52) ≤ _
    omega

/-- A float below the largest exponent is packed as a finite float, with no
more than one added to the exponent. -/
theorem Fits.unpack_pack (h : Fits bits bound x) (hb : bound < 972) :
    Fits 53 (max (bound + 1) (-1074)) (Float.Model.pack x).unpack := by
  have he := storedExponent_pack h hb
  have hu : Fits 53 (storedExponent (UnpackedFloat.pack Format.binary64 x) - 1074)
      (Float.Model.pack x).unpack := fits_unpack (by omega)
  exact hu.mono (by omega)

/-! ## Integers -/

theorem fits_ofUInt64 (n : UInt64) : Fits 53 234 (Float.Model.ofUInt64 n).unpack := by
  have h : Fits 117 233 (UnpackedFloat.ofUInt64 Format.binary64 n) := by
    show Fits 117 233 (UnpackedFloat.normalize Format.binary64 (n.toNat : Int) 0 .positive)
    unfold UnpackedFloat.normalize
    split
    · rename_i hc
      have := Int.compare_eq_lt.1 hc
      omega
    · exact .zero _
    · have hr := fits_round n.toNat_lt (by decide) .positive
      exact hr
  exact h.unpack_pack (by decide)

/-- A number with an exponent of ten that is not scaled. -/
theorem fits_ofScientific {n : Nat} (h : n < 2 ^ 64) :
    Fits 53 484 (Float.Model.ofScientific n 0).unpack := by
  have hp : Fits 122 483 (UnpackedFloat.ofScientific Format.binary64 n 0) := by
    unfold UnpackedFloat.ofScientific
    by_cases hn : n = 0
    · rw [dif_pos hn]
      exact .zero _
    · rw [dif_neg hn]
      have hs : n <<< Format.binary64.mantissaBits < 2 ^ 117 := by
        rw [Nat.shiftLeft_eq]
        show n * 2 ^ 53 < 2 ^ 117
        omega
      have hlow : ¬ (0 : Int) < -((2 ^ 11 : Int) + n.log2) := by omega
      rw [if_neg (by decide), if_neg hlow, if_pos (by decide)]
      have hx : ∀ hm, Fits 117 0 (.finite .positive (n <<< Format.binary64.mantissaBits)
          (-Format.binary64.mantissaBits) hm) := fun hm => .finite hs (by decide)
      have hone : Fits 4 0 (.finite .positive (10 ^ (0 : Int).toNat) 0 (by decide)) :=
        .finite (by decide) (by decide)
      exact ((hx _).mul hone (by decide)).mono (by decide)
  exact (hp.unpack_pack (by decide)).mono (by decide)

/-- A natural number of 64 bits is a finite float. -/
theorem fits_ofNat {n : Nat} (h : n < 2 ^ 64) : Fits 53 484 (Float.ofNat n).toModel.unpack := by
  by_cases hn : n < 2 ^ 53
  · -- the fast path multiplies by the first power of ten
    have hfast : Float.ofNat n = n.toUInt64.toFloat * Float.ofBits 0x3FF0000000000000 := by
      show Float.ofScientific n false 0 = _
      rw [Float.ofScientific, dif_pos ⟨hn, by decide⟩]
      rfl
    have hone : Fits 53 0 (Float.ofBits 0x3FF0000000000000).toModel.unpack := by
      have he : ∃ hm, (Float.ofBits 0x3FF0000000000000).toModel.unpack =
          .finite .positive (2 ^ 52) (-52) hm := ⟨by decide, rfl⟩
      obtain ⟨hm, he⟩ := he
      rw [he]
      exact .finite (by decide) (by decide)
    rw [hfast]
    exact (((fits_ofUInt64 n.toUInt64).mul hone (by decide)).unpack_pack (by decide)).mono
      (by decide)
  · have hslow : Float.ofNat n = Float.ofModel (Float.Model.ofScientific n 0) := by
      show Float.ofScientific n false 0 = _
      rw [Float.ofScientific, dif_neg fun hm => hn hm.1]
      rfl
    rw [hslow]
    exact fits_ofScientific h

/-- **Integers of 64 bits are finite floats.** -/
theorem isFinite_ofInt (n : Int64) : (Float.ofInt n.toInt).isFinite = true := by
  have hlo := n.le_toInt
  have hhi := n.toInt_lt
  generalize n.toInt = i at hlo hhi
  cases i with
  | ofNat k =>
    rw [Int.ofNat_eq_natCast] at hhi
    exact (fits_ofNat (by omega)).isFinite
  | negSucc k =>
    have hk : Fits 53 484 (Float.ofNat (k + 1)).toModel.unpack := fits_ofNat (by omega)
    exact (hk.neg.unpack_pack (by decide)).isFinite

end GraphQL.Number
