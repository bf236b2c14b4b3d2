import DesignBrief.Proofs.Doubles.Range

/-!
Quotients of doubles. A finite double stays finite when it is divided by something that is at least
2, `Double.isFinite_div`, and the powers of ten are, `Double.large_powerOfTen`. To round a double to
hundredths one has to multiply it by a hundred first, and only that can leave the range of doubles:
`Rounding.isFinite_toHundredths_iff`.
-/

namespace DesignBrief.Double

open Float.Model Float.Model.UnpackedFloat

/-! ## Numbers of places -/

theorem log2_div_two_pow {m k : Nat} (hm : 0 < m) (hk : k ≤ m.log2) :
    (m / 2 ^ k).log2 = m.log2 - k := by
  obtain ⟨hlow, hhigh⟩ := (Nat.log2_eq_iff (Nat.ne_of_gt hm)).mp rfl
  have hlow' : 2 ^ (m.log2 - k) ≤ m / 2 ^ k := by
    rw [Nat.le_div_iff_mul_le (Nat.two_pow_pos k), ← Nat.pow_add, Nat.sub_add_cancel hk]
    exact hlow
  have hhigh' : m / 2 ^ k < 2 ^ (m.log2 - k + 1) := by
    rw [Nat.div_lt_iff_lt_mul (Nat.two_pow_pos k), ← Nat.pow_add]
    rwa [show m.log2 - k + 1 + k = m.log2 + 1 by omega]
  have hne : m / 2 ^ k ≠ 0 := Nat.ne_of_gt (Nat.lt_of_lt_of_le (Nat.two_pow_pos _) hlow')
  exact (Nat.log2_eq_iff hne).mpr ⟨hlow', hhigh'⟩

theorem pos_of_le_log2 {m k : Nat} (hk : 0 < k) (h : k ≤ m.log2) : 0 < m := by
  rcases Nat.eq_zero_or_pos m with rfl | hm
  · rw [Nat.log2_zero] at h
    omega
  · exact hm

/-- The quotient of two numbers has at most one place more than the difference of their places. -/
theorem log2_div_le {m n : Nat} (hn : 0 < n) (hq : 0 < m / n) :
    (m / n).log2 + n.log2 ≤ m.log2 := by
  have hm : m ≠ 0 := by
    rintro rfl
    rw [Nat.zero_div] at hq
    exact Nat.lt_irrefl 0 hq
  refine (Nat.le_log2 hm).mpr ?_
  calc 2 ^ ((m / n).log2 + n.log2) = 2 ^ (m / n).log2 * 2 ^ n.log2 := Nat.pow_add ..
    _ ≤ m / n * n :=
      Nat.mul_le_mul (Nat.log2_self_le (Nat.ne_of_gt hq)) (Nat.log2_self_le (Nat.ne_of_gt hn))
    _ ≤ m := Nat.div_mul_le_self m n

theorem log2_two_pow_mul_lt {a k n : Nat} (hn : 0 < n) (h : n < 2 ^ k) :
    (2 ^ a * n).log2 < a + k := by
  refine (Nat.log2_lt (Nat.ne_of_gt (Nat.mul_pos (Nat.two_pow_pos a) hn))).mpr ?_
  rw [Nat.pow_add]
  exact Nat.mul_lt_mul_of_pos_left h (Nat.two_pow_pos a)

/-! ## Large doubles -/

/-- What is at least 2 in magnitude, infinities included. -/
def Large : UnpackedFloat → Prop
  | .infinity _ => True
  | .finite _ m e _ => 2 ≤ totalExponent m e
  | _ => False

instance : DecidablePred Large
  | .infinity _ => .isTrue trivial
  | .finite _ m e _ => inferInstanceAs (Decidable (2 ≤ totalExponent m e))
  | .zero _ => .isFalse id
  | .notANumber => .isFalse id

theorem le_log2_implicit (v : BitVec 52) : 52 ≤ (1#1 ++ v).toNat.log2 := by
  have hle : 2 ^ 52 ≤ (1#1 ++ v).toNat := by
    rw [BitVec.toNat_append]
    exact Nat.left_le_or
  exact (Nat.le_log2 (Nat.ne_of_gt (Nat.lt_of_lt_of_le (by decide) hle))).mpr hle

/-- A number that fills the mantissa keeps its exponent when it is packed, unless it becomes an
infinity. -/
theorem pack_of_full {s : Sign} {m : Nat} {e : Int} {hm : 0 < m} (hlog : m.log2 = 52) :
    UnpackedFloat.pack Format.binary64 (.finite s m e hm) =
      if 971 < e then packedInfinity Format.binary64 s
      else packComponents Format.binary64 s (BitVec.ofNat 11 (e + 1075).toNat)
        (BitVec.ofNat 52 m) := by
  have hbiased : (e + (1023 : Nat) + (52 : Nat)).toNat = (e + 1075).toNat := by omega
  show (if 2 ^ 11 ≤ (e + (1023 : Nat) + (52 : Nat)).toNat + 1 then packedInfinity Format.binary64 s
    else if m.log2 + 1 = 53 then
      packComponents Format.binary64 s (BitVec.ofNat 11 (e + (1023 : Nat) + (52 : Nat)).toNat)
        (BitVec.ofNat 52 m)
    else packComponents Format.binary64 s 0#11 (BitVec.ofNat 52 m)) = _
  rw [hbiased, hlog, if_pos rfl]
  by_cases he : 971 < e
  · rw [if_pos he, if_pos (by omega)]
  · rw [if_neg he, if_neg (by omega)]

theorem large_unpack_pack {s : Sign} {m : Nat} {e : Int} {hm : 0 < m} (hlog : m.log2 = 52)
    (he : -51 ≤ e) : Large (Float.Model.pack (.finite s m e hm)).unpack := by
  show Large (UnpackedFloat.unpack Format.binary64 (UnpackedFloat.pack Format.binary64 _))
  rw [pack_of_full hlog]
  split
  · simp [packedInfinity, UnpackedFloat.unpack, Large]
  · have hexp : (BitVec.ofNat 11 (e + 1075).toNat).toNat = (e + 1075).toNat :=
      Nat.mod_eq_of_lt (by omega)
    have hones : BitVec.ofNat 11 (e + 1075).toNat ≠ -1#11 := by
      intro h
      have := hexp.symm.trans (congrArg BitVec.toNat h)
      have : (e + 1075).toNat = 2047 := this
      omega
    have hzero : BitVec.ofNat 11 (e + 1075).toNat ≠ 0#11 := by
      intro h
      have : (e + 1075).toNat = 0 := hexp.symm.trans (congrArg BitVec.toNat h)
      omega
    unfold UnpackedFloat.unpack
    simp only [unpackExponent_packComponents, unpackMantissa_packComponents]
    rw [if_neg hones, if_neg hzero]
    show 2 ≤ ((1#1 ++ BitVec.ofNat 52 m).toNat.log2 : Int) + 1 +
      ((BitVec.ofNat 11 (e + 1075).toNat).toNat - (Format.binary64.exponentBias + 52))
    have himplicit := le_log2_implicit (BitVec.ofNat 52 m)
    rw [hexp, exponentBias_binary64]
    omega

/-- What is at least 2 is rounded to something that is at least 2, if it does not have to be
brought down to a lower exponent first. -/
theorem large_roundWithAccuracy {s : Sign} {m : Nat} {e : Int} {a : Accuracy}
    (hm : 52 ≤ m.log2) (ht : 2 ≤ totalExponent m e) :
    Large (Float.Model.pack (roundWithAccuracy Format.binary64 s m e a)).unpack := by
  have hmantissa := mantissa_shiftToTargetExponent m e a
  have hround := (roundedMantissa_bounds (shiftToTargetExponent Format.binary64 m e a).1).1
  have hexp := exponent_shiftToTargetExponent m e a
  unfold roundWithAccuracy
  generalize shiftToTargetExponent Format.binary64 m e a = shifted at hmantissa hround hexp
  obtain ⟨em, e₁⟩ := shifted
  simp only at hmantissa hround hexp ⊢
  generalize em.roundedMantissa = r at hround
  unfold totalExponent at ht hmantissa hexp
  have hr : 52 ≤ r.log2 := by
    have hlog := log2_div_two_pow (pos_of_le_log2 (by decide) hm)
      (show (max ((m.log2 : Int) + 1 + e - 53) (-1074) - e).toNat ≤ m.log2 by omega)
    rw [← hmantissa] at hlog
    have hfull : em.mantissa.log2 = 52 := by omega
    have hle : 2 ^ 52 ≤ em.mantissa := by
      rw [← hfull]
      exact Nat.log2_self_le (Nat.ne_of_gt (pos_of_le_log2 (by decide) (Nat.le_of_eq hfull.symm)))
    exact (Nat.le_log2 (by omega)).mpr (Nat.le_trans hle hround)
  have hlast := mantissa_shiftToTargetExponent r e₁ .exact
  have hlastexp := exponent_shiftToTargetExponent r e₁ .exact
  generalize shiftToTargetExponent Format.binary64 r e₁ .exact = last at hlast hlastexp
  unfold totalExponent at hlast hlastexp
  have hfull : last.1.mantissa.log2 = 52 := by
    have hlog := log2_div_two_pow (pos_of_le_log2 (by decide) hr)
      (show (max ((r.log2 : Int) + 1 + e₁ - 53) (-1074) - e₁).toNat ≤ r.log2 by omega)
    rw [hlast, hlog]
    omega
  split
  · rename_i hzero
    rw [hzero] at hfull
    cases hfull
  · refine large_unpack_pack hfull ?_
    omega

/-! ## Powers of ten -/

/-- Beyond the powers of ten that are doubles, the nearest double is found by rounding. -/
theorem toModel_powerOfTen {k : Nat} (hslow : 22 < k) (hk : k ≤ 308) :
    (Float.ofScientific 1 false k).toModel =
      .pack (roundWithAccuracy Format.binary64 .positive (2 ^ 53 * 10 ^ k) (-53) .exact) := by
  have hround : UnpackedFloat.ofScientific Format.binary64 1 k = roundWithAccuracy Format.binary64
      .positive (2 ^ 53 * 10 ^ k) (-53) .exact := by
    unfold UnpackedFloat.ofScientific
    have hhigh : ¬ (k : Int) > 2 ^ 11 := by omega
    have hlow : ¬ (k : Int) < -((2 ^ 11 : Int) + Nat.log2 1) := by omega
    rw [dif_neg (by decide), if_neg hhigh, if_neg hlow, if_pos (by omega)]
    rfl
  unfold Float.ofScientific
  rw [dif_neg (by omega), ← hround]
  rfl

/-- The powers of ten that are doubles. -/
theorem powerOfTen_fast : ∀ k < 23, (Float.ofScientific 1 false k).isFinite = true ∧
    (0 < k → Large (Float.ofScientific 1 false k).toModel.unpack) := by
  decide

/-- The powers of ten from 10 on are at least 2 as doubles. -/
theorem large_powerOfTen {k : Nat} (hpos : 0 < k) (hk : k ≤ 308) :
    Large (Float.ofScientific 1 false k).toModel.unpack := by
  by_cases hfast : k ≤ 22
  · exact (powerOfTen_fast k (by omega)).2 hpos
  · have hten : 10 ≤ 10 ^ k := Nat.le_self_pow (Nat.ne_of_gt hpos) 10
    have hlog : 54 ≤ (2 ^ 53 * 10 ^ k).log2 := (Nat.le_log2 (by omega)).mpr (by omega)
    rw [toModel_powerOfTen (by omega) hk]
    refine large_roundWithAccuracy (by omega) ?_
    unfold totalExponent
    omega

theorem powerOfTen_lt : ∀ k < 308, 10 ^ k < 2 ^ 1020 := by
  decide +kernel

/-- The powers of ten up to `10 ^ 308` are in the range of doubles. -/
theorem isFinite_powerOfTen {k : Nat} (hk : k ≤ 308) :
    (Float.ofScientific 1 false k).isFinite = true := by
  by_cases hfast : k ≤ 22
  · exact (powerOfTen_fast k (by omega)).1
  -- The last one lies above `2 ^ 1023`, where rounding may leave the range.
  by_cases hlast : k = 308
  · subst hlast
    decide +kernel
  · have hlog : (2 ^ 53 * 10 ^ k).log2 < 53 + 1020 :=
      log2_two_pow_mul_lt (Nat.pow_pos (by decide)) (powerOfTen_lt k (by omega))
    show (Float.ofModel (Float.ofScientific 1 false k).toModel).isFinite = true
    rw [toModel_powerOfTen (by omega) hk, isFinite_pack_iff]
    refine fits_roundWithAccuracy (by decide) ?_
    unfold totalExponent
    omega

/-! ## Dividing -/

/-- The quotient of a finite double and something that is at least 2 fits. -/
theorem fits_quotient {s : Sign} {m n : Nat} {e f : Int} (hn : 0 < n) (he : e ≤ 971)
    (hm : m.log2 < 53) (hlarge : 2 ≤ totalExponent n f) :
    Fits (let (q, t, acc) := divCore Format.binary64 m e n f
      roundWithAccuracy Format.binary64 s q t acc) := by
  unfold divCore
  simp only [targetExponent_binary64]
  unfold totalExponent at hlarge ⊢
  generalize ht : min (e - f) (max ((m.log2 : Int) + 1 + e - (n.log2 + 1 + f) - 53) (-1074)) = t
  refine fits_roundWithAccuracy (by omega) ?_
  generalize hk : (e - f - t).toNat = k
  unfold totalExponent
  rcases Nat.eq_zero_or_pos ((m <<< k) / n) with hq | hq
  · rw [hq]
    show (0 : Int) + 1 + t ≤ 1023
    omega
  · have hlog := log2_div_le hn hq
    have hshift : (m <<< k).log2 ≤ m.log2 + k := by
      rcases Nat.eq_zero_or_pos m with rfl | hpos
      · simp
      · exact Nat.le_of_eq (log2_shiftLeft hpos k)
    omega

/-- A finite double divided by something that is at least 2 is finite. -/
theorem isFinite_div {x y : Float} (hx : x.isFinite = true) (hy : Large y.toModel.unpack) :
    (x / y).isFinite = true := by
  refine (isFinite_pack_iff
    (UnpackedFloat.div Format.binary64 x.toModel.unpack y.toModel.unpack)).mpr ?_
  have hfits := fits_unpack hx
  cases hxu : x.toModel.unpack with
  | notANumber => rw [hxu] at hfits; exact hfits.elim
  | infinity s => rw [hxu] at hfits; exact hfits.elim
  | zero s =>
    generalize y.toModel.unpack = v at hy
    cases v with
    | notANumber => exact hy.elim
    | zero s' => exact hy.elim
    | infinity s' => trivial
    | finite s' m' e' hm' => trivial
  | finite s m e hm =>
    have he : e ≤ 971 := by
      rw [hxu] at hfits
      exact hfits
    generalize y.toModel.unpack = v at hy
    cases v with
    | notANumber => exact hy.elim
    | zero s' => exact hy.elim
    | infinity s' => trivial
    | finite s' m' e' hm' => exact fits_quotient hm' he (log2_mantissa_lt hxu) hy

/-- What is not finite does not become finite by a division. -/
theorem isFinite_of_div {x y : Float} (hy : Large y.toModel.unpack)
    (h : (x / y).isFinite = true) : x.isFinite = true := by
  have hfits := (isFinite_pack_iff
    (UnpackedFloat.div Format.binary64 x.toModel.unpack y.toModel.unpack)).mp h
  show x.toModel.unpack.isFinite = true
  generalize x.toModel.unpack = u at hfits
  generalize y.toModel.unpack = v at hy hfits
  cases u with
  | zero s => rfl
  | finite s m e hm => rfl
  | notANumber => exact hfits.elim
  | infinity s => cases v <;> first | exact hy.elim | exact hfits.elim

end DesignBrief.Double

namespace DesignBrief.Rounding

open Double

theorem isFinite_signed (s : Float.Model.UnpackedFloat.Sign) (n : Nat) :
    (signed s n).isFinite = true := by
  cases s with
  | positive => exact isFinite_ofUInt64 _
  | negative => exact isFinite_neg (isFinite_ofUInt64 _)

/-- A double is finite if and only if the nearest whole number is. -/
theorem isFinite_toWhole (x : Float) : (toWhole x).isFinite = x.isFinite := by
  unfold toWhole
  split
  · rename_i s m e hm hx
    have hfinite : x.isFinite = true := congrArg Float.Model.UnpackedFloat.isFinite hx
    split
    · rfl
    · rw [isFinite_signed, hfinite]
  · rfl

/-- Rounding to hundredths leaves the range if and only if the number of hundredths does. -/
theorem isFinite_toHundredths_iff (x : Float) :
    (toHundredths x).isFinite = true ↔ (x * 100).isFinite = true := by
  have hlarge : Large (100 : Float).toModel.unpack := by decide
  rw [toHundredths, ← isFinite_toWhole (x * 100)]
  exact ⟨isFinite_of_div hlarge, fun h => isFinite_div h hlarge⟩

theorem isFinite_of_ratio? {num den r : Float} (h : ratio? num den = some r) :
    r.isFinite = true := by
  unfold ratio? at h
  split at h
  · cases h
  · simp only [Option.ite_none_right_eq_some, Option.some.injEq] at h
    obtain ⟨hfinite, rfl⟩ := h
    exact hfinite

end DesignBrief.Rounding
