import DesignBrief.Decimal.Rounding
import Mathlib

/-!
The range of doubles. A number is packed as a finite double if and only if its exponent is not too
large, `Double.isFinite_pack_iff`. Rounding raises an exponent by no more than it has to, so that
what lies below `2 ^ 1023` always becomes a finite double: `Double.fits_roundWithAccuracy`.
-/

namespace DesignBrief.Double

open Float.Model Float.Model.UnpackedFloat

/-! ## Packing -/

/-- What is packed as a finite double: a zero, or a number whose exponent is not too large. The
bound belongs to the largest biased exponent that is not all ones, `971 + 1075 = 2046`. -/
def Fits : UnpackedFloat → Prop
  | .zero _ => True
  | .finite _ _ e _ => e ≤ 971
  | _ => False

theorem isFinite_of_fits {u : UnpackedFloat} (h : Fits u) : u.isFinite = true := by
  cases u with
  | zero s => rfl
  | finite s m e hm => rfl
  | notANumber => exact h.elim
  | infinity s => exact h.elim

theorem exponentBias_binary64 : Format.binary64.exponentBias = 1023 := rfl

theorem toNat_lt_of_ne_ones {v : BitVec 11} (h : v ≠ -1#11) : v.toNat < 2047 := by
  have hne : v.toNat ≠ 2047 := fun hv => h (BitVec.eq_of_toNat_eq hv)
  have hlt := v.isLt
  omega

/-- The exponent of a double is all ones if and only if the double is not finite. -/
theorem unpack_cases (b : BitVec Format.binary64.numBits) :
    (unpackExponent b = -1#11 ∧ (UnpackedFloat.unpack Format.binary64 b).isFinite = false) ∨
      (unpackExponent b ≠ -1#11 ∧ Fits (UnpackedFloat.unpack Format.binary64 b)) := by
  fun_cases UnpackedFloat.unpack Format.binary64 b with
  | case1 mantissa exponent signVec sign hones hzero => exact .inl ⟨hones, rfl⟩
  | case2 mantissa exponent hones hzero => exact .inl ⟨hones, rfl⟩
  | case3 mantissa exponent signVec sign hones hexp hzero => exact .inr ⟨hones, trivial⟩
  | case4 mantissa exponentVec exponent signVec sign hones hexp hzero =>
    have hlt := toNat_lt_of_ne_ones hones
    refine .inr ⟨hones, ?_⟩
    show (exponentVec.toNat : Int) - (Format.binary64.exponentBias + 52) + 1 ≤ 971
    rw [hexp]
    decide
  | case5 mantissa exponentVec exponent signVec sign hones hexp =>
    have hlt := toNat_lt_of_ne_ones hones
    refine .inr ⟨hones, ?_⟩
    show (exponentVec.toNat : Int) - (Format.binary64.exponentBias + 52) ≤ 971
    rw [exponentBias_binary64]
    omega

/-- An exponent that is not too large is packed as it is, a larger one as that of an infinity. -/
theorem unpackExponent_pack_iff (u : UnpackedFloat) :
    unpackExponent (UnpackedFloat.pack Format.binary64 u) = -1#11 ↔ ¬ Fits u := by
  fun_cases UnpackedFloat.pack Format.binary64 u with
  | case1 => simp [packedNaN, Fits]
  | case2 s => simp [packedInfinity, Fits]
  | case3 s => simp [packedZero, Fits]
  | case4 s m e hm biased hmany =>
    have he : ¬ e ≤ 971 := by
      have hlarge : 2 ^ 11 ≤ (e + (1023 : Nat) + (52 : Nat)).toNat + 1 := hmany
      omega
    simp [packedInfinity, Fits, he]
  | case5 s m e hm bits biased hfew hnormal =>
    have hsmall : ¬ 2 ^ 11 ≤ (e + (1023 : Nat) + (52 : Nat)).toNat + 1 := hfew
    have he : e ≤ 971 := by omega
    rw [unpackExponent_packComponents]
    refine iff_of_false (fun hones => ?_) fun h => h he
    have hnat : (e + (1023 : Nat) + (52 : Nat)).toNat % 2 ^ 11 = 2047 :=
      congrArg BitVec.toNat hones
    omega
  | case6 s m e hm bits biased hfew hsubnormal =>
    have hsmall : ¬ 2 ^ 11 ≤ (e + (1023 : Nat) + (52 : Nat)).toNat + 1 := hfew
    have he : e ≤ 971 := by omega
    rw [unpackExponent_packComponents]
    exact iff_of_false (by decide) fun h => h he

/-- A number is packed as a finite double if and only if it fits. -/
theorem isFinite_pack_iff (u : UnpackedFloat) :
    (Float.ofModel (Float.Model.pack u)).isFinite = true ↔ Fits u := by
  have hpack := unpackExponent_pack_iff u
  rcases unpack_cases (UnpackedFloat.pack Format.binary64 u) with ⟨hones, hnot⟩ | ⟨hne, hfits⟩
  · refine iff_of_false (fun h => ?_) (hpack.mp hones)
    exact absurd (h.symm.trans hnot) (by decide)
  · exact iff_of_true (isFinite_of_fits hfits) (not_not.mp fun h => hne (hpack.mpr h))

theorem fits_unpack {x : Float} (h : x.isFinite = true) : Fits x.toModel.unpack := by
  rcases unpack_cases x.toModel.toBits.toBitVec with ⟨_, hnot⟩ | ⟨_, hfits⟩
  · exact absurd (h.symm.trans hnot) (by decide)
  · exact hfits

/-- The mantissa of a finite double has at most 53 bits. -/
theorem log2_mantissa_lt {x : Float} {s : Sign} {m : Nat} {e : Int} {hm : 0 < m}
    (h : x.toModel.unpack = .finite s m e hm) : m.log2 < 53 := by
  have hbound (k : Nat) (v : BitVec k) (hk : k ≤ 53) (hv : v.toNat = m) : m.log2 < 53 := by
    refine (Nat.log2_lt (Nat.ne_of_gt hm)).mpr ?_
    rw [← hv]
    exact Nat.lt_of_lt_of_le v.isLt (Nat.pow_le_pow_right (by decide) hk)
  change UnpackedFloat.unpack Format.binary64 x.toModel.toBits.toBitVec = _ at h
  revert h
  fun_cases UnpackedFloat.unpack Format.binary64 x.toModel.toBits.toBitVec with
  | case1 => intro h; cases h
  | case2 => intro h; cases h
  | case3 => intro h; cases h
  | case4 =>
    intro h
    injection h with _ hmantissa
    exact hbound 52 _ (by decide) hmantissa
  | case5 =>
    intro h
    injection h with _ hmantissa
    exact hbound 53 _ (by decide) hmantissa

/-! ## Rounding -/

theorem targetExponent_binary64 (t : Int) :
    Format.binary64.targetExponent t = max (t - 53) (-1074) := rfl

theorem mantissa_shiftRight (em : ExtendedMantissa) (k : Nat) :
    (em >>> k).mantissa = em.mantissa / 2 ^ k := by
  induction k with
  | zero => exact (Nat.div_one _).symm
  | succ k ih =>
    show (em >>> k).mantissa / 2 = _
    rw [ih, Nat.div_div_eq_div_mul, Nat.pow_succ]

theorem mantissa_ofMantissaAndAccuracy (m : Nat) (a : Accuracy) :
    (ExtendedMantissa.ofMantissaAndAccuracy m a).mantissa = m := by
  cases a with
  | exact => rfl
  | inexact o => cases o <;> rfl

theorem roundedMantissa_bounds (em : ExtendedMantissa) :
    em.mantissa ≤ em.roundedMantissa ∧ em.roundedMantissa ≤ em.mantissa + 1 := by
  unfold ExtendedMantissa.roundedMantissa
  cases em.accuracy with
  | exact => exact ⟨Nat.le_refl _, Nat.le_succ _⟩
  | inexact o =>
    cases o with
    | lt => exact ⟨Nat.le_refl _, Nat.le_succ _⟩
    | gt => exact ⟨Nat.le_succ _, Nat.le_refl _⟩
    | eq =>
      show em.mantissa ≤ em.mantissa + em.mantissa % 2 ∧
        em.mantissa + em.mantissa % 2 ≤ em.mantissa + 1
      omega

/-- What is left of a number without its last `k` bits has `k` bits less, and rounding up adds at
most one. -/
theorem log2_le_of_le_div_add_one {m k r : Nat} (h : r ≤ m / 2 ^ k + 1) :
    r.log2 ≤ m.log2 + 1 - k := by
  have hr : r ≤ 2 ^ (m.log2 + 1 - k) := by
    have hm : m < 2 ^ (m.log2 + 1) := Nat.lt_log2_self
    have hdiv : m / 2 ^ k < 2 ^ (m.log2 + 1 - k) := by
      rw [Nat.div_lt_iff_lt_mul (Nat.two_pow_pos k), ← Nat.pow_add]
      exact Nat.lt_of_lt_of_le hm (Nat.pow_le_pow_right (by decide) (by omega))
    omega
  rcases Nat.eq_zero_or_pos r with rfl | hpos
  · exact Nat.zero_le _
  · refine Nat.lt_succ_iff.mp ((Nat.log2_lt (Nat.ne_of_gt hpos)).mpr ?_)
    exact Nat.lt_of_le_of_lt hr (Nat.pow_lt_pow_right (by decide) (Nat.lt_succ_self _))

/-- Shifting raises an exponent as far as it has to be raised, and no further. -/
theorem exponent_shiftToTargetExponent (m : Nat) (e : Int) (a : Accuracy) :
    (shiftToTargetExponent Format.binary64 m e a).2 =
      max e (max (totalExponent m e - 53) (-1074)) := by
  show e + ((max (totalExponent m e - 53) (-1074) - e).toNat : Int) = _
  omega

theorem mantissa_shiftToTargetExponent (m : Nat) (e : Int) (a : Accuracy) :
    (shiftToTargetExponent Format.binary64 m e a).1.mantissa =
      m / 2 ^ (max (totalExponent m e - 53) (-1074) - e).toNat := by
  show (ExtendedMantissa.ofMantissaAndAccuracy m a >>>
    (Format.binary64.targetExponent (totalExponent m e) - e).toNat : ExtendedMantissa).mantissa = _
  rw [mantissa_shiftRight, mantissa_ofMantissaAndAccuracy, targetExponent_binary64]

/-- What lies below `2 ^ 1023` is rounded to a finite double. -/
theorem fits_roundWithAccuracy {s : Sign} {m : Nat} {e : Int} {a : Accuracy} (he : e ≤ 971)
    (ht : totalExponent m e ≤ 1023) : Fits (roundWithAccuracy Format.binary64 s m e a) := by
  have hround := (roundedMantissa_bounds (shiftToTargetExponent Format.binary64 m e a).1).2
  rw [mantissa_shiftToTargetExponent] at hround
  have hlog := log2_le_of_le_div_add_one hround
  have hexp := exponent_shiftToTargetExponent m e a
  unfold roundWithAccuracy
  generalize shiftToTargetExponent Format.binary64 m e a = shifted at hround hlog hexp
  obtain ⟨em, e₁⟩ := shifted
  have hlast := exponent_shiftToTargetExponent em.roundedMantissa e₁ .exact
  simp only at hlog hexp ⊢
  split
  · trivial
  · show (shiftToTargetExponent Format.binary64 em.roundedMantissa e₁ .exact).2 ≤ 971
    rw [hlast]
    unfold totalExponent at ht hlog hexp ⊢
    omega

theorem log2_shiftLeft {m : Nat} (hm : 0 < m) (k : Nat) : (m <<< k).log2 = m.log2 + k := by
  induction k with
  | zero => rfl
  | succ k ih =>
    have hne : m <<< k ≠ 0 := Nat.ne_of_gt (Nat.shiftLeft_pos_iff.mpr hm)
    rw [Nat.shiftLeft_succ, Nat.log2_two_mul hne, ih]
    rfl

theorem totalExponent_shiftLeft {m : Nat} (hm : 0 < m) (e : Int) (k : Nat) :
    totalExponent (m <<< k) (e - k) = totalExponent m e := by
  rw [totalExponent, totalExponent, log2_shiftLeft hm]
  omega

theorem fits_round {s : Sign} {m : Nat} {e : Int} (hm : 0 < m) (he : e ≤ 971)
    (ht : totalExponent m e ≤ 1023) : Fits (round Format.binary64 s m e) := by
  unfold UnpackedFloat.round decreaseExponent
  refine fits_roundWithAccuracy (by omega) ?_
  rw [totalExponent_shiftLeft hm]
  exact ht

/-! ## Operations -/

theorem fits_neg {u : UnpackedFloat} (h : Fits u) : Fits u.neg := by
  cases u with
  | zero s => trivial
  | finite s m e hm => exact h
  | notANumber => exact h.elim
  | infinity s => exact h.elim

theorem isFinite_neg {x : Float} (h : x.isFinite = true) : (-x).isFinite = true :=
  (isFinite_pack_iff _).mpr (fits_neg (fits_unpack h))

/-- Rounding gives no infinity by itself, and nothing that is no number. -/
theorem roundWithAccuracy_cases (s : Sign) (m : Nat) (e : Int) (a : Accuracy) :
    roundWithAccuracy Format.binary64 s m e a = .zero s ∨
      ∃ m' e' hm', roundWithAccuracy Format.binary64 s m e a = .finite s m' e' hm' := by
  unfold roundWithAccuracy
  simp only
  split
  · exact .inl rfl
  · rename_i hpos
    exact .inr ⟨_, _, Nat.pos_of_ne_zero hpos, rfl⟩

theorem isInf_pack_of_not_fits {s : Sign} {m : Nat} {e : Int} {hm : 0 < m}
    (h : ¬ Fits (.finite s m e hm)) :
    (Float.ofModel (Float.Model.pack (.finite s m e hm))).isInf = true := by
  have he : ¬ e ≤ 971 := h
  have hpack : UnpackedFloat.pack Format.binary64 (.finite s m e hm) =
      packedInfinity Format.binary64 s := by
    have hmany : 2 ^ 11 ≤ (e + (1023 : Nat) + (52 : Nat)).toNat + 1 := by omega
    exact if_pos hmany
  show (UnpackedFloat.unpack Format.binary64 (UnpackedFloat.pack Format.binary64 _)).isInf = true
  rw [hpack]
  simp [packedInfinity, UnpackedFloat.unpack, UnpackedFloat.isInf]

/-- The product of two finite doubles is a number, though it may be an infinity. -/
theorem isFinite_or_isInf_mul {x y : Float} (hx : x.isFinite = true) (hy : y.isFinite = true) :
    (x * y).isFinite = true ∨ (x * y).isInf = true := by
  change x.toModel.unpack.isFinite = true at hx
  change y.toModel.unpack.isFinite = true at hy
  show (Float.ofModel (Float.Model.pack
      (UnpackedFloat.mul Format.binary64 x.toModel.unpack y.toModel.unpack))).isFinite = true ∨
    (Float.ofModel (Float.Model.pack
      (UnpackedFloat.mul Format.binary64 x.toModel.unpack y.toModel.unpack))).isInf = true
  generalize x.toModel.unpack = u at hx
  generalize y.toModel.unpack = v at hy
  cases u with
  | notANumber => cases hx
  | infinity s => cases hx
  | zero s =>
    cases v with
    | notANumber => cases hy
    | infinity t => cases hy
    | zero t => exact .inl ((isFinite_pack_iff _).mpr trivial)
    | finite t n f hn => exact .inl ((isFinite_pack_iff _).mpr trivial)
  | finite s m e hm =>
    cases v with
    | notANumber => cases hy
    | infinity t => cases hy
    | zero t => exact .inl ((isFinite_pack_iff _).mpr trivial)
    | finite t n f hn =>
      rw [isFinite_pack_iff, UnpackedFloat.mul]
      rcases roundWithAccuracy_cases (s * t) (m * n) (e + f) .exact with h | ⟨m', e', hm', h⟩
      · rw [h]
        exact .inl trivial
      · rw [h]
        exact or_iff_not_imp_left.mpr isInf_pack_of_not_fits

theorem isFinite_ofUInt64 (n : UInt64) : n.toFloat.isFinite = true := by
  refine (isFinite_pack_iff (normalize Format.binary64 n.toNat 0 .positive)).mpr ?_
  unfold UnpackedFloat.normalize
  split
  · rename_i hneg
    have hlt : (n.toNat : Int) < 0 := Int.compare_eq_lt.mp hneg
    omega
  · trivial
  · rename_i hpos
    have hgt : 0 < n.toNat := by
      have := Int.compare_eq_gt.mp hpos
      omega
    have hlog : n.toNat.log2 < 64 :=
      (Nat.log2_lt (Nat.ne_of_gt hgt)).mpr n.toNat_lt
    rw [Int.toNat_natCast]
    refine fits_round hgt (by decide) ?_
    unfold totalExponent
    omega

end DesignBrief.Double
