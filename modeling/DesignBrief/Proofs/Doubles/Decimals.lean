import DesignBrief.Decimal.Shortest
import DesignBrief.Proofs.Doubles.Canonical

/-!
Decimals and the doubles they are written for. The decimal of a double lies half way to the
neighbouring doubles at most, `Decimal.readsAs_ofDouble`, and no number lies so near to two
doubles, `Double.eq_of_readsAs`. So different doubles have decimals of different value.
-/

namespace DesignBrief

/-- What a decimal stands for. -/
def Decimal.value (d : Decimal) : ℚ := d.digits * 10 ^ d.exponent

namespace Double

/-- Four times the half of the way down to the next double, in units of the last place; below a
power of two the next double is only half as far. -/
def gap (m : Nat) (e : Int) : Nat :=
  if m = Basin.leastNormal ∧ Basin.leastExponent < e then 1 else 2

theorem gap_le (m : Nat) (e : Int) : gap m e ≤ 2 := by
  unfold gap
  split <;> decide

/-- The numbers that read as the double `m * 2 ^ e`: those half way to its neighbours or nearer,
the half ways only if the last place is even. -/
structure ReadsAs (v : ℚ) (m : Nat) (e : Int) : Prop where
  low_le : (4 * m - gap m e) * 2 ^ (e - 2) ≤ v
  le_high : v ≤ (4 * m + 2) * 2 ^ (e - 2)
  between : m % 2 = 1 → (4 * m - gap m e) * 2 ^ (e - 2) < v ∧ v < (4 * m + 2) * 2 ^ (e - 2)

theorem ReadsAs.pos {v : ℚ} {m : Nat} {e : Int} (h : ReadsAs v m e) (hm : 0 < m) : 0 < v := by
  have hunit : (0 : ℚ) < 2 ^ (e - 2) := by positivity
  have hgap : (gap m e : ℚ) ≤ 2 := by exact_mod_cast gap_le m e
  have hone : (1 : ℚ) ≤ m := by exact_mod_cast hm
  refine lt_of_lt_of_le (mul_pos ?_ hunit) h.low_le
  linarith

/-! ## Different doubles -/

/-- Doubles with the same exponent: the larger one starts where the smaller one ends, and one of
the two has an odd last place. -/
theorem ReadsAs.le_of_exponent_eq {v : ℚ} {m n : Nat} {e : Int} (h : ReadsAs v m e)
    (h' : ReadsAs v n e) : n ≤ m := by
  by_contra hlt
  have hunit : (0 : ℚ) < 2 ^ (e - 2) := by positivity
  have hgap : (gap n e : ℚ) ≤ 2 := by exact_mod_cast gap_le n e
  have hsucc : (m : ℚ) + 1 ≤ n := by exact_mod_cast Nat.not_le.mp hlt
  have hbound : (4 * m + 2) * (2 : ℚ) ^ (e - 2) ≤ (4 * n - gap n e) * 2 ^ (e - 2) := by
    refine mul_le_mul_of_nonneg_right ?_ hunit.le
    linarith
  by_cases hodd : m % 2 = 1
  · exact absurd h'.low_le (not_le.mpr ((h.between hodd).2.trans_le hbound))
  · by_cases hnext : n = m + 1
    · have hodd' : n % 2 = 1 := by omega
      exact absurd ((h'.between hodd').1) (not_lt.mpr (h.le_high.trans hbound))
    · have hfar : (m : ℚ) + 2 ≤ n := by exact_mod_cast (by omega : m + 2 ≤ n)
      have hstrict : (4 * m + 2) * (2 : ℚ) ^ (e - 2) < (4 * n - gap n e) * 2 ^ (e - 2) := by
        refine mul_lt_mul_of_pos_right ?_ hunit
        linarith
      exact absurd h'.low_le (not_le.mpr (h.le_high.trans_lt hstrict))

/-- A double with a larger exponent starts at `2 ^ 55 - 2` units of the smaller one or above. That
is where the last double with the smaller exponent ends, and its last place is odd. -/
theorem ReadsAs.not_exponent_lt {v : ℚ} {m n : Nat} {e f : Int} (hm : Canonical m e)
    (hn : Canonical n f) (h : ReadsAs v m e) (h' : ReadsAs v n f) : ¬ e < f := by
  intro hlt
  have hunit : (0 : ℚ) < 2 ^ (e - 2) := by positivity
  have hfull : 2 ^ 52 ≤ n := hn.full.resolve_right (by have := hm.least_le; omega)
  have hstart : ((2 ^ 54 - 1 : Nat) : ℚ) ≤ 4 * n - gap n f := by
    have hnat : 2 ^ 54 - 1 + gap n f ≤ 4 * n := by
      unfold gap Basin.leastNormal Basin.leastExponent
      have := hm.least_le
      split <;> omega
    have : (((2 ^ 54 - 1 : Nat) : ℚ)) + gap n f ≤ 4 * n := by exact_mod_cast hnat
    linarith
  have hpow : (2 : ℚ) * 2 ^ (e - 2) ≤ 2 ^ (f - 2) := by
    rw [← zpow_one_add₀ (by norm_num)]
    exact zpow_le_zpow_right₀ (by norm_num) (by omega)
  have hlow : ((2 ^ 55 - 2 : Nat) : ℚ) * 2 ^ (e - 2) ≤ v := by
    calc ((2 ^ 55 - 2 : Nat) : ℚ) * 2 ^ (e - 2)
        = ((2 ^ 54 - 1 : Nat) : ℚ) * (2 * 2 ^ (e - 2)) := by norm_num; ring
      _ ≤ (4 * n - gap n f) * 2 ^ (f - 2) := by
        refine mul_le_mul hstart hpow (by positivity) ?_
        exact le_trans (by positivity) hstart
      _ ≤ v := h'.low_le
  by_cases hlast : m = 2 ^ 53 - 1
  · have hodd : m % 2 = 1 := by omega
    have hhigh := (h.between hodd).2
    rw [hlast] at hhigh
    norm_num at hhigh hlow
    linarith
  · have hsmall : (4 * m + 2 : ℚ) < ((2 ^ 55 - 2 : Nat) : ℚ) := by
      have := hm.lt
      exact_mod_cast (by omega : 4 * m + 2 < 2 ^ 55 - 2)
    have hhigh := mul_lt_mul_of_pos_right hsmall hunit
    exact absurd hlow (not_le.mpr (h.le_high.trans_lt hhigh))

/-- No number reads as two doubles. -/
theorem eq_of_readsAs {v : ℚ} {m n : Nat} {e f : Int} (hm : Canonical m e) (hn : Canonical n f)
    (h : ReadsAs v m e) (h' : ReadsAs v n f) : m = n ∧ e = f := by
  have he : e = f := by
    have hle := h.not_exponent_lt hm hn h'
    have hge := h'.not_exponent_lt hn hm h
    omega
  subst he
  exact ⟨Nat.le_antisymm (h'.le_of_exponent_eq h) (h.le_of_exponent_eq h'), rfl⟩

end Double

/-! ## The decimal of a double -/

namespace Basin

/-- A quarter of the last place of a double, in the units of its basin. -/
def unit (e : Int) : Nat := if e < 2 then Nat.pow 5 (2 - e).toNat else Nat.pow 2 (e - 2).toNat

theorem low_ofDouble (m : Nat) (e : Int) :
    (ofDouble m e).low = (4 * m - Double.gap m e) * unit e := rfl

theorem high_ofDouble (m : Nat) (e : Int) : (ofDouble m e).high = (4 * m + 2) * unit e := rfl

theorem centre_ofDouble (m : Nat) (e : Int) : (ofDouble m e).centre = 4 * m * unit e := rfl

theorem unit_pos (e : Int) : 0 < unit e := by
  unfold unit
  split
  · exact Nat.pow_pos (by decide)
  · exact Nat.pow_pos (by decide)

/-- Multiples of a quarter of the last place, in the units of the basin. -/
theorem mul_zpow_eq (c : ℚ) (m : Nat) (e : Int) :
    c * 2 ^ (e - 2) = c * unit e * 10 ^ (-((ofDouble m e).scale : Int)) := by
  have hunit : (unit e : ℚ) = 2 ^ (e - 2) * 10 ^ (ofDouble m e).scale := by
    show (unit e : ℚ) = 2 ^ (e - 2) * 10 ^ (2 - e).toNat
    unfold unit
    by_cases he : e < 2
    · obtain ⟨k, hk⟩ : ∃ k : Nat, 2 - e = k := ⟨(2 - e).toNat, by omega⟩
      have hneg : e - 2 = -(k : Int) := by omega
      rw [if_pos he, hk, hneg, Int.toNat_natCast, zpow_neg, zpow_natCast]
      show ((5 ^ k : Nat) : ℚ) = _
      rw [show (10 : ℚ) = 2 * 5 by norm_num, mul_pow, inv_mul_cancel_left₀ (by positivity)]
      norm_cast
    · obtain ⟨k, hk⟩ : ∃ k : Nat, e - 2 = k := ⟨(e - 2).toNat, by omega⟩
      have hzero : (2 - e).toNat = 0 := by omega
      rw [if_neg he, hk, hzero, Int.toNat_natCast, zpow_natCast, pow_zero, mul_one]
      show ((2 ^ k : Nat) : ℚ) = _
      norm_cast
  rw [hunit, zpow_neg, zpow_natCast, mul_assoc c, mul_inv_cancel_right₀ (by positivity)]

/-- What a basin holds reads as its double. -/
theorem readsAs_of_holds {m : Nat} {e : Int} (hm : 0 < m) {n : Nat}
    (h : (ofDouble m e).holds n = true) :
    Double.ReadsAs (n * 10 ^ (-((ofDouble m e).scale : Int))) m e := by
  have hpos : (0 : ℚ) < 10 ^ (-((ofDouble m e).scale : Int)) := by positivity
  have hgap := Double.gap_le m e
  have hlow : ((ofDouble m e).low : ℚ) = (4 * m - Double.gap m e) * unit e := by
    rw [low_ofDouble, Nat.cast_mul, Nat.cast_sub (by omega)]
    push_cast
    rfl
  have hhigh : ((ofDouble m e).high : ℚ) = (4 * m + 2) * unit e := by
    rw [high_ofDouble]
    push_cast
    rfl
  have hends : (ofDouble m e).low ≤ n ∧ n ≤ (ofDouble m e).high := by
    unfold holds at h
    split at h <;> simp only [Bool.and_eq_true, decide_eq_true_eq] at h <;> omega
  have hopen : m % 2 = 1 → (ofDouble m e).low < n ∧ n < (ofDouble m e).high := by
    intro hodd
    have hclosed : (ofDouble m e).closed = false := by
      show (m % 2 == 0) = false
      rw [hodd]
      rfl
    unfold holds at h
    rw [hclosed] at h
    simpa using h
  have hcast {a b : Nat} (hab : a ≤ b) : (a : ℚ) ≤ b := by exact_mod_cast hab
  have hcast' {a b : Nat} (hab : a < b) : (a : ℚ) < b := by exact_mod_cast hab
  constructor
  · rw [mul_zpow_eq _ m, ← hlow]
    exact mul_le_mul_of_nonneg_right (hcast hends.1) hpos.le
  · rw [mul_zpow_eq _ m, ← hhigh]
    exact mul_le_mul_of_nonneg_right (hcast hends.2) hpos.le
  · intro hodd
    rw [mul_zpow_eq _ m, mul_zpow_eq _ m, ← hlow, ← hhigh]
    exact ⟨mul_lt_mul_of_pos_right (hcast' (hopen hodd).1) hpos,
      mul_lt_mul_of_pos_right (hcast' (hopen hodd).2) hpos⟩

/-- A double lies in its own basin. -/
theorem holds_centre {m : Nat} (hm : 0 < m) (e : Int) :
    (ofDouble m e).holds (ofDouble m e).centre = true := by
  have hgap : 0 < Double.gap m e := by
    unfold Double.gap
    split <;> decide
  have hlow : (ofDouble m e).low < (ofDouble m e).centre := by
    rw [low_ofDouble, centre_ofDouble]
    exact Nat.mul_lt_mul_of_pos_right (by omega) (unit_pos e)
  have hhigh : (ofDouble m e).centre < (ofDouble m e).high := by
    rw [high_ofDouble, centre_ofDouble]
    exact Nat.mul_lt_mul_of_pos_right (by omega) (unit_pos e)
  unfold holds
  split <;> simp only [Bool.and_eq_true, decide_eq_true_eq] <;> omega

/-- A decimal found on a grid stands for something that the basin holds. -/
theorem value_firstHit (tie : Tie) {b : Basin} (hcentre : b.holds b.centre = true) (t : Nat) :
    ∃ n, b.holds n = true ∧ (b.firstHit tie t).value = n * 10 ^ (-(b.scale : Int)) := by
  induction t with
  | zero => exact ⟨b.centre, hcentre, rfl⟩
  | succ t ih =>
    rw [firstHit]
    split
    · rename_i n hn
      refine ⟨n * Nat.pow 10 (t + 1), holds_of_onGrid? hn, ?_⟩
      show (n : ℚ) * 10 ^ (((t + 1 : Nat) : Int) - b.scale) = ((n * 10 ^ (t + 1) : Nat) : ℚ) * _
      rw [sub_eq_add_neg, zpow_add₀ (by norm_num), zpow_natCast, Nat.cast_mul, Nat.cast_pow,
        ← mul_assoc]
      rfl
    · exact ih

end Basin

/-- The decimal of a double reads as that double. -/
theorem Decimal.readsAs_ofDouble (tie : Tie) {m : Nat} (hm : 0 < m) (e : Int) :
    Double.ReadsAs (ofDouble tie m e).value m e := by
  obtain ⟨n, hholds, hvalue⟩ := Basin.value_firstHit tie (Basin.holds_centre hm e)
    (Nat.toDigits 10 (Basin.ofDouble m e).centre).length
  show Double.ReadsAs (Basin.firstHit tie _ _).value m e
  rw [hvalue]
  exact Basin.readsAs_of_holds hm hholds

theorem Decimal.value_ofDouble_pos (tie : Tie) {m : Nat} (hm : 0 < m) (e : Int) :
    0 < (ofDouble tie m e).value :=
  (readsAs_ofDouble tie hm e).pos hm

theorem Decimal.digits_pos_of_value_pos {d : Decimal} (hd : 0 < d.value) : 0 < d.digits := by
  refine Nat.pos_of_ne_zero fun hzero => ?_
  rw [value, hzero, Nat.cast_zero, zero_mul] at hd
  exact lt_irrefl 0 hd

end DesignBrief
