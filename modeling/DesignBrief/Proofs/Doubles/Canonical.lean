import DesignBrief.Proofs.Doubles.Division

/-!
One double, one form. A finite double fills its mantissa unless its exponent is the least there is,
`Double.canonical_of_unpack`, and every double is packed from what it unpacks to, so that it is
known by its sign, mantissa and exponent, `Double.unpack_injective`. Doubles that compare as equal
are the same or two zeros, `Double.eq_or_zero_of_beq`.
-/

namespace DesignBrief.Double

open Float.Model Float.Model.UnpackedFloat

/-! ## Words and their parts -/

theorem toNat_unpackSign (b : BitVec Format.binary64.numBits) :
    (unpackSign b).toNat = b.toNat / 2 ^ 63 % 2 := by
  show b.toNat >>> 63 % 2 = _
  rw [Nat.shiftRight_eq_div_pow]

theorem toNat_unpackExponent (b : BitVec Format.binary64.numBits) :
    (unpackExponent b).toNat = b.toNat / 2 ^ 52 % 2 ^ 11 := by
  show b.toNat >>> 52 % 2 ^ 11 = _
  rw [Nat.shiftRight_eq_div_pow]

theorem toNat_unpackMantissa (b : BitVec Format.binary64.numBits) :
    (unpackMantissa b).toNat = b.toNat % 2 ^ 52 := by
  show b.toNat >>> 0 % 2 ^ 52 = _
  rw [Nat.shiftRight_zero]

theorem toNat_packComponents (s : Sign) (e : BitVec 11) (m : BitVec 52) :
    (packComponents Format.binary64 s e m).toNat =
      (s.toBitVec.toNat * 2 ^ 11 + e.toNat) * 2 ^ 52 + m.toNat := by
  show (s.toBitVec ++ e ++ m).toNat = _
  rw [BitVec.toNat_append, BitVec.toNat_append, ← Nat.shiftLeft_add_eq_or_of_lt m.isLt,
    ← Nat.shiftLeft_add_eq_or_of_lt e.isLt, Nat.shiftLeft_eq, Nat.shiftLeft_eq]

theorem toNat_implicit (v : BitVec 52) : (1#1 ++ v).toNat = 2 ^ 52 + v.toNat := by
  rw [BitVec.toNat_append, ← Nat.shiftLeft_add_eq_or_of_lt v.isLt]
  rfl

theorem toBitVec_ofBitVec : ∀ v : BitVec 1, (Sign.ofBitVec v).toBitVec = v := by
  decide

/-- A word is known by its sign, its exponent and its mantissa. -/
theorem packComponents_of_parts {b : BitVec Format.binary64.numBits} {e : BitVec 11}
    {m : BitVec 52} (he : unpackExponent b = e) (hm : unpackMantissa b = m) :
    packComponents Format.binary64 (Sign.ofBitVec (unpackSign b)) e m = b := by
  subst he hm
  apply BitVec.eq_of_toNat_eq
  rw [toNat_packComponents, toBitVec_ofBitVec, toNat_unpackSign, toNat_unpackExponent,
    toNat_unpackMantissa]
  have hlt : b.toNat < 2 ^ 64 := b.isLt
  omega

/-! ## The form of a finite double -/

/-- The form of the finite doubles other than zero: 53 places unless the exponent is the least. -/
structure Canonical (m : Nat) (e : Int) : Prop where
  lt : m < 2 ^ 53
  least_le : -1074 ≤ e
  full : 2 ^ 52 ≤ m ∨ e = -1074

theorem canonical_of_unpack {x : Float} {s : Sign} {m : Nat} {e : Int} {hm : 0 < m}
    (h : x.toModel.unpack = .finite s m e hm) : Canonical m e := by
  change UnpackedFloat.unpack Format.binary64 x.toModel.toBits.toBitVec = _ at h
  revert h
  fun_cases UnpackedFloat.unpack Format.binary64 x.toModel.toBits.toBitVec with
  | case1 => intro h; cases h
  | case2 => intro h; cases h
  | case3 => intro h; cases h
  | case4 mantissa exponentVec exponent signVec sign hones hexp hzero =>
    intro h
    injection h with _ hmantissa hexponent
    have hlt : mantissa.toNat < 2 ^ 52 := mantissa.isLt
    have hleast : exponent = exponentVec.toNat - 1075 := rfl
    have hsubnormal : exponentVec.toNat = 0 := congrArg BitVec.toNat hexp
    exact ⟨by omega, by omega, .inr (by omega)⟩
  | case5 mantissa exponentVec exponent signVec sign hones hexp =>
    intro h
    injection h with _ hmantissa hexponent
    have hlt : mantissa.toNat < 2 ^ 52 := mantissa.isLt
    have himplicit := toNat_implicit mantissa
    have hleast : exponent = exponentVec.toNat - 1075 := rfl
    have hnormal : exponentVec.toNat ≠ 0 := fun h0 => hexp (BitVec.eq_of_toNat_eq h0)
    exact ⟨by omega, by omega, .inl (by omega)⟩

/-! ## Packing what was unpacked -/

/-- A number that does not fill the mantissa is packed as a subnormal one. -/
theorem pack_of_not_full {s : Sign} {m : Nat} {hm : 0 < m} (hlog : m.log2 ≠ 52) :
    UnpackedFloat.pack Format.binary64 (.finite s m (-1074) hm) =
      packComponents Format.binary64 s 0#11 (BitVec.ofNat 52 m) := by
  have hnot : m.log2 + 1 ≠ Format.binary64.mantissaBits := fun h => hlog (Nat.succ.inj h)
  rw [UnpackedFloat.pack]
  simp only
  rw [if_neg (by decide), if_neg hnot]

/-- A word is packed from what it unpacks to; what is no number has only one word. -/
theorem pack_unpack (x : Float.Model) :
    UnpackedFloat.pack Format.binary64 x.unpack = x.toBits.toBitVec := by
  have hvalid := x.valid.eq_packedNaN
  unfold Float.Model.unpack
  fun_cases UnpackedFloat.unpack Format.binary64 x.toBits.toBitVec with
  | case1 mantissa exponent signVec sign hones hzero => exact packComponents_of_parts hones hzero
  | case2 mantissa exponent hones hzero => exact (hvalid hones hzero).symm
  | case3 mantissa exponent signVec sign hones hexp hzero =>
    exact packComponents_of_parts hexp hzero
  | case4 mantissa exponentVec exponent signVec sign hones hexp hzero =>
    have hlt : mantissa.toNat < 2 ^ 52 := mantissa.isLt
    have hpos : mantissa.toNat ≠ 0 := fun h0 => hzero (BitVec.eq_of_toNat_eq h0)
    have hlog : mantissa.toNat.log2 < 52 := (Nat.log2_lt hpos).mpr hlt
    have hleast : exponent + 1 = -1074 := by
      have hsubnormal : exponentVec.toNat = 0 := congrArg BitVec.toNat hexp
      have : exponent = exponentVec.toNat - 1075 := rfl
      omega
    simp only [hleast]
    rw [pack_of_not_full (Nat.ne_of_lt hlog)]
    refine packComponents_of_parts hexp ?_
    exact BitVec.eq_of_toNat_eq (Nat.mod_eq_of_lt hlt).symm
  | case5 mantissa exponentVec exponent signVec sign hones hexp =>
    have hlt : mantissa.toNat < 2 ^ 52 := mantissa.isLt
    have himplicit := toNat_implicit mantissa
    have hlog : (1#1 ++ mantissa).toNat.log2 = 52 :=
      (Nat.log2_eq_iff (by omega)).mpr ⟨by omega, by omega⟩
    have hbiased : exponent = exponentVec.toNat - 1075 := rfl
    have hnot := toNat_lt_of_ne_ones hones
    rw [pack_of_full hlog, if_neg (by omega)]
    refine packComponents_of_parts ?_ ?_
    · apply BitVec.eq_of_toNat_eq
      rw [BitVec.toNat_ofNat, hbiased, Int.sub_add_cancel, Int.toNat_natCast]
      exact (Nat.mod_eq_of_lt exponentVec.isLt).symm
    · apply BitVec.eq_of_toNat_eq
      rw [BitVec.toNat_ofNat, himplicit, Nat.add_mod_left]
      exact (Nat.mod_eq_of_lt hlt).symm

/-- A double is known by its sign, its mantissa and its exponent. -/
theorem unpack_injective {x y : Float} (h : x.toModel.unpack = y.toModel.unpack) : x = y := by
  have hbits : x.toModel.toBits = y.toModel.toBits := by
    apply UInt64.eq_of_toBitVec_eq
    rw [← pack_unpack, ← pack_unpack, h]
  obtain ⟨⟨bits, hvalid⟩⟩ := x
  obtain ⟨⟨bits', hvalid'⟩⟩ := y
  simp only at hbits
  subst hbits
  rfl

/-! ## Comparing -/

/-- Either of the two zeros. -/
def IsZero (x : Float) : Prop := ∃ s, x.toModel.unpack = .zero s

/-- A finite double is a zero or has a mantissa. -/
theorem isZero_or_of_isFinite {x : Float} (h : x.isFinite = true) :
    IsZero x ∨ ∃ s m e hm, x.toModel.unpack = .finite s m e hm := by
  have hfits := fits_unpack h
  cases hx : x.toModel.unpack with
  | notANumber =>
    rw [hx] at hfits
    exact hfits.elim
  | infinity s =>
    rw [hx] at hfits
    exact hfits.elim
  | zero s => exact .inl ⟨s, hx⟩
  | finite s m e hm => exact .inr ⟨s, m, e, hm, rfl⟩

theorem eq_of_compare_parts {e f : Int} {m n : Nat}
    (h : (compare e f).then (compare m n) = .eq) : e = f ∧ m = n := by
  obtain ⟨he, hm⟩ := Ordering.then_eq_eq.mp h
  exact ⟨Int.compare_eq_eq.mp he, Nat.compare_eq_eq.mp hm⟩

theorem eq_or_zero_of_compare {u v : UnpackedFloat} (h : UnpackedFloat.compare u v = some .eq) :
    u = v ∨ (∃ s, u = .zero s) ∧ ∃ s, v = .zero s := by
  revert h
  fun_cases UnpackedFloat.compare u v with
  | case3 s t =>
    intro h
    cases s <;> cases t <;> first | exact .inl rfl | cases h
  | case12 s t => exact fun _ => .inr ⟨⟨s, rfl⟩, t, rfl⟩
  | case13 m e hm n f hn =>
    intro h
    obtain ⟨rfl, rfl⟩ := eq_of_compare_parts (Ordering.swap_eq_eq.mp (Option.some.inj h))
    exact .inl rfl
  | case16 m e hm n f hn =>
    intro h
    obtain ⟨rfl, rfl⟩ := eq_of_compare_parts (Option.some.inj h)
    exact .inl rfl
  | _ => intro h; cases h

/-- Doubles that compare as equal are the same or two zeros, whose signs may differ. -/
theorem eq_or_zero_of_beq {x y : Float} (h : (x == y) = true) :
    x = y ∨ IsZero x ∧ IsZero y := by
  change (UnpackedFloat.compare x.toModel.unpack y.toModel.unpack == some .eq) = true at h
  exact (eq_or_zero_of_compare (eq_of_beq h)).imp_left unpack_injective

end DesignBrief.Double
