import DesignBrief.Json.Printer
import DesignBrief.Proofs.Doubles.Decimals
import DesignBrief.Proofs.Numerals

/-!
The numerals by which numbers are written. Every finite number is written as the text of a numeral,
`Number.toList_render`, and the numeral tells which number it is, `Number.numeral_injective`: what a
numeral stands for reads as one double only.
-/

namespace DesignBrief

/-! ## The numeral of a number -/

/-- The numeral that shows all places of a decimal. -/
def Decimal.placed (d : Decimal) : Numeral :=
  let ds := Digit.ofNat d.digits
  let before := ds.length + d.exponent
  if 0 ≤ d.exponent then
    { whole := ds ++ List.replicate d.exponent.toNat 0, fraction := [0] }
  else if 0 < before then
    { whole := ds.take before.toNat, fraction := ds.drop before.toNat }
  else
    { whole := [0], fraction := List.replicate (-before).toNat 0 ++ ds }

/-- The numeral with one digit before the point and the power of ten `k`. -/
def Decimal.scientific (k : Int) (d : Decimal) : Numeral where
  whole := (Digit.ofNat d.digits).take 1
  fraction := (Digit.ofNat d.digits).drop 1
  exponent := some (decide (k < 0), Digit.ofNat k.natAbs)

/-- The numeral by which a positive decimal is written. -/
def Decimal.numeral (d : Decimal) : Numeral :=
  let k := (Digit.ofNat d.digits).length - 1 + d.exponent
  if Json.numberFormat.plain k then d.placed else d.scientific k

def Double.isNegative : Float.Model.UnpackedFloat.Sign → Bool
  | .positive => false
  | .negative => true

/-- The numeral by which a number is written, if it is finite. -/
def Number.numeral : Number → Numeral
  | .integer i => { negative := decide (i < 0), whole := Digit.ofNat i.natAbs }
  | .real x =>
    match x.toModel.unpack with
    | .finite s m e _ =>
      { (Decimal.ofDouble .even m e).numeral with negative := Double.isNegative s }
    | .zero s => { negative := Double.isNegative s, whole := [0], fraction := [0] }
    | _ => { whole := [] }

namespace Numeral

theorem fractionText_of_ne_nil {ds : List Digit} (h : ds ≠ []) :
    fractionText ds = '.' :: ds.map Digit.toChar := by
  cases ds with
  | nil => exact absurd rfl h
  | cons d ds => rfl

/-- What a numeral without its sign stands for. -/
def rational (n : Numeral) : ℚ :=
  natural (n.whole ++ n.fraction) *
    10 ^ ((match n.exponent with
      | none => 0
      | some (down, ds) => if down then -(natural ds : Int) else natural ds) -
        (n.fraction.length : Int))

end Numeral

namespace Decimal

theorem fraction_placed_ne_nil (d : Decimal) : d.placed.fraction ≠ [] := by
  have hpos : 0 < (Digit.ofNat d.digits).length := List.length_pos_of_ne_nil (Digit.ofNat_ne_nil _)
  unfold placed
  simp only
  split
  · exact List.cons_ne_nil 0 []
  · split
    · rename_i hneg _
      rw [Ne, List.drop_eq_nil_iff]
      omega
    · exact List.append_ne_nil_of_right_ne_nil _ (Digit.ofNat_ne_nil _)

theorem digitsText_placed (d : Decimal) : d.placed.digitsText = Json.numberFormat.places d := by
  rw [Numeral.digitsText, Numeral.fractionText_of_ne_nil d.fraction_placed_ne_nil]
  unfold placed Format.places
  simp only [Digit.length_ofNat]
  split
  · simp [Numeral.exponentText, Format.zeros, Json.numberFormat]
  · split
    · simp [Numeral.exponentText]
    · simp [Numeral.exponentText, Format.zeros]

theorem digitsText_scientific (k : Int) (d : Decimal) :
    (d.scientific k).digitsText = Format.scientific k d := by
  have hmark : (if decide (k < 0) = true then '-' else '+') = if k < 0 then '-' else '+' := by
    simp
  unfold Format.scientific scientific
  rw [← Digit.map_toChar_ofNat d.digits, ← Digit.map_toChar_ofNat k.natAbs, ← hmark]
  rcases Digit.ofNat d.digits with _ | ⟨c, _ | ⟨c', cs⟩⟩
  · rfl
  · rfl
  · simp [Numeral.digitsText, Numeral.fractionText, Numeral.exponentText]

theorem digitsText_numeral (d : Decimal) : d.numeral.digitsText = Json.numberFormat.magnitude d := by
  unfold numeral Format.magnitude
  simp only [Digit.length_ofNat]
  split
  · exact d.digitsText_placed
  · exact d.digitsText_scientific _

/-- The numeral of a decimal shows that it is no whole number. -/
theorem not_whole_numeral (d : Decimal) :
    ¬ (d.numeral.fraction = [] ∧ d.numeral.exponent = none) := by
  rintro ⟨hfraction, hexponent⟩
  unfold numeral at hfraction hexponent
  simp only at hfraction hexponent
  split at hfraction
  · exact d.fraction_placed_ne_nil hfraction
  · rename_i hplain
    rw [if_neg hplain] at hexponent
    cases hexponent

theorem readable_numeral {d : Decimal} (hd : 0 < d.digits) : d.numeral.Readable := by
  obtain ⟨c, cs, hc, hdigits⟩ := Digit.head_ofNat hd
  unfold numeral
  simp only
  split
  · unfold placed
    simp only
    split
    · exact ⟨.inr ⟨c, cs ++ _, hc, by rw [hdigits]; rfl⟩, nofun⟩
    · split
      · rename_i hbefore
        obtain ⟨k, hk⟩ : ∃ k : Nat, (Digit.ofNat d.digits).length + d.exponent = k + 1 :=
          ⟨((Digit.ofNat d.digits).length + d.exponent - 1).toNat, by omega⟩
        have hwhole : (Digit.ofNat d.digits).take
            ((Digit.ofNat d.digits).length + d.exponent).toNat = c :: cs.take k := by
          rw [hk, hdigits]
          rfl
        exact ⟨.inr ⟨c, cs.take k, hc, hwhole⟩, nofun⟩
      · exact ⟨.inl rfl, nofun⟩
  · refine ⟨.inr ⟨c, [], hc, by rw [scientific, hdigits]; rfl⟩, ?_⟩
    intro e he
    cases Option.some.inj he
    exact Digit.ofNat_ne_nil _

theorem rational_placed (d : Decimal) : d.placed.rational = d.value := by
  unfold placed value
  simp only
  split
  · rename_i hexp
    obtain ⟨k, hk⟩ := Int.eq_ofNat_of_zero_le hexp
    have hdigits : Numeral.natural (Digit.ofNat d.digits ++ List.replicate k 0 ++ [0]) =
        d.digits * 10 ^ k * 10 := by
      rw [Numeral.natural_append, Numeral.natural_append, Numeral.natural_replicate_zero,
        Numeral.natural_ofNat, List.length_replicate]
      rfl
    simp only [Numeral.rational, hk, Int.toNat_natCast, hdigits]
    push_cast
    simp
  · split
    · rename_i hneg hbefore
      have hlength : (((Digit.ofNat d.digits).drop
          ((Digit.ofNat d.digits).length + d.exponent).toNat).length : Int) = -d.exponent := by
        rw [List.length_drop]
        omega
      simp only [Numeral.rational, List.take_append_drop, Numeral.natural_ofNat, hlength]
      simp
    · rename_i hneg hbefore
      have hdigits (k : Nat) :
          Numeral.natural ([0] ++ (List.replicate k 0 ++ Digit.ofNat d.digits)) = d.digits := by
        simp [Numeral.natural_append, Numeral.natural_replicate_zero]
      simp only [Numeral.rational, hdigits, List.length_append, List.length_replicate]
      congr 2
      omega

theorem rational_scientific (d : Decimal) :
    (d.scientific ((Digit.ofNat d.digits).length - 1 + d.exponent)).rational = d.value := by
  have hpos : 0 < (Digit.ofNat d.digits).length := List.length_pos_of_ne_nil (Digit.ofNat_ne_nil _)
  unfold scientific value
  simp only [Numeral.rational, List.take_append_drop, Numeral.natural_ofNat, List.length_drop]
  congr 2
  split <;> rename_i h <;> simp only [decide_eq_true_eq] at h <;> omega

theorem rational_numeral (d : Decimal) : d.numeral.rational = d.value := by
  unfold numeral
  simp only
  split
  · exact d.rational_placed
  · exact d.rational_scientific

end Decimal

namespace Number

def IsFinite : Number → Prop
  | .integer _ => True
  | .real x => x.isFinite = true

theorem numeral_of_zero {x : Float} {s : Float.Model.UnpackedFloat.Sign}
    (hx : x.toModel.unpack = .zero s) :
    (real x).numeral =
      { negative := Double.isNegative s, whole := [0], fraction := [0] } := by
  rw [numeral, hx]

theorem numeral_of_finite {x : Float} {s : Float.Model.UnpackedFloat.Sign} {m : Nat} {e : Int}
    {hm : 0 < m} (hx : x.toModel.unpack = .finite s m e hm) :
    (real x).numeral =
      { (Decimal.ofDouble .even m e).numeral with negative := Double.isNegative s } := by
  rw [numeral, hx]

/-- A finite number is written as the text of its numeral. -/
theorem toList_render {n : Number} (hn : n.IsFinite) : n.render.toList = n.numeral.text := by
  cases n with
  | integer i =>
    cases i with
    | ofNat k =>
      show (Nat.repr k).toList = _
      rw [Nat.toList_repr]
      simp [numeral, Numeral.text, Numeral.digitsText, Numeral.fractionText, Numeral.exponentText]
    | negSucc k =>
      show ("-" ++ Nat.repr (k + 1)).toList = _
      rw [String.toList_append, Nat.toList_repr]
      simp [numeral, Numeral.text, Numeral.digitsText, Numeral.fractionText, Numeral.exponentText]
  | real x =>
    change x.isFinite = true at hn
    rw [render, if_pos hn, String.toList_ofList, Format.render]
    rcases Double.isZero_or_of_isFinite hn with ⟨s, hx⟩ | ⟨s, m, e, hm, hx⟩
    · rw [numeral_of_zero hx, hx]
      cases s <;> rfl
    · rw [numeral_of_finite hx, hx]
      simp only
      rw [← Decimal.digitsText_numeral]
      cases s <;> rfl

theorem readable_numeral {n : Number} (hn : n.IsFinite) : n.numeral.Readable := by
  cases n with
  | integer i =>
    rcases Nat.eq_zero_or_pos i.natAbs with hzero | hpos
    · exact ⟨.inl (by rw [numeral, hzero]; rfl), nofun⟩
    · exact ⟨.inr (Digit.head_ofNat hpos), nofun⟩
  | real x =>
    rcases Double.isZero_or_of_isFinite hn with ⟨s, hx⟩ | ⟨s, m, e, hm, hx⟩
    · rw [numeral_of_zero hx]
      exact ⟨.inl rfl, nofun⟩
    · have hdigits := Decimal.digits_pos_of_value_pos (Decimal.value_ofDouble_pos .even hm e)
      have hr := Decimal.readable_numeral hdigits
      rw [numeral_of_finite hx]
      exact ⟨hr.whole, hr.exponent⟩

/-! ## Different numbers -/

theorem isNegative_injective : Function.Injective Double.isNegative := by
  intro s t
  cases s <;> cases t <;> simp [Double.isNegative]

/-- The numeral of a double shows that it is no whole number. -/
theorem not_whole_numeral {x : Float} (hx : x.isFinite = true) :
    ¬ ((real x).numeral.fraction = [] ∧ (real x).numeral.exponent = none) := by
  rcases Double.isZero_or_of_isFinite hx with ⟨s, hx⟩ | ⟨s, m, e, hm, hx⟩
  · rw [numeral_of_zero hx]
    rintro ⟨hfraction, -⟩
    cases hfraction
  · rw [numeral_of_finite hx]
    exact (Decimal.ofDouble .even m e).not_whole_numeral

theorem rational_of_zero {x : Float} (hx : Double.IsZero x) : (real x).numeral.rational = 0 := by
  obtain ⟨s, hx⟩ := hx
  rw [numeral_of_zero hx]
  simp [Numeral.rational, Numeral.natural]

theorem rational_of_finite {x : Float} {s : Float.Model.UnpackedFloat.Sign} {m : Nat} {e : Int}
    {hm : 0 < m} (hx : x.toModel.unpack = .finite s m e hm) :
    (real x).numeral.rational = (Decimal.ofDouble .even m e).value := by
  rw [numeral_of_finite hx]
  exact (Decimal.ofDouble .even m e).rational_numeral

theorem rational_pos {x : Float} {s : Float.Model.UnpackedFloat.Sign} {m : Nat} {e : Int}
    {hm : 0 < m} (hx : x.toModel.unpack = .finite s m e hm) : 0 < (real x).numeral.rational := by
  rw [rational_of_finite hx]
  exact Decimal.value_ofDouble_pos .even hm e

/-- Doubles of the same numeral have the same sign, and no number reads as two doubles. -/
theorem eq_of_numeral_eq {x y : Float} (hx : x.isFinite = true) (hy : y.isFinite = true)
    (h : (real x).numeral = (real y).numeral) : x = y := by
  apply Double.unpack_injective
  have hneg := congrArg Numeral.negative h
  have hrational := congrArg Numeral.rational h
  rcases Double.isZero_or_of_isFinite hx with hxz | ⟨s, m, e, hm, hxu⟩ <;>
    rcases Double.isZero_or_of_isFinite hy with hyz | ⟨t, n, f, hn, hyu⟩
  · obtain ⟨s, hxu⟩ := hxz
    obtain ⟨t, hyu⟩ := hyz
    rw [numeral_of_zero hxu, numeral_of_zero hyu] at hneg
    rw [hxu, hyu, isNegative_injective hneg]
  · rw [rational_of_zero hxz] at hrational
    exact absurd hrational (rational_pos hyu).ne
  · rw [rational_of_zero hyz] at hrational
    exact absurd hrational (rational_pos hxu).ne'
  · rw [numeral_of_finite hxu, numeral_of_finite hyu] at hneg
    rw [rational_of_finite hxu, rational_of_finite hyu] at hrational
    have hxv := Decimal.readsAs_ofDouble .even hm e
    have hyv := Decimal.readsAs_ofDouble .even hn f
    rw [← hrational] at hyv
    obtain ⟨rfl, rfl⟩ := Double.eq_of_readsAs (Double.canonical_of_unpack hxu)
      (Double.canonical_of_unpack hyu) hxv hyv
    rw [hxu, hyu]
    congr 1
    exact isNegative_injective hneg

/-- The numeral of a finite number tells which number it is. -/
theorem numeral_injective {n n' : Number} (hn : n.IsFinite) (hn' : n'.IsFinite)
    (h : n.numeral = n'.numeral) : n = n' := by
  cases n with
  | integer i =>
    cases n' with
    | integer j =>
      have hneg : i < 0 ↔ j < 0 := decide_eq_decide.mp (congrArg Numeral.negative h)
      have habs : i.natAbs = j.natAbs := by
        rw [← Numeral.natural_ofNat i.natAbs, ← Numeral.natural_ofNat j.natAbs]
        exact congrArg (fun n => Numeral.natural n.whole) h
      rw [show i = j by omega]
    | real y =>
      refine absurd ?_ (not_whole_numeral hn')
      rw [← h]
      exact ⟨rfl, rfl⟩
  | real x =>
    cases n' with
    | integer j =>
      refine absurd ?_ (not_whole_numeral hn)
      rw [h]
      exact ⟨rfl, rfl⟩
    | real y => rw [eq_of_numeral_eq hn hn' h]

end Number

end DesignBrief
