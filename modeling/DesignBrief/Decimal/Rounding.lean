/-!
Rounding of doubles: to whole numbers and to hundredths with halves away from zero, colour channels
to bytes, and quotients that are kept only if they are finite.
-/

namespace DesignBrief.Rounding

/-- `n` as a double with the given sign; exact up to `2 ^ 53`. -/
def signed (s : Float.Model.UnpackedFloat.Sign) (n : Nat) : Float :=
  match s with
  | .positive => n.toUInt64.toFloat
  | .negative => -n.toUInt64.toFloat

/-- The nearest whole number to `m / 2 ^ k`, halves upwards. -/
def halfUp (m k : Nat) : Nat := (2 * m + Nat.pow 2 k) / Nat.pow 2 (k + 1)

/-- The nearest whole number, halves away from zero; what is not finite stays as it is. -/
def toWhole (x : Float) : Float :=
  match x.toModel.unpack with
  | .finite s m e _ => if 0 ≤ e then x else signed s (halfUp m (-e).toNat)
  | _ => x

/-- Rounds to two decimal places by way of the whole number of hundredths. -/
def toHundredths (x : Float) : Float := toWhole (x * 100) / 100

/-- `x` brought into the interval from 0 to 1. -/
def clamp (x : Float) : Float :=
  if x < 0 then 0 else if 1 < x then 1 else x

/-- A colour channel between 0 and 1 as a byte; 0 for what is not finite. -/
def toByte (x : Float) : UInt8 :=
  if x.isFinite then (toWhole (clamp x * 255)).toUInt8 else 0

/-- The quotient, if it is a finite number. -/
def ratio? (num den : Float) : Option Float :=
  if den == 0 then none
  else
    let r := num / den
    if r.isFinite then some r else none

end DesignBrief.Rounding
