import DesignBrief.Json.Fault

/-!
Numerals of a JSON text and the numbers they stand for. A whole number that fits 64 bits is read
exactly. Every other numeral is cut to the leading digits that fit 64 bits, and the power of ten is
applied to their double in one multiplication or division, so the result can be one step off the
nearest double.
-/

namespace DesignBrief

abbrev Digit := Fin 10

def Digit.ofChar? (c : Char) : Option Digit :=
  if '0' ≤ c ∧ c ≤ '9' then some (Fin.ofNat 10 (c.toNat - '0'.toNat)) else none

/-- A numeral: sign, digits before and after the point, and a signed exponent. -/
structure Numeral where
  negative : Bool := false
  whole : List Digit
  fraction : List Digit := []
  exponent : Option (Bool × List Digit) := none
deriving DecidableEq

namespace Numeral

/-- First number that does not fit 64 bits. -/
def bound : Nat := 0x10000000000000000

/-- Greatest exponent that is counted exactly. -/
def exponentBound : Nat := 0x7FFFFFFF

def natural (digits : List Digit) : Nat := digits.foldl (fun n d => 10 * n + d.val) 0

/-- Appends digits to a significand as long as it stays below the bound; gives back the others. -/
def absorb (m : Nat) : List Digit → Nat × List Digit
  | [] => (m, [])
  | d :: ds => if 10 * m + d.val < bound then absorb (10 * m + d.val) ds else (m, d :: ds)

/-- The leading digits that fit 64 bits and the power of ten they are to be multiplied by. -/
def significand (n : Numeral) : Nat × Int :=
  let (m, dropped) := absorb 0 n.whole
  let (m', rest) := absorb m n.fraction
  (m', dropped.length - ((n.fraction.length - rest.length : Nat) : Int))

/-- The double nearest to `10 ^ k`. -/
def power (k : Nat) : Float := Float.ofScientific 1 false k

/--
`m * 10 ^ e`, with one multiplication or division by a power of at most 308. A smaller number is
divided by `10 ^ 308` first; after two such divisions nothing is left of 64 bits.
-/
def scale (m : Nat) (e : Int) : Except Fault Float :=
  let x := m.toUInt64.toFloat
  let k := e.natAbs
  if 0 ≤ e then
    if k ≤ 308 then
      let y := x * power k
      if y.isInf then .error .numberOutOfRange else .ok y
    else if m = 0 then .ok x
    else .error .numberOutOfRange
  else if k ≤ 308 then .ok (x / power k)
  else if k ≤ 616 then .ok (x / power 308 / power (k - 308))
  else .ok 0

/-- The magnitude of a numeral that has a point or an exponent, or that does not fit 64 bits. -/
def magnitude (n : Numeral) : Except Fault Float :=
  let (m, e) := n.significand
  match n.exponent with
  | none => scale m e
  | some (down, ds) =>
    let k := natural ds
    if k ≤ exponentBound then scale m (if down then e - k else e + k)
    else if down || m == 0 then .ok 0
    else .error .numberOutOfRange

def real (n : Numeral) : Except Fault Number :=
  n.magnitude.map fun x => .real (if n.negative then -x else x)

/-- The number a numeral stands for. -/
def value (n : Numeral) : Except Fault Number :=
  match n.fraction, n.exponent with
  | [], none =>
    let m := natural n.whole
    if n.negative then
      if 0 < m ∧ m ≤ bound / 2 then .ok (.integer (-m)) else n.real
    else if m < bound then .ok (.integer m)
    else n.real
  | _, _ => n.real

end Numeral
end DesignBrief
