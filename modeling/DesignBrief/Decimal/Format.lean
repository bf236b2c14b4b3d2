import DesignBrief.Decimal.Shortest

/-!
How a double is laid out as text: with all its places around a point, or as one digit before the
point and a power of ten. A `Format` holds the choices; the digits are always the shortest that
read back.
-/

namespace DesignBrief

/-- The choices one written form of doubles makes. -/
structure Format where
  /-- Which of two equally short and equally near decimals is written. -/
  tie : Tie
  /-- Whether a number whose leading digit stands for `10 ^ k` is written without exponent. -/
  plain : Int → Bool
  /-- What follows the digits of a whole number that is written without exponent. -/
  whole : String

namespace Format

def zeros (n : Nat) : List Char := List.replicate n '0'

/-- All places of `digits * 10 ^ exponent` around a point. -/
def places (f : Format) (d : Decimal) : List Char :=
  let ds := Nat.toDigits 10 d.digits
  if 0 ≤ d.exponent then
    ds ++ zeros d.exponent.toNat ++ f.whole.toList
  else
    let before := ds.length + d.exponent
    if 0 < before then
      ds.take before.toNat ++ '.' :: ds.drop before.toNat
    else
      '0' :: '.' :: zeros (-before).toNat ++ ds

/-- One digit before the point and the power of ten `k` behind a signed exponent mark. -/
def scientific (k : Int) (d : Decimal) : List Char :=
  let mantissa :=
    match Nat.toDigits 10 d.digits with
    | [] => []
    | [c] => [c]
    | c :: cs => c :: '.' :: cs
  mantissa ++ 'e' :: (if k < 0 then '-' else '+') :: Nat.toDigits 10 k.natAbs

def magnitude (f : Format) (d : Decimal) : List Char :=
  let k := (Nat.toDigits 10 d.digits).length - 1 + d.exponent
  if f.plain k then f.places d else scientific k d

/-- A minus sign for a negative number, nothing for a positive one. -/
def sign : Float.Model.UnpackedFloat.Sign → List Char
  | .positive => []
  | .negative => ['-']

def render (f : Format) (x : Float) : List Char :=
  match x.toModel.unpack with
  | .notANumber => ['N', 'a', 'N']
  | .infinity s => sign s ++ ['i', 'n', 'f']
  | .zero s => sign s ++ '0' :: f.whole.toList
  | .finite s m e _ => sign s ++ f.magnitude (.ofDouble f.tie m e)

end Format
end DesignBrief
