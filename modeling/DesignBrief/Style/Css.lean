import DesignBrief.Decimal.Format
import DesignBrief.Decimal.Rounding
import DesignBrief.Geometry
import DesignBrief.Scene.Node

/-!
The notations of style sheets: lengths, colours, and numbers inside them, which never have an
exponent.
-/

namespace DesignBrief.Css

/-- Numbers have all their places, and no point if they are whole. -/
def numberFormat : Format where
  tie := .up
  plain _ := true
  whole := ""

def number (x : Float) : String := String.ofList (numberFormat.render x)

def px (x : Float) : String := number x ++ "px"

def em (x : Float) : String := number x ++ "em"

/-- A percentage, of a ratio. -/
def percent (ratio : Float) : String := number (ratio * 100) ++ "%"

def edges (e : Edges) : String :=
  px e.top ++ " " ++ px e.right ++ " " ++ px e.bottom ++ " " ++ px e.left

/-- A hexadecimal digit, in upper case. -/
def hexDigit (n : Nat) : Char :=
  if n < 10 then Char.ofNat ('0'.toNat + n) else Char.ofNat ('A'.toNat + n - 10)

def hexByte (b : UInt8) : List Char := [hexDigit (b.toNat / 16), hexDigit (b.toNat % 16)]

/-- The channels of a colour in hexadecimal, without its alpha. -/
def hex (c : Color) : String :=
  let byte x := hexByte (Rounding.toByte x)
  String.ofList ('#' :: byte c.r ++ byte c.g ++ byte c.b)

/-- The channels of a colour as bytes, and its alpha in hundredths. -/
def rgba (c : Color) : String :=
  let byte x := toString (Rounding.toByte x).toNat
  "rgba(" ++ byte c.r ++ ", " ++ byte c.g ++ ", " ++ byte c.b ++ ", "
    ++ number (Rounding.toHundredths c.a) ++ ")"

end DesignBrief.Css
