import DesignBrief.Scene.Probe
import DesignBrief.Style.Fill

/-!
Text styles. Line height and letter spacing are given relative to the font size.
-/

namespace DesignBrief

structure TextStyle where
  fontFamily : Option String := none
  fontWeight : Option Float := none
  fontSize : Option Float := none
  lineHeight : Option String := none
  letterSpacing : Option String := none
  textCase : Option String := none
  alignHorizontal : Option String := none
  alignVertical : Option String := none
deriving DecidableEq, BEq

namespace TextStyle

def isEmpty (s : TextStyle) : Bool :=
  s.fontFamily.isNone && s.fontWeight.isNone && s.fontSize.isNone && s.lineHeight.isNone
    && s.letterSpacing.isNone && s.textCase.isNone && s.alignHorizontal.isNone
    && s.alignVertical.isNone

/-- A length in relation to the font size, if there is one other than zero. -/
def relative? (length size : Option Float) : Option Float := do
  Rounding.ratio? (← length) (← size.filter (· != 0))

def ofTypeStyle (s : TypeStyle) : TextStyle where
  fontFamily := s.fontFamily
  fontWeight := s.fontWeight
  fontSize := s.fontSize
  lineHeight := (relative? s.lineHeight s.fontSize).map Css.em
  letterSpacing := (relative? (s.letterSpacing.filter (· != 0)) s.fontSize).map Css.percent
  textCase := s.textCase
  alignHorizontal := s.alignHorizontal
  alignVertical := s.alignVertical

def toJson (s : TextStyle) : Json :=
  .present [("fontFamily", s.fontFamily.map .string), ("fontWeight", s.fontWeight.map .real),
    ("fontSize", s.fontSize.map .real), ("lineHeight", s.lineHeight.map .string),
    ("letterSpacing", s.letterSpacing.map .string), ("textCase", s.textCase.map .string),
    ("textAlignHorizontal", s.alignHorizontal.map .string),
    ("textAlignVertical", s.alignVertical.map .string)]

end TextStyle
end DesignBrief
