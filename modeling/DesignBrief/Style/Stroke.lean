import DesignBrief.Scene.Probe
import DesignBrief.Style.Fill

/-!
Strokes: the shown stroke paints of a node with their weight and dashes.
-/

namespace DesignBrief

structure Stroke where
  colors : List Fill := []
  weight : Option String := none
  dashes : Option (List Float) := none
deriving DecidableEq, BEq

namespace Stroke

def isEmpty (s : Stroke) : Bool := s.colors.isEmpty

/-- The stroke weight; weights of single edges go before the common one. -/
def weightOf (a : Attributes) : Option String :=
  match a.edgeWeights with
  | some e => some (Css.edges e)
  | none => a.strokeWeight?.map Css.px

def ofAttributes (a : Attributes) : Stroke where
  colors := ((a.strokes?.getD []).filter (isShown ·.visible)).map Fill.ofPaint
  weight := weightOf a
  dashes := a.strokeDashes?

def toJson (s : Stroke) : Json :=
  .present [("colors", some (.ofList Fill.toJson s.colors)), ("strokeWeight", s.weight.map .string),
    ("strokeDashes", s.dashes.map (.ofList .real))]

end Stroke
end DesignBrief
