import DesignBrief.Json.Printer
import DesignBrief.Style.Effects
import DesignBrief.Style.Layout
import DesignBrief.Style.Stroke
import DesignBrief.Style.TextStyle

/-!
Style values of all categories, and the text by which they are compared.
-/

namespace DesignBrief

/-- What a style is about. -/
inductive Category where
  | text
  | fill
  | stroke
  | effect
  | layout
deriving DecidableEq, Hashable

def Category.label : Category → String
  | .text => "style"
  | .fill => "fill"
  | .stroke => "stroke"
  | .effect => "effect"
  | .layout => "layout"

inductive StyleValue where
  | text (style : TextStyle)
  | fills (fills : List Fill)
  | stroke (stroke : Stroke)
  | effects (effects : Effects)
  | layout (layout : Layout)
deriving DecidableEq, BEq

namespace StyleValue

def category : StyleValue → Category
  | text _ => .text
  | fills _ => .fill
  | stroke _ => .stroke
  | effects _ => .effect
  | layout _ => .layout

/-- A style as a JSON value; the category is not told. -/
def toJson : StyleValue → Json
  | text s => s.toJson
  | fills fs => .ofList Fill.toJson fs
  | stroke s => s.toJson
  | effects e => e.toJson
  | layout l => l.toJson

/-- The canonical text of a style. Styles of one category are the same if their texts are. -/
def canonical (v : StyleValue) : String := v.toJson.compact

end StyleValue
end DesignBrief
