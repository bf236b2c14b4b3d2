/-!
The fixed stocks of names that a design file draws on. Each stock ends in `unknown`, which stands
for every name that is not in it, so that no name is ever refused.
-/

namespace DesignBrief

/-- A type whose values are names, with one that stands for all others. -/
class Keyword (α : Type) where
  /-- The values that have a name of their own. -/
  all : List α
  /-- The written name. -/
  name : α → String
  /-- The value for all other names. -/
  unknown : α
  /-- Every value is found again by its name. -/
  find_name : ∀ k, (all.find? fun j => name j == name k).getD unknown = k

def Keyword.ofName {α : Type} [Keyword α] (s : String) : α :=
  ((all : List α).find? fun k => name k == s).getD unknown

theorem Keyword.ofName_name {α : Type} [Keyword α] (k : α) : ofName (name k) = k :=
  find_name k

inductive GradientShape where
  | linear
  | radial
  | angular
  | diamond
deriving DecidableEq

inductive PaintKind where
  | solid
  | gradient (shape : GradientShape)
  | image
  | emoji
  | video
  | pattern
  | unknown
deriving DecidableEq

namespace PaintKind

/-- Whether a paint runs through several colours. -/
def isGradient : PaintKind → Bool
  | gradient _ => true
  | _ => false

instance : Keyword PaintKind where
  all := [solid, gradient .linear, gradient .radial, gradient .angular, gradient .diamond,
    image, emoji, video, pattern]
  name
    | solid => "SOLID"
    | gradient .linear => "GRADIENT_LINEAR"
    | gradient .radial => "GRADIENT_RADIAL"
    | gradient .angular => "GRADIENT_ANGULAR"
    | gradient .diamond => "GRADIENT_DIAMOND"
    | image => "IMAGE"
    | emoji => "EMOJI"
    | video => "VIDEO"
    | pattern => "PATTERN"
    | unknown => "UNKNOWN"
  unknown := unknown
  find_name k := by
    cases k with
    | gradient shape => cases shape <;> rfl
    | _ => rfl

end PaintKind

/-- How an image is fitted into its shape. -/
inductive ScaleMode where
  | fill
  | fit
  | tile
  | stretch
  | unknown
deriving DecidableEq

instance : Keyword ScaleMode where
  all := [.fill, .fit, .tile, .stretch]
  name
    | .fill => "FILL"
    | .fit => "FIT"
    | .tile => "TILE"
    | .stretch => "STRETCH"
    | .unknown => "UNKNOWN"
  unknown := .unknown
  find_name k := by cases k <;> rfl

inductive EffectKind where
  | dropShadow
  | innerShadow
  | layerBlur
  | backgroundBlur
  | unknown
deriving DecidableEq

instance : Keyword EffectKind where
  all := [.dropShadow, .innerShadow, .layerBlur, .backgroundBlur]
  name
    | .dropShadow => "DROP_SHADOW"
    | .innerShadow => "INNER_SHADOW"
    | .layerBlur => "LAYER_BLUR"
    | .backgroundBlur => "BACKGROUND_BLUR"
    | .unknown => "UNKNOWN"
  unknown := .unknown
  find_name k := by cases k <;> rfl

/-- The direction in which a frame lays out its children. -/
inductive LayoutMode where
  | none
  | horizontal
  | vertical
  | unknown
deriving DecidableEq

instance : Keyword LayoutMode where
  all := [.none, .horizontal, .vertical]
  name
    | .none => "NONE"
    | .horizontal => "HORIZONTAL"
    | .vertical => "VERTICAL"
    | .unknown => "UNKNOWN"
  unknown := .unknown
  find_name k := by cases k <;> rfl

/-- Where children are placed along an axis of their frame. -/
inductive AxisAlign where
  | min
  | max
  | center
  | spaceBetween
  | baseline
  | unknown
deriving DecidableEq

instance : Keyword AxisAlign where
  all := [.min, .max, .center, .spaceBetween, .baseline]
  name
    | .min => "MIN"
    | .max => "MAX"
    | .center => "CENTER"
    | .spaceBetween => "SPACE_BETWEEN"
    | .baseline => "BASELINE"
    | .unknown => "UNKNOWN"
  unknown := .unknown
  find_name k := by cases k <;> rfl

/-- Whether children go on in a new line. -/
inductive LayoutWrap where
  | noWrap
  | wrap
  | unknown
deriving DecidableEq

instance : Keyword LayoutWrap where
  all := [.noWrap, .wrap]
  name
    | .noWrap => "NO_WRAP"
    | .wrap => "WRAP"
    | .unknown => "UNKNOWN"
  unknown := .unknown
  find_name k := by cases k <;> rfl

/-- The directions in which content may be scrolled. -/
inductive Overflow where
  | none
  | horizontal
  | vertical
  | both
  | unknown
deriving DecidableEq

instance : Keyword Overflow where
  all := [.none, .horizontal, .vertical, .both]
  name
    | .none => "NONE"
    | .horizontal => "HORIZONTAL_SCROLLING"
    | .vertical => "VERTICAL_SCROLLING"
    | .both => "HORIZONTAL_AND_VERTICAL_SCROLLING"
    | .unknown => "UNKNOWN"
  unknown := .unknown
  find_name k := by cases k <;> rfl

/-- How a child places itself across its frame. -/
inductive SelfAlign where
  | inherit
  | min
  | max
  | center
  | stretch
  | unknown
deriving DecidableEq

instance : Keyword SelfAlign where
  all := [.inherit, .min, .max, .center, .stretch]
  name
    | .inherit => "INHERIT"
    | .min => "MIN"
    | .max => "MAX"
    | .center => "CENTER"
    | .stretch => "STRETCH"
    | .unknown => "UNKNOWN"
  unknown := .unknown
  find_name k := by cases k <;> rfl

/-- Whether a child takes part in the flow of its frame. -/
inductive Positioning where
  | auto
  | absolute
  | unknown
deriving DecidableEq

instance : Keyword Positioning where
  all := [.auto, .absolute]
  name
    | .auto => "AUTO"
    | .absolute => "ABSOLUTE"
    | .unknown => "UNKNOWN"
  unknown := .unknown
  find_name k := by cases k <;> rfl

/-- What decides the size of a child in one direction. -/
inductive SizeRule where
  | fixed
  | fill
  | hug
  | unknown
deriving DecidableEq

instance : Keyword SizeRule where
  all := [.fixed, .fill, .hug]
  name
    | .fixed => "FIXED"
    | .fill => "FILL"
    | .hug => "HUG"
    | .unknown => "UNKNOWN"
  unknown := .unknown
  find_name k := by cases k <;> rfl

end DesignBrief
