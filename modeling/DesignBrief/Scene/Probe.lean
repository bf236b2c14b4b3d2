import DesignBrief.Scene.Node

/-!
What of a node is there and means something. Empty lists, empty texts, zero lengths and the value
that holds anyway count as absent.
-/

namespace DesignBrief

/-- A visibility flag; what carries none is visible. -/
def isShown (visible : Option Bool) : Bool := visible.getD true

def nonempty? {α : Type} (xs : Option (List α)) : Option (List α) := xs.filter (!·.isEmpty)

theorem nonempty?_eq_some_iff {α : Type} {xs : Option (List α)} {l : List α} :
    nonempty? xs = some l ↔ xs = some l ∧ l ≠ [] := by
  simp [nonempty?, Option.filter_eq_some_iff]

theorem getD_nonempty? {α : Type} (xs : Option (List α)) :
    (nonempty? xs).getD [] = xs.getD [] := by
  cases xs with
  | none => rfl
  | some l => cases l <;> rfl

def TypeStyle.isSet (s : TypeStyle) : Bool :=
  s.fontFamily.isSome || s.fontWeight.isSome || s.fontSize.isSome || s.lineHeight.isSome
    || s.letterSpacing.isSome || s.textCase.isSome || s.alignHorizontal.isSome
    || s.alignVertical.isSome

/-- A node as a frame: what it asks of the layout of its children. -/
structure Frame where
  mode : Option LayoutMode
  primaryAlign : Option AxisAlign
  counterAlign : Option AxisAlign
  wraps : Bool
  itemSpacing : Option Float
  padding : Option Edges
  scrollsX : Bool
  scrollsY : Bool
  selfAlign : Option SelfAlign
deriving DecidableEq

/-- A node as a child: what it asks of the layout of its parent. -/
structure Placement where
  sizeHorizontal : Option SizeRule
  sizeVertical : Option SizeRule
  isAbsolute : Bool
  grows : Bool
  stretches : Bool
  preservesRatio : Bool
  box : Option Box
deriving DecidableEq

namespace Attributes

variable (a : Attributes)

def isVisible : Bool := isShown a.visible

def fills? : Option (List Paint) := nonempty? a.fills

def strokes? : Option (List Paint) := nonempty? a.strokes

def effects? : Option (List Effect) := nonempty? a.effects

def textStyle? : Option TypeStyle := a.typeStyle.filter TypeStyle.isSet

def characters? : Option String := a.characters.filter (· != "")

/-- A positive weight for all strokes. -/
def strokeWeight? : Option Float := a.strokeWeight.filter fun w => w.isFinite && w > 0

def strokeDashes? : Option (List Float) := nonempty? a.strokeDashes

/-- A positive radius for all corners. -/
def cornerRadius? : Option Float := a.cornerRadius.filter fun r => r.isFinite && r > 0

/-- Radii for the four corners, not all of them zero. -/
def cornerRadii? : Option Edges :=
  match a.cornerRadii with
  | some [r₁, r₂, r₃, r₄] =>
    if [r₁, r₂, r₃, r₄].all Float.isFinite && [r₁, r₂, r₃, r₄].any (· != 0) then
      some ⟨r₁, r₂, r₃, r₄⟩
    else none
  | _ => none

/-- An opacity other than 1. -/
def opacity? : Option Float := a.opacity.filter fun o => o.isFinite && o != 1

/-- Whether the node stands outside the flow of its parent. -/
def isAbsolute : Bool := a.positioning == some .absolute

/-- Spacing between children, not zero. -/
def itemSpacing? : Option Float := a.itemSpacing.filter fun s => s.isFinite && s != 0

/-- Padding, zero where it is not given, unless it is zero all around. -/
def padding? : Option Edges :=
  let edges : Edges :=
    ⟨a.paddingTop.getD 0, a.paddingRight.getD 0, a.paddingBottom.getD 0, a.paddingLeft.getD 0⟩
  if edges.isZero then none else some edges

/-- Whether the node says anything that only a frame says. -/
def isFrame : Bool := a.clipsContent.isSome || a.layoutMode.isSome

/-- What the node asks of the layout of its children, whether it is a frame or not. -/
def frame : Frame where
  mode := a.layoutMode
  primaryAlign := a.primaryAlign
  counterAlign := a.counterAlign
  wraps := a.wrap == some .wrap
  itemSpacing := a.itemSpacing?
  padding := a.padding?
  scrollsX := a.overflow == some .horizontal || a.overflow == some .both
  scrollsY := a.overflow == some .vertical || a.overflow == some .both
  selfAlign := a.selfAlign

def frame? : Option Frame := if a.isFrame then some a.frame else none

def isPlaced : Bool :=
  a.box.isSome || a.sizeHorizontal.isSome || a.sizeVertical.isSome || a.positioning.isSome
    || a.selfAlign.isSome || a.grow.isSome

/-- What the node asks of the layout of its parent, whether it says anything about it or not. -/
def placement : Placement where
  sizeHorizontal := a.sizeHorizontal
  sizeVertical := a.sizeVertical
  isAbsolute := a.isAbsolute
  grows := a.grow.any (· != 0)
  stretches := a.selfAlign == some .stretch
  preservesRatio := a.preserveRatio == some true
  box := a.box

def placement? : Option Placement := if a.isPlaced then some a.placement else none

end Attributes

namespace Node

def children? (n : Node) : Option (List Node) := nonempty? n.children

def visibleChildren (n : Node) : List Node :=
  (n.children?.getD []).filter (·.attributes.isVisible)

end Node
end DesignBrief
