import DesignBrief.Geometry
import DesignBrief.Scene.Keyword

/-!
A design file as it is fetched: a tree of nodes with many optional attributes. A node is its
attributes and its children; everything but the children can be looked at without the tree.
-/

namespace DesignBrief

/-- A colour by its channels between 0 and 1. -/
structure Color where
  r : Float := 0
  g : Float := 0
  b : Float := 0
  a : Float := 1
deriving DecidableEq, BEq

structure ColorStop where
  position : Float
  color : Color
deriving DecidableEq, BEq

structure Paint where
  kind : PaintKind
  visible : Option Bool := none
  opacity : Option Float := none
  color : Option Color := none
  handles : Option (List Point) := none
  stops : Option (List ColorStop) := none
  imageRef : Option String := none
  scaleMode : Option ScaleMode := none
deriving DecidableEq

structure Effect where
  kind : EffectKind
  visible : Option Bool := none
  radius : Float := 0
  color : Option Color := none
  offset : Option Point := none
  spread : Option Float := none
deriving DecidableEq

/-- The style of a text, its names kept as they are written. -/
structure TypeStyle where
  fontFamily : Option String := none
  fontWeight : Option Float := none
  fontSize : Option Float := none
  lineHeight : Option Float := none
  letterSpacing : Option Float := none
  textCase : Option String := none
  alignHorizontal : Option String := none
  alignVertical : Option String := none
deriving DecidableEq

structure Attributes where
  id : String := ""
  name : String := ""
  kind : String := ""
  visible : Option Bool := none
  box : Option Box := none
  fills : Option (List Paint) := none
  strokes : Option (List Paint) := none
  strokeWeight : Option Float := none
  edgeWeights : Option Edges := none
  strokeDashes : Option (List Float) := none
  effects : Option (List Effect) := none
  typeStyle : Option TypeStyle := none
  characters : Option String := none
  opacity : Option Float := none
  cornerRadius : Option Float := none
  cornerRadii : Option (List Float) := none
  clipsContent : Option Bool := none
  layoutMode : Option LayoutMode := none
  primaryAlign : Option AxisAlign := none
  counterAlign : Option AxisAlign := none
  wrap : Option LayoutWrap := none
  itemSpacing : Option Float := none
  paddingTop : Option Float := none
  paddingRight : Option Float := none
  paddingBottom : Option Float := none
  paddingLeft : Option Float := none
  overflow : Option Overflow := none
  selfAlign : Option SelfAlign := none
  grow : Option Float := none
  positioning : Option Positioning := none
  sizeHorizontal : Option SizeRule := none
  sizeVertical : Option SizeRule := none
  preserveRatio : Option Bool := none
deriving DecidableEq

structure Node where
  attributes : Attributes := {}
  children : Option (List Node) := none

/-- What is kept of a node that was asked for by its id. -/
structure NodeEntry where
  document : Node

/-- The answer to a request for a whole file, or for single nodes by their ids. -/
structure Response where
  name : String := ""
  lastModified : String := ""
  thumbnailUrl : Option String := none
  document : Option Node := none
  /-- In the order of the answer; an id that was not found comes back without entry. -/
  nodes : Option (List (String × Option NodeEntry)) := none

end DesignBrief
