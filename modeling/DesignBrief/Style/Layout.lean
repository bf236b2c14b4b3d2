import DesignBrief.Scene.Probe
import DesignBrief.Style.Fill

/-!
Layouts, in the terms of flexible boxes. A layout has two sources: the node as a frame gives the
flow of its own children, and the node as a child gives its place in the flow of its parent, or
outside it. Of the parent only its flow and its box are looked at.
-/

namespace DesignBrief

/-- The direction in which children follow each other. -/
inductive Flow where
  | row
  | column
  | none
deriving DecidableEq

/-- Where something is placed along an axis; the start is the place of what says nothing. -/
inductive Alignment where
  | flexEnd
  | center
  | spaceBetween
  | baseline
  | stretch
deriving DecidableEq

inductive Sizing where
  | fixed
  | fill
  | hug
deriving DecidableEq

inductive ScrollAxis where
  | x
  | y
deriving DecidableEq

structure SizingPair where
  horizontal : Option Sizing := none
  vertical : Option Sizing := none
deriving DecidableEq

/-- The sizes that the flow does not determine. -/
structure Dimensions where
  width : Option Float := none
  height : Option Float := none
  aspectRatio : Option Float := none
deriving DecidableEq, BEq

/-- How a node lays out its children and how it is laid out itself. -/
structure Layout where
  mode : Flow := .none
  justifyContent : Option Alignment := none
  alignItems : Option Alignment := none
  alignSelf : Option Alignment := none
  wrap : Bool := false
  gap : Option String := none
  location : Option Point := none
  dimensions : Option Dimensions := none
  padding : Option String := none
  sizing : Option SizingPair := none
  scroll : List ScrollAxis := []
  isAbsolute : Bool := false
deriving DecidableEq, BEq

namespace Layout

def flowOfMode : Option LayoutMode → Flow
  | some .horizontal => .row
  | some .vertical => .column
  | _ => .none

def flow (a : Attributes) : Flow :=
  match a.frame? with
  | some frame => flowOfMode frame.mode
  | none => .none

/-- The alignment along the flow. -/
def justify : Option AxisAlign → Option Alignment
  | some .max => some .flexEnd
  | some .center => some .center
  | some .spaceBetween => some .spaceBetween
  | _ => none

/-- The alignment across the flow. -/
def align : Option AxisAlign → Option Alignment
  | some .max => some .flexEnd
  | some .center => some .center
  | some .baseline => some .baseline
  | _ => none

def alignSelf? : Option SelfAlign → Option Alignment
  | some .max => some .flexEnd
  | some .center => some .center
  | some .stretch => some .stretch
  | _ => none

/-- What decides a size, if it is one of the known rules. -/
def sizing? : Option SizeRule → Option Sizing
  | some .fixed => some .fixed
  | some .fill => some .fill
  | some .hug => some .hug
  | _ => none

/-- The size rule of a node across a flow. -/
def crossSize (flow : Flow) (a : Attributes) : Option SizeRule :=
  match flow with
  | .row => a.sizeVertical
  | .column => a.sizeHorizontal
  | .none => none

/-- Whether a child leaves no room across the flow: it fills it, or stands outside. -/
def fillsAcross (flow : Flow) (a : Attributes) : Bool :=
  a.isAbsolute || crossSize flow a == some .fill

/-- Whether there are children and all of them leave no room across the flow. -/
def allFillAcross (flow : Flow) (children : List Node) : Bool :=
  !children.isEmpty && children.all fun c => fillsAcross flow c.attributes

/-- The directions a frame scrolls in. -/
def scrollOf (frame : Frame) : List ScrollAxis :=
  (if frame.scrollsX then [.x] else []) ++ (if frame.scrollsY then [.y] else [])

/-- The layout of a frame; children that are not shown count as well. -/
def ofFrame (frame : Frame) (children : List Node) : Layout :=
  let mode := flowOfMode frame.mode
  let scroll := scrollOf frame
  if mode = .none then { mode, scroll }
  else
    { mode, scroll
      justifyContent := justify frame.primaryAlign
      alignItems :=
        if allFillAcross mode children then some .stretch else align frame.counterAlign
      alignSelf := alignSelf? frame.selfAlign
      wrap := frame.wraps
      gap := frame.itemSpacing.map Css.px
      padding := frame.padding.map Css.edges }

/-- The sizing of a child in both directions, unless neither is known. -/
def sizingOf (p : Placement) : Option SizingPair :=
  let pair : SizingPair := ⟨sizing? p.sizeHorizontal, sizing? p.sizeVertical⟩
  if pair = {} then none else some pair

/--
The fixed sizes that the flow does not override: growing overrides the size along the node's own
flow, stretching the size across it. Only columns keep a ratio.
-/
def dimensionsIn (mode : Flow) (p : Placement) (box : Box) : Dimensions :=
  let fixedWidth := p.sizeHorizontal == some .fixed
  let fixedHeight := p.sizeVertical == some .fixed
  match mode with
  | .row =>
    { width := if !p.grows && fixedWidth then some box.width else none
      height := if !p.stretches && fixedHeight then some box.height else none }
  | .column =>
    { width := if !p.stretches && fixedWidth then some box.width else none
      height := if !p.grows && fixedHeight then some box.height else none
      aspectRatio := if p.preservesRatio then Rounding.ratio? box.width box.height else none }
  | .none => {}

def dimensions? (d : Dimensions) : Option Dimensions :=
  if d.width.isNone && d.height.isNone && d.aspectRatio.isNone then none else some d

/-- Adds the place of a child. Outside a flow it has a location, inside it has dimensions. -/
def place (layout : Layout) (p : Placement) (parent : Option Attributes) : Layout :=
  let layout := { layout with sizing := sizingOf p }
  let parentFlow := (parent.map flow).getD .none
  let parentBox := parent.bind (·.box)
  if parentFlow = .none || p.isAbsolute then
    { layout with
      isAbsolute := p.isAbsolute
      location :=
        match p.box, parentBox with
        | some b, some pb => some (b.origin.minus pb.origin)
        | _, _ => none }
  else
    match p.box, parentBox with
    | some b, some _ => { layout with dimensions := dimensions? (dimensionsIn layout.mode p b) }
    | _, _ => layout

@[simp] theorem mode_ofFrame (frame : Frame) (children : List Node) :
    (ofFrame frame children).mode = flowOfMode frame.mode := by
  simp only [ofFrame]
  split <;> rfl

def ofNode (node : Node) (parent : Option Attributes) : Layout :=
  let own :=
    match node.attributes.frame? with
    | some frame => ofFrame frame (node.children?.getD [])
    | none => {}
  match node.attributes.placement? with
  | some p => own.place p parent
  | none => own

/-- Whether a layout tells more than the flow. -/
def isInformative (l : Layout) : Bool :=
  l.justifyContent.isSome || l.alignItems.isSome || l.alignSelf.isSome || l.wrap
    || l.gap.isSome || l.location.isSome || l.dimensions.isSome || l.padding.isSome
    || l.sizing.isSome || !l.scroll.isEmpty || l.isAbsolute

end Layout

def Flow.toJson : Flow → Json
  | .row => .string "row"
  | .column => .string "column"
  | .none => .string "none"

def Alignment.toJson : Alignment → Json
  | .flexEnd => .string "flex-end"
  | .center => .string "center"
  | .spaceBetween => .string "space-between"
  | .baseline => .string "baseline"
  | .stretch => .string "stretch"

def Sizing.toJson : Sizing → Json
  | .fixed => .string "fixed"
  | .fill => .string "fill"
  | .hug => .string "hug"

def ScrollAxis.toJson : ScrollAxis → Json
  | .x => .string "x"
  | .y => .string "y"

def SizingPair.toJson (s : SizingPair) : Json :=
  .present [("horizontal", s.horizontal.map Sizing.toJson),
    ("vertical", s.vertical.map Sizing.toJson)]

def Dimensions.toJson (d : Dimensions) : Json :=
  .present [("width", d.width.map .real), ("height", d.height.map .real),
    ("aspectRatio", d.aspectRatio.map .real)]

def Layout.toJson (l : Layout) : Json :=
  .present [("mode", some l.mode.toJson), ("justifyContent", l.justifyContent.map Alignment.toJson),
    ("alignItems", l.alignItems.map Alignment.toJson),
    ("alignSelf", l.alignSelf.map Alignment.toJson),
    ("wrap", if l.wrap then some (.bool true) else none), ("gap", l.gap.map .string),
    ("locationRelativeToParent", l.location.map Point.toJson),
    ("dimensions", l.dimensions.map Dimensions.toJson), ("padding", l.padding.map .string),
    ("sizing", l.sizing.map SizingPair.toJson),
    ("overflowScroll", if l.scroll.isEmpty then none else some (.ofList ScrollAxis.toJson l.scroll)),
    ("position", if l.isAbsolute then some (.string "absolute") else none)]

end DesignBrief
