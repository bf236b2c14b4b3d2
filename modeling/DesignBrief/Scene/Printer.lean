import DesignBrief.Json.Value
import DesignBrief.Scene.Node

/-!
A design file written back: every field of every type under its key and in its order, `null` where
there is nothing.
-/

namespace DesignBrief

def Json.keyword {α : Type} [Keyword α] (k : α) : Json := .string (Keyword.name k)

open Json

def Point.toJson (p : Point) : Json := .object [("x", real p.x), ("y", real p.y)]

def Box.toJson (b : Box) : Json :=
  .object [("x", real b.x), ("y", real b.y), ("width", real b.width), ("height", real b.height)]

def Edges.toJson (e : Edges) : Json :=
  .object [("top", real e.top), ("right", real e.right), ("bottom", real e.bottom),
    ("left", real e.left)]

def Color.toJson (c : Color) : Json :=
  .object [("r", real c.r), ("g", real c.g), ("b", real c.b), ("a", real c.a)]

def ColorStop.toJson (s : ColorStop) : Json :=
  .object [("position", real s.position), ("color", s.color.toJson)]

def Paint.toJson (p : Paint) : Json :=
  .object [("type", keyword p.kind), ("visible", ofOption .bool p.visible),
    ("opacity", ofOption real p.opacity), ("color", ofOption Color.toJson p.color),
    ("gradientHandlePositions", ofOption (ofList Point.toJson) p.handles),
    ("gradientStops", ofOption (ofList ColorStop.toJson) p.stops),
    ("imageRef", ofOption .string p.imageRef), ("scaleMode", ofOption keyword p.scaleMode)]

def Effect.toJson (e : Effect) : Json :=
  .object [("type", keyword e.kind), ("visible", ofOption .bool e.visible),
    ("radius", real e.radius), ("color", ofOption Color.toJson e.color),
    ("offset", ofOption Point.toJson e.offset), ("spread", ofOption real e.spread)]

def TypeStyle.toJson (s : TypeStyle) : Json :=
  .object [("fontFamily", ofOption .string s.fontFamily),
    ("fontWeight", ofOption real s.fontWeight), ("fontSize", ofOption real s.fontSize),
    ("lineHeightPx", ofOption real s.lineHeight),
    ("letterSpacing", ofOption real s.letterSpacing), ("textCase", ofOption .string s.textCase),
    ("textAlignHorizontal", ofOption .string s.alignHorizontal),
    ("textAlignVertical", ofOption .string s.alignVertical)]

/-- The members of a node before its children. -/
def Attributes.head (a : Attributes) : List (String × Json) :=
  [("id", .string a.id), ("name", .string a.name), ("type", .string a.kind),
    ("visible", ofOption .bool a.visible)]

/-- The members of a node behind its children. -/
def Attributes.tail (a : Attributes) : List (String × Json) :=
  [("absoluteBoundingBox", ofOption Box.toJson a.box),
    ("fills", ofOption (ofList Paint.toJson) a.fills),
    ("strokes", ofOption (ofList Paint.toJson) a.strokes),
    ("strokeWeight", ofOption real a.strokeWeight),
    ("individualStrokeWeights", ofOption Edges.toJson a.edgeWeights),
    ("strokeDashes", ofOption (ofList real) a.strokeDashes),
    ("effects", ofOption (ofList Effect.toJson) a.effects),
    ("style", ofOption TypeStyle.toJson a.typeStyle),
    ("characters", ofOption .string a.characters), ("opacity", ofOption real a.opacity),
    ("cornerRadius", ofOption real a.cornerRadius),
    ("rectangleCornerRadii", ofOption (ofList real) a.cornerRadii),
    ("clipsContent", ofOption .bool a.clipsContent),
    ("layoutMode", ofOption keyword a.layoutMode),
    ("primaryAxisAlignItems", ofOption keyword a.primaryAlign),
    ("counterAxisAlignItems", ofOption keyword a.counterAlign),
    ("layoutWrap", ofOption keyword a.wrap), ("itemSpacing", ofOption real a.itemSpacing),
    ("paddingTop", ofOption real a.paddingTop), ("paddingRight", ofOption real a.paddingRight),
    ("paddingBottom", ofOption real a.paddingBottom),
    ("paddingLeft", ofOption real a.paddingLeft),
    ("overflowDirection", ofOption keyword a.overflow),
    ("layoutAlign", ofOption keyword a.selfAlign), ("layoutGrow", ofOption real a.grow),
    ("layoutPositioning", ofOption keyword a.positioning),
    ("layoutSizingHorizontal", ofOption keyword a.sizeHorizontal),
    ("layoutSizingVertical", ofOption keyword a.sizeVertical),
    ("preserveRatio", ofOption .bool a.preserveRatio)]

mutual

def Node.toJson : Node → Json
  | ⟨a, none⟩ => .object (a.head ++ ("children", .null) :: a.tail)
  | ⟨a, some children⟩ =>
    .object (a.head ++ ("children", .array (Node.listToJson children)) :: a.tail)
termination_by structural n => n

def Node.listToJson : List Node → List Json
  | [] => []
  | n :: rest => n.toJson :: Node.listToJson rest
termination_by structural nodes => nodes

end

def NodeEntry.toJson (e : NodeEntry) : Json := .object [("document", e.document.toJson)]

/-- Entries under their ids, in their order, repeated ids kept. -/
def NodeEntry.mapToJson (nodes : List (String × Option NodeEntry)) : Json :=
  .object (nodes.map fun m => (m.1, ofOption NodeEntry.toJson m.2))

def Response.toJson (r : Response) : Json :=
  .object [("name", .string r.name), ("lastModified", .string r.lastModified),
    ("thumbnailUrl", ofOption .string r.thumbnailUrl),
    ("document", ofOption Node.toJson r.document),
    ("nodes", ofOption NodeEntry.mapToJson r.nodes)]

end DesignBrief
