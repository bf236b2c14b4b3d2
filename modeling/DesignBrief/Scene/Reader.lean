import DesignBrief.Json.Reader
import DesignBrief.Scene.Node

/-!
How each type of a design file is read: the keys of its fields, in the order in which a list may
give them.
-/

namespace DesignBrief

def Reader.keyword (α : Type) [Keyword α] : Reader α := Reader.name.map Keyword.ofName

open Reader Slot

/-- A point needs both coordinates. -/
def Point.record : Record Point where
  title := "Point"
  blank := ⟨0, 0⟩
  fields := [
    required "x" double fun v p => { p with x := v },
    required "y" double fun v p => { p with y := v }]

/-- Missing sides of a box are zero. -/
def Box.record : Record Box where
  title := "BoundingBox"
  blank := {}
  fields := [
    optional "x" double fun v b => { b with x := v },
    optional "y" double fun v b => { b with y := v },
    optional "width" double fun v b => { b with width := v },
    optional "height" double fun v b => { b with height := v }]

/-- Missing edges are zero. -/
def Edges.record : Record Edges where
  title := "Edges"
  blank := {}
  fields := [
    optional "top" double fun v e => { e with top := v },
    optional "right" double fun v e => { e with right := v },
    optional "bottom" double fun v e => { e with bottom := v },
    optional "left" double fun v e => { e with left := v }]

/-- A missing channel is zero, but a missing alpha is one. -/
def Color.record : Record Color where
  title := "ColorDef"
  blank := {}
  fields := [
    optional "r" double fun v c => { c with r := v },
    optional "g" double fun v c => { c with g := v },
    optional "b" double fun v c => { c with b := v },
    optional "a" double fun v c => { c with a := v }]

/-- A colour stop needs its position and its colour. -/
def ColorStop.record : Record ColorStop where
  title := "ColorStopDef"
  blank := ⟨0, {}⟩
  fields := [
    required "position" double fun v s => { s with position := v },
    required "color" Color.record.reader fun v s => { s with color := v }]

/-- A paint needs its kind. -/
def Paint.record : Record Paint where
  title := "Paint"
  blank := { kind := .unknown }
  fields := [
    required "type" (keyword PaintKind) fun v p => { p with kind := v },
    optional "visible" flag.optional fun v p => { p with visible := v },
    optional "opacity" double.optional fun v p => { p with opacity := v },
    optional "color" Color.record.reader.optional fun v p => { p with color := v },
    optional "gradientHandlePositions" Point.record.reader.list.optional
      fun v p => { p with handles := v },
    optional "gradientStops" ColorStop.record.reader.list.optional
      fun v p => { p with stops := v },
    optional "imageRef" text.optional fun v p => { p with imageRef := v },
    optional "scaleMode" (keyword ScaleMode).optional fun v p => { p with scaleMode := v }]

/-- An effect needs its kind. -/
def Effect.record : Record Effect where
  title := "Effect"
  blank := { kind := .unknown }
  fields := [
    required "type" (keyword EffectKind) fun v e => { e with kind := v },
    optional "visible" flag.optional fun v e => { e with visible := v },
    optional "radius" double fun v e => { e with radius := v },
    optional "color" Color.record.reader.optional fun v e => { e with color := v },
    optional "offset" Point.record.reader.optional fun v e => { e with offset := v },
    optional "spread" double.optional fun v e => { e with spread := v }]

/-- Nothing is needed of a text style. -/
def TypeStyle.record : Record TypeStyle where
  title := "TypeStyle"
  blank := {}
  fields := [
    optional "fontFamily" text.optional fun v s => { s with fontFamily := v },
    optional "fontWeight" double.optional fun v s => { s with fontWeight := v },
    optional "fontSize" double.optional fun v s => { s with fontSize := v },
    optional "lineHeightPx" double.optional fun v s => { s with lineHeight := v },
    optional "letterSpacing" double.optional fun v s => { s with letterSpacing := v },
    optional "textCase" text.optional fun v s => { s with textCase := v },
    optional "textAlignHorizontal" text.optional fun v s => { s with alignHorizontal := v },
    optional "textAlignVertical" text.optional fun v s => { s with alignVertical := v }]

namespace Node

/-- A field for one attribute, which keeps its blank value when it is absent. -/
def own {α : Type} (key : String) (r : Reader α) (put : α → Attributes → Attributes) :
    Slot Node :=
  optional key r fun v n => { n with attributes := put v n.attributes }

def record (child : Reader Node) : Record Node where
  title := "DesignNode"
  blank := {}
  fields := [
    own "id" text fun v a => { a with id := v },
    own "name" text fun v a => { a with name := v },
    own "type" text fun v a => { a with kind := v },
    own "visible" flag.optional fun v a => { a with visible := v },
    optional "children" child.list.optional fun v n => { n with children := v },
    own "absoluteBoundingBox" Box.record.reader.optional fun v a => { a with box := v },
    own "fills" Paint.record.reader.list.optional fun v a => { a with fills := v },
    own "strokes" Paint.record.reader.list.optional fun v a => { a with strokes := v },
    own "strokeWeight" double.optional fun v a => { a with strokeWeight := v },
    own "individualStrokeWeights" Edges.record.reader.optional
      fun v a => { a with edgeWeights := v },
    own "strokeDashes" double.list.optional fun v a => { a with strokeDashes := v },
    own "effects" Effect.record.reader.list.optional fun v a => { a with effects := v },
    own "style" TypeStyle.record.reader.optional fun v a => { a with typeStyle := v },
    own "characters" text.optional fun v a => { a with characters := v },
    own "opacity" double.optional fun v a => { a with opacity := v },
    own "cornerRadius" double.optional fun v a => { a with cornerRadius := v },
    own "rectangleCornerRadii" double.list.optional fun v a => { a with cornerRadii := v },
    own "clipsContent" flag.optional fun v a => { a with clipsContent := v },
    own "layoutMode" (keyword LayoutMode).optional fun v a => { a with layoutMode := v },
    own "primaryAxisAlignItems" (keyword AxisAlign).optional
      fun v a => { a with primaryAlign := v },
    own "counterAxisAlignItems" (keyword AxisAlign).optional
      fun v a => { a with counterAlign := v },
    own "layoutWrap" (keyword LayoutWrap).optional fun v a => { a with wrap := v },
    own "itemSpacing" double.optional fun v a => { a with itemSpacing := v },
    own "paddingTop" double.optional fun v a => { a with paddingTop := v },
    own "paddingRight" double.optional fun v a => { a with paddingRight := v },
    own "paddingBottom" double.optional fun v a => { a with paddingBottom := v },
    own "paddingLeft" double.optional fun v a => { a with paddingLeft := v },
    own "overflowDirection" (keyword Overflow).optional fun v a => { a with overflow := v },
    own "layoutAlign" (keyword SelfAlign).optional fun v a => { a with selfAlign := v },
    own "layoutGrow" double.optional fun v a => { a with grow := v },
    own "layoutPositioning" (keyword Positioning).optional
      fun v a => { a with positioning := v },
    own "layoutSizingHorizontal" (keyword SizeRule).optional
      fun v a => { a with sizeHorizontal := v },
    own "layoutSizingVertical" (keyword SizeRule).optional
      fun v a => { a with sizeVertical := v },
    own "preserveRatio" flag.optional fun v a => { a with preserveRatio := v }]

/-- A node with at most so many generations below it. -/
def readerTo : Nat → Reader Node
  | 0 => (record (.refuse .tooDeep)).reader
  | generations + 1 => (record (readerTo generations)).reader

/-- A node. Each generation opens a bracket, so the limit on brackets bounds the generations. -/
def reader : Reader Node := readerTo depthLimit

end Node

def NodeEntry.record : Record NodeEntry where
  title := "NodeEntry"
  blank := ⟨{}⟩
  fields := [required "document" Node.reader fun v _ => ⟨v⟩]

/-- Nothing is needed of a response. -/
def Response.record : Record Response where
  title := "DesignResponse"
  blank := {}
  fields := [
    optional "name" text fun v r => { r with name := v },
    optional "lastModified" text fun v r => { r with lastModified := v },
    optional "thumbnailUrl" text.optional fun v r => { r with thumbnailUrl := v },
    optional "document" Node.reader.optional fun v r => { r with document := v },
    optional "nodes"
      (keyed "a map of node id to node entry or null" NodeEntry.record.reader.optional).optional
      fun v r => { r with nodes := v }]

end DesignBrief
