import DesignBrief.Json.Value
import DesignBrief.Scene.Printer
import DesignBrief.Style.Css

/-!
Fills: what a paint looks like, whatever the way it was described.
-/

namespace DesignBrief

/-- A colour with the opacity it is painted at. -/
structure Tint where
  hex : String
  opacity : Float
deriving DecidableEq, BEq

structure TintStop where
  position : Float
  tint : Tint
deriving DecidableEq, BEq

/-- What a paint looks like. -/
inductive Fill where
  | solid (tint : Tint)
  | gradient (shape : GradientShape) (handles : List Point) (stops : List TintStop)
  | image (imageRef : Option String) (scaleMode : Option ScaleMode)
  /-- A paint of which only the kind is told. -/
  | plain (kind : PaintKind)
deriving DecidableEq, BEq

def Tint.ofColor (c : Color) (opacity : Float) : Tint :=
  ⟨Css.hex c, Rounding.toHundredths (opacity * c.a)⟩

def Fill.ofPaint (p : Paint) : Fill :=
  match p.kind with
  | .solid =>
    match p.color with
    | some c => .solid (.ofColor c (p.opacity.getD 1))
    | none => .plain .solid
  | .gradient shape =>
    .gradient shape (p.handles.getD [])
      ((p.stops.getD []).map fun s => ⟨s.position, .ofColor s.color 1⟩)
  | .image => .image p.imageRef p.scaleMode
  | kind => .plain kind

/-- The kind of paint that looks like this. -/
def Fill.kind : Fill → PaintKind
  | .solid _ => .solid
  | .gradient shape _ _ => .gradient shape
  | .image _ _ => .image
  | .plain kind => kind

open Json

def Tint.members (t : Tint) : List (String × Json) :=
  [("hex", .string t.hex), ("opacity", real t.opacity)]

def Tint.toJson (t : Tint) : Json := .object t.members

def TintStop.toJson (s : TintStop) : Json :=
  .object [("position", real s.position), ("color", s.tint.toJson)]

def Fill.toJson (f : Fill) : Json :=
  match f with
  | .solid t => .object (("type", keyword f.kind) :: t.members)
  | .gradient _ handles stops =>
    .object [("type", keyword f.kind), ("gradientHandlePositions", ofList Point.toJson handles),
      ("gradientStops", ofList TintStop.toJson stops)]
  | .image imageRef scaleMode =>
    present [("type", some (keyword f.kind)), ("imageRef", imageRef.map .string),
      ("scaleMode", scaleMode.map keyword)]
  | .plain _ => .object [("type", keyword f.kind)]

end DesignBrief
