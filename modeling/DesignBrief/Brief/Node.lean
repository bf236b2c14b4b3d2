import DesignBrief.Scene.Probe
import DesignBrief.Table.Basic

/-!
Nodes of a brief. How a style is referred to is left open: by its id, or by the style itself.
-/

namespace DesignBrief

/-- What a node of a brief tells about itself, with references `ρ` to styles. -/
structure Facets (ρ : Type) where
  id : String
  name : String
  kind : String
  text : Option String := none
  textStyle : Option ρ := none
  fills : Option ρ := none
  strokes : Option ρ := none
  effects : Option ρ := none
  opacity : Option Float := none
  borderRadius : Option String := none
  layout : Option ρ := none
deriving DecidableEq

structure BriefNode (ρ : Type) where
  facets : Facets ρ
  children : List (BriefNode ρ) := []

namespace Facets

variable {ρ : Type}

/-- Whether nothing is told at all, not even a name. -/
def isBlank (f : Facets ρ) : Bool :=
  f.id.isEmpty && f.name.isEmpty && f.kind.isEmpty && f.text.isNone && f.textStyle.isNone
    && f.fills.isNone && f.strokes.isNone && f.effects.isNone && f.opacity.isNone
    && f.borderRadius.isNone && f.layout.isNone

/-- The kind of all vector graphics in a brief. -/
def vectorImage : String := "IMAGE-SVG"

/-- The kind under which a node appears in a brief. -/
def kindOf (kind : String) : String := if kind = "VECTOR" then vectorImage else kind

/-- The border radius; a radius for all corners goes before single ones. -/
def borderRadiusOf (a : Attributes) : Option String :=
  match a.cornerRadius? with
  | some r => some (Css.px r)
  | none => a.cornerRadii?.map Css.edges

/-- What is told about a node below a parent, if it has one, with its styles in place. -/
def ofNode (node : Node) (parent : Option Attributes) : Facets StyleValue :=
  let a := node.attributes
  let strokes := Stroke.ofAttributes a
  let effects := Effects.ofAttributes a
  let layout := Layout.ofNode node parent
  { id := a.id
    name := a.name
    kind := kindOf a.kind
    text := a.characters?
    textStyle := ((a.textStyle?.map TextStyle.ofTypeStyle).filter (!·.isEmpty)).map .text
    fills := a.fills?.map fun ps => .fills (ps.map Fill.ofPaint)
    strokes := if strokes.isEmpty then none else some (.stroke strokes)
    effects := if effects.isEmpty then none else some (.effects effects)
    opacity := a.opacity?
    borderRadius := borderRadiusOf a
    layout := if layout.isInformative then some (.layout layout) else none }

/-- Exchanges the references, in the order text style, fills, strokes, effects, layout. -/
def mapM {σ : Type} {m : Type → Type} [Monad m] (f : ρ → m σ) (t : Facets ρ) : m (Facets σ) := do
  let textStyle ← t.textStyle.mapM f
  let fills ← t.fills.mapM f
  let strokes ← t.strokes.mapM f
  let effects ← t.effects.mapM f
  let layout ← t.layout.mapM f
  return { t with textStyle, fills, strokes, effects, layout }

end Facets

namespace BriefNode

variable {ρ : Type}

def isBlank (n : BriefNode ρ) : Bool := n.facets.isBlank && n.children.isEmpty

mutual

def size : BriefNode ρ → Nat
  | ⟨_, children⟩ => 1 + sizeAll children
termination_by structural n => n

def sizeAll : List (BriefNode ρ) → Nat
  | [] => 0
  | n :: rest => n.size + sizeAll rest
termination_by structural ns => ns

end

/-- The members of a node other than its children. -/
def members (ref : ρ → Json) (f : Facets ρ) : List (String × Option Json) :=
  [("id", some (.string f.id)), ("name", some (.string f.name)), ("type", some (.string f.kind)),
    ("text", f.text.map .string), ("textStyle", f.textStyle.map ref), ("fills", f.fills.map ref),
    ("strokes", f.strokes.map ref), ("effects", f.effects.map ref),
    ("opacity", f.opacity.map .real), ("borderRadius", f.borderRadius.map .string),
    ("layout", f.layout.map ref)]

mutual

/-- A node as a record, without what it does not have. -/
def toJson (ref : ρ → Json) : BriefNode ρ → Json
  | ⟨f, []⟩ => .present (members ref f)
  | ⟨f, n :: rest⟩ =>
    .present (members ref f ++ [("children", some (.array (n.toJson ref :: listToJson ref rest)))])
termination_by structural n => n

def listToJson (ref : ρ → Json) : List (BriefNode ρ) → List Json
  | [] => []
  | n :: rest => n.toJson ref :: listToJson ref rest
termination_by structural ns => ns

end

end BriefNode

def StyleId.toJson (id : StyleId) : Json := .string id.text

end DesignBrief
