import DesignBrief.Scene.Probe
import DesignBrief.Style.Fill

/-!
Effects: the shown shadows and blurs of a node as values of style sheet properties. Within one
property the effects keep their order; drop shadows go before inner ones.
-/

namespace DesignBrief

structure Effects where
  boxShadow : Option String := none
  textShadow : Option String := none
  filter : Option String := none
  backdropFilter : Option String := none
deriving DecidableEq, BEq

namespace Effects

def isEmpty (e : Effects) : Bool :=
  e.boxShadow.isNone && e.textShadow.isNone && e.filter.isNone && e.backdropFilter.isNone

/-- A shadow: where it falls, how far it reaches, and its colour. -/
def shadow (e : Effect) : String :=
  let offset := e.offset.getD ⟨0, 0⟩
  (if e.kind = .innerShadow then "inset " else "")
    ++ Css.px offset.x ++ " " ++ Css.px offset.y ++ " " ++ Css.px e.radius ++ " "
    ++ Css.px (e.spread.getD 0) ++ " " ++ (e.color.map Css.rgba).getD "rgba(0, 0, 0, 1)"

def blur (e : Effect) : String := "blur(" ++ Css.px e.radius ++ ")"

def ofKind (kind : EffectKind) (es : List Effect) : List Effect := es.filter (·.kind = kind)

/-- The parts with a separator between them, if there are any. -/
def join? (separator : String) : List String → Option String
  | [] => none
  | parts => some (separator.intercalate parts)

/-- The effects that the attributes of a node describe; texts cast their shadow by the letter. -/
def ofAttributes (a : Attributes) : Effects :=
  let shown := (a.effects?.getD []).filter (isShown ·.visible)
  let shadows := join? ", " ((ofKind .dropShadow shown ++ ofKind .innerShadow shown).map shadow)
  { boxShadow := if a.kind = "TEXT" then none else shadows
    textShadow := if a.kind = "TEXT" then shadows else none
    filter := join? " " ((ofKind .layerBlur shown).map blur)
    backdropFilter := join? " " ((ofKind .backgroundBlur shown).map blur) }

def toJson (e : Effects) : Json :=
  .present [("boxShadow", e.boxShadow.map .string), ("textShadow", e.textShadow.map .string),
    ("filter", e.filter.map .string), ("backdropFilter", e.backdropFilter.map .string)]

end Effects
end DesignBrief
