import DesignBrief.Proofs.Regular
import DesignBrief.Proofs.Told

/-!
What a brief computes from the numbers of a node: letter spacings as percentages of the font size,
the alphas of fills and shadows in hundredths, and the way from the parent's corner. Whatever else
is computed is a quotient, which is left out unless it is finite. So if the numbers of a node are
finite, its styles are regular if and only if these four stay in the range of doubles,
`Facets.regular_ofNode_iff`.
-/

namespace DesignBrief

theorem forall_mem_filter {α : Type} {P : α → Prop} {o : Option α} {p : α → Bool}
    (h : ∀ a ∈ o, P a) : ∀ a ∈ o.filter p, P a :=
  fun a ha => h a (Option.filter_eq_some_iff.mp ha).1

theorem forall_mem_getD {α : Type} {P : α → Prop} {o : Option (List α)}
    (h : ∀ as ∈ o, ∀ a ∈ as, P a) : ∀ a ∈ o.getD [], P a := by
  cases o with
  | none => exact nofun
  | some as => exact h as rfl

theorem isFinite_getD {o : Option Float} (h : ∀ x ∈ o, x.isFinite = true) :
    (o.getD 0).isFinite = true := by
  cases o with
  | none => exact isFinite_zero
  | some x => exact h x rfl

/-! ## Text styles -/

/-- The letter spacing stays in the range of doubles as a percentage. -/
def TypeStyle.InRange (s : TypeStyle) : Prop :=
  ∀ r ∈ TextStyle.relative? (s.letterSpacing.filter (· != 0)) s.fontSize,
    (r * 100).isFinite = true
deriving Decidable

theorem TextStyle.isFinite_of_relative? {length size : Option Float} {r : Float}
    (h : r ∈ relative? length size) : r.isFinite = true := by
  obtain ⟨l, _, h⟩ := Option.bind_eq_some_iff.mp h
  obtain ⟨s, _, h⟩ := Option.bind_eq_some_iff.mp h
  exact Rounding.isFinite_of_ratio? h

theorem TextStyle.regular_iff {s : TypeStyle} (hs : s.IsFinite) :
    (StyleValue.text (ofTypeStyle s)).Regular ↔ s.InRange := by
  have hnumbers : (ofTypeStyle s).toJson.IsFinite :=
    (isFinite_toJson_iff _).mpr ⟨hs.fontWeight, hs.fontSize⟩
  have htexts : (∀ t ∈ (StyleValue.text (ofTypeStyle s)).cssTexts, Css.Plain t) ↔ s.InRange := by
    simp only [StyleValue.cssTexts, List.forall_mem_append, forall_mem_toList, ofTypeStyle,
      Option.forall_mem_map, Css.plain_em_iff, Css.plain_percent_iff]
    exact ⟨fun h => h.2, fun h => ⟨fun r hr => isFinite_of_relative? hr, h⟩⟩
  exact ⟨fun h => htexts.mp h.texts, fun h => ⟨hnumbers, htexts.mpr h⟩⟩

theorem TextStyle.regular_blank : (StyleValue.text {}).Regular where
  numbers := (isFinite_toJson_iff {}).mpr ⟨nofun, nofun⟩
  texts := nofun

/-! ## Fills -/

/-- The alpha of a colour at a further opacity stays in the range of doubles as a percentage. -/
def Color.InRange (c : Color) (opacity : Float) : Prop := (opacity * c.a * 100).isFinite = true
deriving Decidable

def Paint.InRange (p : Paint) : Prop :=
  (p.kind = .solid → ∀ c ∈ p.color, c.InRange (p.opacity.getD 1)) ∧
    (p.kind.isGradient = true → ∀ s ∈ p.stops.getD [], s.color.InRange 1)
deriving Decidable

def Fill.IsFinite : Fill → Prop
  | .solid t => t.opacity.isFinite = true
  | .gradient _ handles stops =>
    (∀ h ∈ handles, h.IsFinite) ∧
      ∀ s ∈ stops, s.position.isFinite = true ∧ s.tint.opacity.isFinite = true
  | .image _ _ => True
  | .plain _ => True

theorem Fill.isFinite_toJson_iff (f : Fill) : f.toJson.IsFinite ↔ f.IsFinite := by
  cases f <;> simp [toJson, IsFinite, Tint.members, TintStop.toJson, Tint.toJson]

theorem Fill.isFinite_ofPaint_iff {p : Paint} (hp : p.IsFinite) :
    (ofPaint p).IsFinite ↔ p.InRange := by
  have hhandles := forall_mem_getD hp.handles
  have hstops := forall_mem_getD hp.stops
  obtain ⟨kind, visible, opacity, color, handles, stops, imageRef, scaleMode⟩ := p
  cases kind with
  | solid =>
    cases color <;>
      simp [ofPaint, IsFinite, Paint.InRange, PaintKind.isGradient, Tint.ofColor, Color.InRange,
        Rounding.isFinite_toHundredths_iff]
  | gradient shape =>
    simp only [ofPaint, IsFinite, Paint.InRange, PaintKind.isGradient, List.forall_mem_map,
      Tint.ofColor, Color.InRange, Rounding.isFinite_toHundredths_iff]
    constructor
    · intro h
      refine ⟨fun hkind => ?_, fun _ s hs => (h.2 s hs).2⟩
      cases hkind
    · exact fun h => ⟨hhandles, fun s hs => ⟨(hstops s hs).position, h.2 trivial s hs⟩⟩
  | _ => simp [ofPaint, IsFinite, Paint.InRange, PaintKind.isGradient]

/-- The channels of a colour are written as bytes. -/
theorem Fill.plain_of_mem_cssTexts (p : Paint) : ∀ t ∈ (ofPaint p).cssTexts, Css.Plain t := by
  obtain ⟨kind, visible, opacity, color, handles, stops, imageRef, scaleMode⟩ := p
  cases kind <;> cases color <;> simp [ofPaint, cssTexts, Tint.ofColor, Css.plain_hex]

theorem Fill.isFinite_toJson_map_iff {ps : List Paint} (hps : ∀ p ∈ ps, p.IsFinite) :
    (∀ f ∈ ps.map ofPaint, f.toJson.IsFinite) ↔ ∀ p ∈ ps, p.InRange := by
  rw [List.forall_mem_map]
  exact forall₂_congr fun p hp => (isFinite_toJson_iff _).trans (isFinite_ofPaint_iff (hps p hp))

theorem Fill.plain_cssTexts_map (ps : List Paint) :
    ∀ t ∈ (ps.map ofPaint).flatMap cssTexts, Css.Plain t := by
  simp only [List.flatMap_map, List.forall_mem_flatMap]
  exact fun p _ => plain_of_mem_cssTexts p

theorem Fill.regular_iff {ps : List Paint} (hps : ∀ p ∈ ps, p.IsFinite) :
    (StyleValue.fills (ps.map ofPaint)).Regular ↔ ∀ p ∈ ps, p.InRange := by
  have hnumbers : (StyleValue.fills (ps.map ofPaint)).toJson.IsFinite ↔ ∀ p ∈ ps, p.InRange :=
    (Json.isFinite_ofList_iff _ _).trans (isFinite_toJson_map_iff hps)
  exact ⟨fun h => hnumbers.mp h.numbers, fun h => ⟨hnumbers.mpr h, plain_cssTexts_map ps⟩⟩

/-! ## Strokes -/

theorem Stroke.plain_weightOf {a : Attributes} (ha : a.IsFinite) :
    ∀ t ∈ weightOf a, Css.Plain t := by
  unfold weightOf
  cases hedges : a.edgeWeights with
  | some e =>
    simpa using ha.edgeWeights e hedges
  | none =>
    simp only [Option.forall_mem_map, Css.plain_px_iff]
    exact forall_mem_filter ha.strokeWeight

theorem Stroke.regular_iff {a : Attributes} (ha : a.IsFinite) :
    (StyleValue.stroke (ofAttributes a)).Regular ↔
      ∀ p ∈ shownOf (·.visible) a.strokes, p.InRange := by
  have hshown : ∀ p ∈ shownOf (·.visible) a.strokes, p.IsFinite := fun p hp =>
    forall_mem_getD ha.strokes p (List.mem_filter.mp hp).1
  have hdashes : ∀ xs ∈ a.strokeDashes?, ∀ x ∈ xs, x.isFinite = true :=
    forall_mem_filter ha.strokeDashes
  have hcolors := Fill.isFinite_toJson_map_iff hshown
  rw [ofAttributes_eq]
  constructor
  · intro h
    exact hcolors.mp ((isFinite_toJson_iff _).mp h.numbers).1
  · intro h
    refine ⟨(isFinite_toJson_iff _).mpr ⟨hcolors.mpr h, hdashes⟩, ?_⟩
    rw [StyleValue.cssTexts, List.forall_mem_append, forall_mem_toList]
    exact ⟨Fill.plain_cssTexts_map _, plain_weightOf ha⟩

/-! ## Effects -/

def Effect.InRange (e : Effect) : Prop :=
  e.kind = .dropShadow ∨ e.kind = .innerShadow → ∀ c ∈ e.color, (c.a * 100).isFinite = true
deriving Decidable

namespace Effects

theorem plain_shadow_iff {e : Effect} (he : e.IsFinite) :
    Css.Plain (shadow e) ↔ ∀ c ∈ e.color, (c.a * 100).isFinite = true := by
  have hinset : Css.Plain (if e.kind = .innerShadow then "inset " else "") := by
    split <;> decide
  have hspace : Css.Plain " " := by decide
  have hblack : Css.Plain "rgba(0, 0, 0, 1)" := by decide
  have hoffset : (e.offset.getD ⟨0, 0⟩).IsFinite := by
    cases ho : e.offset with
    | none => exact ⟨isFinite_zero, isFinite_zero⟩
    | some o => exact he.offset o ho
  have hspread : (e.spread.getD 0).isFinite = true := isFinite_getD he.spread
  have hcolor : Css.Plain ((e.color.map Css.rgba).getD "rgba(0, 0, 0, 1)") ↔
      ∀ c ∈ e.color, (c.a * 100).isFinite = true := by
    cases e.color with
    | none => simp [hblack]
    | some c => simp
  simp only [shadow, Css.plain_append, Css.plain_px_iff, hinset, hspace, hoffset.x, hoffset.y,
    he.radius, hspread, hcolor, true_and, and_true]

theorem plain_blur {e : Effect} (he : e.IsFinite) : Css.Plain (blur e) := by
  have hopen : Css.Plain "blur(" := by decide
  have hclose : Css.Plain ")" := by decide
  simp [blur, hopen, hclose, he.radius]

theorem plain_join?_shadow_iff {es : List Effect} (hes : ∀ e ∈ es, e.IsFinite) :
    (∀ t ∈ join? ", " ((ofKind .dropShadow es ++ ofKind .innerShadow es).map shadow),
        Css.Plain t) ↔ ∀ e ∈ es, e.InRange := by
  rw [plain_join?_iff (by decide), List.forall_mem_map]
  simp only [List.mem_append, ofKind, List.mem_filter, decide_eq_true_eq, ← and_or_left, and_imp,
    Effect.InRange]
  exact forall₂_congr fun e he => imp_congr_right fun _ => plain_shadow_iff (hes e he)

theorem plain_join?_blur {es : List Effect} (hes : ∀ e ∈ es, e.IsFinite) (kind : EffectKind) :
    ∀ t ∈ join? " " ((ofKind kind es).map blur), Css.Plain t := by
  rw [plain_join?_iff (by decide), List.forall_mem_map]
  exact fun e he => plain_blur (hes e (List.mem_filter.mp he).1)

theorem regular_iff {a : Attributes} (ha : a.IsFinite) :
    (StyleValue.effects (ofAttributes a)).Regular ↔
      ∀ e ∈ shownOf (·.visible) a.effects, e.InRange := by
  have hshown : ∀ e ∈ shownOf (·.visible) a.effects, e.IsFinite := fun e he =>
    forall_mem_getD ha.effects e (List.mem_filter.mp he).1
  have htexts : (∀ t ∈ (StyleValue.effects (ofAttributes a)).cssTexts, Css.Plain t) ↔
      ∀ e ∈ shownOf (·.visible) a.effects, e.InRange := by
    have hfilter := plain_join?_blur hshown .layerBlur
    have hbackdrop := plain_join?_blur hshown .backgroundBlur
    rw [← plain_join?_shadow_iff hshown]
    simp only [StyleValue.cssTexts, List.forall_mem_append, forall_mem_toList, ofAttributes,
      Attributes.effects?, getD_nonempty?]
    rw [shownOf] at hfilter hbackdrop ⊢
    -- The shadows are told in one of two places.
    split
    · exact ⟨fun h => h.1.1.2, fun h => ⟨⟨⟨by simp, h⟩, hfilter⟩, hbackdrop⟩⟩
    · exact ⟨fun h => h.1.1.1, fun h => ⟨⟨⟨h, by simp⟩, hfilter⟩, hbackdrop⟩⟩
  exact ⟨fun h => htexts.mp h.texts, fun h => ⟨isFinite_toJson _, htexts.mpr h⟩⟩

theorem regular_of_isEmpty {e : Effects} (h : e.isEmpty = true) :
    (StyleValue.effects e).Regular := by
  simp only [isEmpty, Bool.and_eq_true, Option.isNone_iff_eq_none] at h
  obtain ⟨⟨⟨hbox, htext⟩, hfilter⟩, hbackdrop⟩ := h
  refine ⟨isFinite_toJson e, ?_⟩
  rw [StyleValue.cssTexts, hbox, htext, hfilter, hbackdrop]
  exact List.forall_mem_nil _

end Effects

/-! ## Layouts -/

namespace Attributes

variable (a : Attributes) (parent : Option Attributes)

/-- Whether a node is not placed by the flow of its parent. -/
def isFree : Bool := (parent.map Layout.flow).getD .none = .none || a.isAbsolute

/-- Where a node stands from its parent, if it is not placed by the flow of it. -/
def location? : Option Point :=
  if a.isFree parent then
    match a.box, parent.bind (·.box) with
    | some box, some parentBox => some (box.origin.minus parentBox.origin)
    | _, _ => none
  else none

end Attributes

structure Frame.IsFinite (f : Frame) : Prop where
  itemSpacing : ∀ x ∈ f.itemSpacing, x.isFinite = true
  padding : ∀ e ∈ f.padding, e.IsFinite

theorem Attributes.IsFinite.frame {a : Attributes} (ha : a.IsFinite) : a.frame.IsFinite := by
  constructor
  · exact forall_mem_filter ha.itemSpacing
  · intro e he
    simp only [Attributes.frame, Attributes.padding?] at he
    split at he <;> cases he
    exact ⟨isFinite_getD ha.paddingTop, isFinite_getD ha.paddingRight,
      isFinite_getD ha.paddingBottom, isFinite_getD ha.paddingLeft⟩

namespace Layout

theorem location_place {l : Layout} (hl : l.location = none) (a : Attributes)
    (parent : Option Attributes) :
    (l.place a.placement parent).location = a.location? parent := by
  have hcondition : ((parent.map flow).getD .none = .none || a.placement.isAbsolute) =
      a.isFree parent := rfl
  simp only [place, hcondition, Attributes.location?]
  cases a.isFree parent with
  | true => rfl
  | false =>
    rw [if_neg (by decide), if_neg (by decide)]
    split <;> exact hl

theorem exists_of_dimensions_place {l : Layout} (hl : l.dimensions = none) {p : Placement}
    {parent : Option Attributes} {d : Dimensions} (hd : d ∈ (l.place p parent).dimensions) :
    ∃ b ∈ p.box, d = dimensionsIn l.mode p b := by
  rcases place_cases l p parent with ⟨_, h⟩ | ⟨b, hbox, h⟩ | h <;> rw [h] at hd
  · rw [hl] at hd
    cases hd
  · dsimp only [dimensions?] at hd
    split at hd <;> cases hd
    exact ⟨b, hbox, rfl⟩
  · rw [hl] at hd
    cases hd

theorem isFinite_dimensionsIn {b : Box} (hb : b.IsFinite) (mode : Flow) (p : Placement) :
    (dimensionsIn mode p b).IsFinite := by
  have hif {x : Float} (hx : x.isFinite = true) (c : Bool) :
      ∀ y ∈ if c = true then some x else none, y.isFinite = true := by
    cases c
    · exact nofun
    · rintro y ⟨⟩
      exact hx
  have hratio (c : Bool) :
      ∀ y ∈ if c = true then Rounding.ratio? b.width b.height else none, y.isFinite = true := by
    cases c
    · exact nofun
    · exact fun y hy => Rounding.isFinite_of_ratio? hy
  cases mode with
  | row => exact ⟨hif hb.width _, hif hb.height _, nofun⟩
  | column => exact ⟨hif hb.width _, hif hb.height _, hratio _⟩
  | none => exact ⟨nofun, nofun, nofun⟩

theorem plain_ofFrame {frame : Frame} (hframe : frame.IsFinite) (children : List Node) :
    (∀ t ∈ (ofFrame frame children).gap, Css.Plain t) ∧
      ∀ t ∈ (ofFrame frame children).padding, Css.Plain t := by
  simp only [ofFrame]
  split
  · simp
  · simp only [Option.forall_mem_map, Css.plain_px_iff, Edges.plain_css_iff]
    exact ⟨hframe.itemSpacing, hframe.padding⟩

theorem plain_own {a : Attributes} (ha : a.IsFinite) (children : List Node) :
    (∀ t ∈ (own a children).gap, Css.Plain t) ∧
      ∀ t ∈ (own a children).padding, Css.Plain t := by
  cases hframe : a.isFrame with
  | true =>
    rw [own_eq_ofFrame hframe]
    exact plain_ofFrame ha.frame children
  | false =>
    rw [own_eq_blank hframe]
    simp

theorem location_ofNode (n : Node) (parent : Option Attributes) :
    (ofNode n parent).location = n.attributes.location? parent := by
  obtain ⟨-, hlocation, -, -⟩ := placeless_own n.attributes (n.children.getD [])
  rw [ofNode_eq_place, location_place hlocation]

theorem regular_iff {n : Node} (hn : n.attributes.IsFinite) (parent : Option Attributes) :
    (StyleValue.layout (ofNode n parent)).Regular ↔
      ∀ p ∈ n.attributes.location? parent, p.IsFinite := by
  obtain ⟨-, -, hdimensions, -⟩ := placeless_own n.attributes (n.children.getD [])
  obtain ⟨hgap, hpadding⟩ := plain_own hn (n.children.getD [])
  rw [← location_ofNode, ofNode_eq_place]
  constructor
  · intro h
    exact ((isFinite_toJson_iff _).mp h.numbers).1
  · intro h
    constructor
    case numbers =>
      refine (isFinite_toJson_iff _).mpr ⟨h, fun d hd => ?_⟩
      obtain ⟨b, hb, rfl⟩ := exists_of_dimensions_place hdimensions hd
      exact isFinite_dimensionsIn (hn.box b hb) _ _
    case texts =>
      rw [StyleValue.cssTexts, List.forall_mem_append, forall_mem_toList, forall_mem_toList,
        gap_place, padding_place]
      exact ⟨hgap, hpadding⟩

end Layout

/-! ## What is told of a node -/

instance (p : Point) : Decidable p.IsFinite :=
  decidable_of_iff (p.x.isFinite = true ∧ p.y.isFinite = true)
    ⟨fun h => ⟨h.1, h.2⟩, fun h => ⟨h.x, h.y⟩⟩

/-- What a brief computes from the numbers of a node stays in the range of doubles. -/
structure Node.InRange (n : Node) (parent : Option Attributes) : Prop where
  letterSpacing : ∀ s ∈ n.attributes.typeStyle, s.InRange
  fills : ∀ p ∈ n.attributes.fills.getD [], p.InRange
  strokes : ∀ p ∈ shownOf (·.visible) n.attributes.strokes, p.InRange
  effects : ∀ e ∈ shownOf (·.visible) n.attributes.effects, e.InRange
  location : ∀ p ∈ n.attributes.location? parent, p.IsFinite

instance (n : Node) (parent : Option Attributes) : Decidable (n.InRange parent) :=
  decidable_of_iff ((∀ s ∈ n.attributes.typeStyle, s.InRange) ∧
      (∀ p ∈ n.attributes.fills.getD [], p.InRange) ∧
      (∀ p ∈ shownOf (·.visible) n.attributes.strokes, p.InRange) ∧
      (∀ e ∈ shownOf (·.visible) n.attributes.effects, e.InRange) ∧
      ∀ p ∈ n.attributes.location? parent, p.IsFinite)
    ⟨fun ⟨h₁, h₂, h₃, h₄, h₅⟩ => ⟨h₁, h₂, h₃, h₄, h₅⟩,
      fun ⟨h₁, h₂, h₃, h₄, h₅⟩ => ⟨h₁, h₂, h₃, h₄, h₅⟩⟩

/-- The numbers that a node tells without referring to a style are finite. -/
structure Facets.IsFinite {ρ : Type} (t : Facets ρ) : Prop where
  opacity : ∀ x ∈ t.opacity, x.isFinite = true
  borderRadius : ∀ s ∈ t.borderRadius, Css.Plain s

namespace Facets

variable {n : Node} (hn : n.attributes.IsFinite) (parent : Option Attributes)

include hn

theorem plain_borderRadiusOf : ∀ s ∈ borderRadiusOf n.attributes, Css.Plain s := by
  have hradii : ∀ e ∈ n.attributes.cornerRadii?, e.IsFinite := by
    intro e he
    unfold Attributes.cornerRadii? at he
    split at he
    · split at he <;> cases he
      rename_i hall
      simp only [Bool.and_eq_true, List.all_eq_true, List.forall_mem_cons] at hall
      obtain ⟨⟨h₁, h₂, h₃, h₄, -⟩, -⟩ := hall
      exact ⟨h₁, h₂, h₃, h₄⟩
    · cases he
  unfold borderRadiusOf
  cases hradius : n.attributes.cornerRadius? with
  | some r =>
    simpa using forall_mem_filter hn.cornerRadius r hradius
  | none =>
    simpa only [Option.forall_mem_map, Edges.plain_css_iff] using hradii

/-- A text style that has a letter spacing is told. -/
theorem textStyle_regular_iff :
    (∀ v ∈ (ofNode n parent).textStyle, v.Regular) ↔
      ∀ s ∈ n.attributes.typeStyle, s.InRange := by
  rw [textStyle_ofNode, Option.forall_mem_map]
  have hstyle := hn.typeStyle
  generalize n.attributes.typeStyle = style at hstyle
  cases style with
  | none => simp [TextStyle.told]
  | some s =>
    have hregular := TextStyle.regular_iff (hstyle s rfl)
    rw [TextStyle.told_some]
    split
    · rename_i hempty
      rw [TextStyle.eq_of_isEmpty hempty] at hregular
      simpa using hregular.mp TextStyle.regular_blank
    · simpa using hregular

theorem fills_regular_iff :
    (∀ v ∈ (ofNode n parent).fills, v.Regular) ↔
      ∀ p ∈ n.attributes.fills.getD [], p.InRange := by
  rw [← getD_nonempty?]
  simp only [ofNode, Option.forall_mem_map]
  have hfills : ∀ ps ∈ n.attributes.fills?, ∀ p ∈ ps, p.IsFinite := forall_mem_filter hn.fills
  rw [← Attributes.fills?]
  cases hfills? : n.attributes.fills? with
  | none => simp
  | some ps => simp [Fill.regular_iff (hfills ps hfills?)]

theorem strokes_regular_iff :
    (∀ v ∈ (ofNode n parent).strokes, v.Regular) ↔
      ∀ p ∈ shownOf (·.visible) n.attributes.strokes, p.InRange := by
  rw [← Stroke.regular_iff hn]
  simp only [ofNode]
  split
  · rename_i hempty
    have hnone : shownOf (·.visible) n.attributes.strokes = [] := by
      simpa [Stroke.ofAttributes_eq, Stroke.isEmpty] using hempty
    exact iff_of_true (by simp) ((Stroke.regular_iff hn).mpr (by simp [hnone]))
  · simp

theorem effects_regular_iff :
    (∀ v ∈ (ofNode n parent).effects, v.Regular) ↔
      ∀ e ∈ shownOf (·.visible) n.attributes.effects, e.InRange := by
  rw [← Effects.regular_iff hn]
  simp only [ofNode]
  split
  · rename_i hempty
    exact iff_of_true (by simp) (Effects.regular_of_isEmpty hempty)
  · simp

theorem layout_regular_iff :
    (∀ v ∈ (ofNode n parent).layout, v.Regular) ↔
      ∀ p ∈ n.attributes.location? parent, p.IsFinite := by
  rw [← Layout.regular_iff hn]
  simp only [ofNode]
  split
  · simp
  · rename_i hsilent
    have hnone : (Layout.ofNode n parent).location = none := by
      simp only [Layout.isInformative, Bool.or_eq_true, not_or] at hsilent
      simpa using hsilent.1.1.1.1.1.2
    refine iff_of_true (by simp) ((Layout.regular_iff hn parent).mpr ?_)
    simp [← Layout.location_ofNode, hnone]

theorem isFinite_ofNode : (ofNode n parent).IsFinite :=
  ⟨forall_mem_filter hn.opacity, plain_borderRadiusOf hn⟩

/-- If the numbers of a node are finite, then so are all in its styles, unless something that is
computed from them leaves the range of doubles. -/
theorem regular_ofNode_iff :
    (∀ v ∈ (ofNode n parent).refs, v.Regular) ↔ n.InRange parent := by
  rw [forall_mem_refs, textStyle_regular_iff hn, fills_regular_iff hn, strokes_regular_iff hn,
    effects_regular_iff hn, layout_regular_iff hn]
  constructor
  · rintro ⟨htext, hfills, hstrokes, heffects, hlayout⟩
    exact ⟨htext, hfills, hstrokes, heffects, hlayout⟩
  · intro h
    exact ⟨h.letterSpacing, h.fills, h.strokes, h.effects, h.location⟩

end Facets

end DesignBrief
