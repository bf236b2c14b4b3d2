import DesignBrief.Brief.Node

/-!
What is told of a node, with missing values and values that say nothing made alike. A missing list
is an empty one, and hidden strokes and effects do not count. The layout of a node is that of the
node as a frame with its place as a child put in, whether or not it says anything about its place:
`Layout.ofNode_eq_place`.
-/

namespace DesignBrief

/-! ## Lists -/

/-- What of a list is shown; a missing list is no different from an empty one. -/
def shownOf {α : Type} (visible : α → Option Bool) (xs : Option (List α)) : List α :=
  (xs.getD []).filter fun x => isShown (visible x)

theorem nonempty?_map {α β : Type} (f : α → β) (xs : Option (List α)) :
    nonempty? (xs.map (·.map f)) = (nonempty? xs).map (·.map f) := by
  rcases xs with _ | _ | _ <;> rfl

theorem Stroke.ofAttributes_eq (a : Attributes) :
    ofAttributes a =
      { colors := (shownOf (·.visible) a.strokes).map Fill.ofPaint
        weight := weightOf a
        dashes := a.strokeDashes? } := by
  rw [ofAttributes, Attributes.strokes?, getD_nonempty?]
  rfl

/-- The effects that are told depend on the kind of the node and on the effects that are shown. -/
theorem Effects.ofAttributes_congr {a b : Attributes} (hkind : a.kind = b.kind)
    (heffects : shownOf (·.visible) a.effects = shownOf (·.visible) b.effects) :
    ofAttributes a = ofAttributes b := by
  rw [shownOf, shownOf] at heffects
  simp only [ofAttributes, Attributes.effects?, getD_nonempty?, hkind, heffects]

/-! ## Texts -/

namespace TextStyle

/-- The text style that is told, unless nothing is told in it. -/
def told (s : Option TypeStyle) : Option TextStyle :=
  ((s.filter TypeStyle.isSet).map ofTypeStyle).filter (!·.isEmpty)

theorem isEmpty_of_not_isSet {s : TypeStyle} (h : s.isSet = false) :
    (ofTypeStyle s).isEmpty = true := by
  simp only [TypeStyle.isSet, Bool.or_eq_false_iff, Option.isSome_eq_false_iff,
    Option.isNone_iff_eq_none] at h
  simp [isEmpty, ofTypeStyle, relative?, h]

theorem eq_of_isEmpty {s : TextStyle} (h : s.isEmpty = true) : s = {} := by
  cases s
  simp_all [isEmpty]

/-- Of a style in which no field is set nothing would be told anyway. -/
theorem told_some (s : TypeStyle) :
    told (some s) = if (ofTypeStyle s).isEmpty then none else some (ofTypeStyle s) := by
  rw [told, Option.filter_some]
  cases hset : s.isSet with
  | false => rw [isEmpty_of_not_isSet hset]; rfl
  | true => cases hempty : (ofTypeStyle s).isEmpty <;> simp [hempty]

end TextStyle

theorem Facets.textStyle_ofNode (n : Node) (parent : Option Attributes) :
    (ofNode n parent).textStyle = (TextStyle.told n.attributes.typeStyle).map .text := rfl

/-! ## Frames and places -/

namespace Layout

/-- What is no frame has no layout mode either. -/
theorem flow_eq (a : Attributes) : flow a = flowOfMode a.layoutMode := by
  rw [flow, Attributes.frame?]
  cases hframe : a.isFrame with
  | true => rfl
  | false =>
    have hmode : a.layoutMode = none := by
      simp only [Attributes.isFrame, Bool.or_eq_false_iff] at hframe
      exact Option.isNone_iff_eq_none.mp (by simpa using hframe.2)
    rw [hmode]
    rfl

/-- The layout of a node as a frame; nothing if it is none. -/
def own (a : Attributes) (children : List Node) : Layout :=
  if a.isFrame then ofFrame a.frame children else {}

theorem own_eq_ofFrame {a : Attributes} (h : a.isFrame = true) (children : List Node) :
    own a children = ofFrame a.frame children := by
  rw [own, if_pos h]

theorem own_eq_blank {a : Attributes} (h : a.isFrame = false) (children : List Node) :
    own a children = {} := by
  rw [own, h]
  rfl

/-- A frame says nothing about its place. -/
theorem placeless_own (a : Attributes) (children : List Node) :
    (own a children).sizing = none ∧ (own a children).location = none ∧
      (own a children).dimensions = none ∧ (own a children).isAbsolute = false := by
  cases h : a.isFrame with
  | false => rw [own_eq_blank h]; exact ⟨rfl, rfl, rfl, rfl⟩
  | true =>
    rw [own_eq_ofFrame h]
    by_cases hmode : flowOfMode a.frame.mode = .none <;> simp [ofFrame, hmode]

@[simp] theorem scroll_ofFrame (frame : Frame) (children : List Node) :
    (ofFrame frame children).scroll = scrollOf frame := by
  simp only [ofFrame]
  split <;> rfl

structure Alike (f g : Frame) : Prop where
  mode : flowOfMode f.mode = flowOfMode g.mode
  primaryAlign : justify f.primaryAlign = justify g.primaryAlign
  counterAlign : align f.counterAlign = align g.counterAlign
  selfAlign : alignSelf? f.selfAlign = alignSelf? g.selfAlign
  wraps : f.wraps = g.wraps
  itemSpacing : f.itemSpacing = g.itemSpacing
  padding : f.padding = g.padding
  scroll : scrollOf f = scrollOf g

theorem ofFrame_eq_of_alike {f g : Frame} (h : Alike f g) (children : List Node) :
    ofFrame f children = ofFrame g children := by
  simp only [ofFrame, h.mode, h.primaryAlign, h.counterAlign, h.selfAlign, h.wraps, h.itemSpacing,
    h.padding, h.scroll]

/-- Besides the sizing, a place puts in where the node stands outside a flow, or its dimensions
inside one, or nothing. -/
theorem place_cases (l : Layout) (p : Placement) (parent : Option Attributes) :
    (∃ location, l.place p parent =
        { l with sizing := sizingOf p, isAbsolute := p.isAbsolute, location }) ∨
      (∃ box ∈ p.box, l.place p parent =
        { l with sizing := sizingOf p, dimensions := dimensions? (dimensionsIn l.mode p box) }) ∨
      l.place p parent = { l with sizing := sizingOf p } := by
  simp only [place]
  split
  · exact .inl ⟨_, rfl⟩
  · split
    · rename_i box _ hbox _
      exact .inr (.inl ⟨box, hbox, rfl⟩)
    · exact .inr (.inr rfl)

@[simp] theorem scroll_place (l : Layout) (p : Placement) (parent : Option Attributes) :
    (l.place p parent).scroll = l.scroll := by
  rcases place_cases l p parent with ⟨_, h⟩ | ⟨_, _, h⟩ | h <;> rw [h]

@[simp] theorem gap_place (l : Layout) (p : Placement) (parent : Option Attributes) :
    (l.place p parent).gap = l.gap := by
  rcases place_cases l p parent with ⟨_, h⟩ | ⟨_, _, h⟩ | h <;> rw [h]

@[simp] theorem padding_place (l : Layout) (p : Placement) (parent : Option Attributes) :
    (l.place p parent).padding = l.padding := by
  rcases place_cases l p parent with ⟨_, h⟩ | ⟨_, _, h⟩ | h <;> rw [h]

/-- A place of which nothing is known changes nothing. -/
theorem place_of_silent {l : Layout} {p : Placement} (parent : Option Attributes)
    (hsizing : l.sizing = none) (hlocation : l.location = none) (habsolute : l.isAbsolute = false)
    (hp : sizingOf p = none) (hpabs : p.isAbsolute = false) (hbox : p.box = none) :
    l.place p parent = l := by
  obtain ⟨mode, justify, align, self, wrap, gap, location, dims, padding, sizing, scroll, abs⟩ := l
  subst hsizing hlocation habsolute
  simp only [place, hp, hpabs, hbox]
  split <;> rfl

/-- The place is put in, whether or not the node says anything about it. -/
theorem ofNode_eq_place (node : Node) (parent : Option Attributes) :
    ofNode node parent =
      (own node.attributes (node.children.getD [])).place node.attributes.placement parent := by
  have hown : ofNode node parent =
      node.attributes.placement?.elim (own node.attributes (node.children.getD []))
        fun p => (own node.attributes (node.children.getD [])).place p parent := by
    rw [ofNode, Attributes.frame?, Node.children?, getD_nonempty?, own]
    cases node.attributes.isFrame <;> cases node.attributes.placement? <;> rfl
  rw [hown, Attributes.placement?]
  cases hplaced : node.attributes.isPlaced with
  | true => rfl
  | false =>
    obtain ⟨hsizing, hlocation, _, habsolute⟩ :=
      placeless_own node.attributes (node.children.getD [])
    simp only [Attributes.isPlaced, Bool.or_eq_false_iff, Option.isSome_eq_false_iff,
      Option.isNone_iff_eq_none] at hplaced
    obtain ⟨⟨⟨⟨⟨hbox, hwidth⟩, hheight⟩, hpositioning⟩, _⟩, _⟩ := hplaced
    refine (place_of_silent parent hsizing hlocation habsolute ?_ ?_ hbox).symm
    · simp [sizingOf, Attributes.placement, hwidth, hheight, sizing?]
    · simp [Attributes.placement, Attributes.isAbsolute, hpositioning]

end Layout
end DesignBrief
