import DesignBrief.Proofs.Told
import DesignBrief.Proofs.WellFormed

/-!
Where a node is placed. What the place of a node adds to its layout as a frame is a sizing, whether
it stands outside the flow around it, its location there, or its dimensions inside the flow:
`Layout.ofNode_eq`. Everything said here of places is read off that equation: when there is which of
them, `Layout.ofNode_placed`, and that no more of the parent counts than whether it has a flow and
the corner of its box, `Layout.ofNode_eq_of_parents`.
-/

namespace DesignBrief.Layout

/-! ## What the place adds -/

/-- The flow around a node; without a parent there is none. -/
def flowAround (parent : Option Attributes) : Flow := (parent.map flow).getD .none

/-- A node stands outside if there is no flow around it, or if it asks for that. -/
def standsOutside (a : Attributes) (parent : Option Attributes) : Bool :=
  flowAround parent = .none || a.isAbsolute

/-- The way to a node outside a flow, from its parent. -/
def locationBelow (a : Attributes) (parent : Option Attributes) : Option Point :=
  if standsOutside a parent then
    a.box.bind fun box => (parent.bind (·.box)).map fun around => box.origin.minus around.origin
  else none

def dimensionsBelow (a : Attributes) (parent : Option Attributes) : Option Dimensions :=
  if standsOutside a parent then none
  else
    a.box.bind fun box =>
      (parent.bind (·.box)).bind fun _ => dimensions? (dimensionsIn (flow a) a.placement box)

/-- Put into a layout that says nothing of a place, a place adds these fields and no others. -/
theorem place_eq {l : Layout} {a : Attributes} (parent : Option Attributes)
    (hmode : l.mode = flow a) (hlocation : l.location = none) (hdimensions : l.dimensions = none)
    (habsolute : l.isAbsolute = false) :
    l.place a.placement parent =
      { l with
        sizing := sizingOf a.placement
        isAbsolute := a.isAbsolute
        location := locationBelow a parent
        dimensions := dimensionsBelow a parent } := by
  have hbox : a.placement.box = a.box := rfl
  rw [locationBelow, dimensionsBelow]
  simp only [place, hbox]
  cases hout : standsOutside a parent with
  | true =>
    refine (if_pos hout).trans ?_
    rw [if_pos rfl, if_pos rfl, ← hdimensions]
    cases a.box <;> cases parent.bind (·.box) <;> rfl
  | false =>
    have hinside : a.isAbsolute = false := (Bool.or_eq_false_iff.mp hout).2
    refine (if_neg (Bool.eq_false_iff.mp hout)).trans ?_
    rw [if_neg Bool.false_ne_true, if_neg Bool.false_ne_true, ← hlocation, hinside, ← habsolute,
      ← hmode]
    cases a.box <;> cases parent.bind (·.box) <;> simp [hdimensions]

theorem mode_own (a : Attributes) (children : List Node) : (own a children).mode = flow a := by
  rw [flow_eq]
  cases hframe : a.isFrame with
  | true => rw [own_eq_ofFrame hframe, mode_ofFrame]; rfl
  | false =>
    have hmode : a.layoutMode = none := by simp_all [Attributes.isFrame]
    rw [own_eq_blank hframe, hmode]
    rfl

theorem ofNode_eq (node : Node) (parent : Option Attributes) :
    ofNode node parent =
      { own node.attributes (node.children.getD []) with
        sizing := sizingOf node.attributes.placement
        isAbsolute := node.attributes.isAbsolute
        location := locationBelow node.attributes parent
        dimensions := dimensionsBelow node.attributes parent } := by
  obtain ⟨-, hlocation, hdimensions, habsolute⟩ :=
    placeless_own node.attributes (node.children.getD [])
  rw [ofNode_eq_place]
  exact place_eq parent (mode_own _ _) hlocation hdimensions habsolute

/-! ## When there is a location, when there are dimensions -/

theorem isAbsolute_iff (a : Attributes) :
    a.isAbsolute = true ↔ a.positioning = some .absolute := by
  rw [Attributes.isAbsolute, beq_iff_eq]

theorem standsOutside_iff (a : Attributes) (parent : Option Attributes) :
    standsOutside a parent = true ↔
      flowAround parent = .none ∨ a.positioning = some .absolute := by
  rw [standsOutside, Bool.or_eq_true, decide_eq_true_iff, isAbsolute_iff]

theorem locationBelow_eq_some_iff {a : Attributes} {parent : Option Attributes} {way : Point} :
    locationBelow a parent = some way ↔
      ∃ p ∈ parent, ∃ box ∈ a.box, ∃ around ∈ p.box,
        (flow p = .none ∨ a.positioning = some .absolute) ∧
          way = box.origin.minus around.origin := by
  simp only [locationBelow, Option.ite_none_right_eq_some, standsOutside_iff,
    Option.bind_eq_some_iff, Option.map_eq_some_iff]
  constructor
  · rintro ⟨hout, box, hbox, around, ⟨p, rfl, haround⟩, rfl⟩
    exact ⟨p, rfl, box, hbox, around, haround, hout, rfl⟩
  · rintro ⟨p, hp, box, hbox, around, haround, hout, rfl⟩
    cases hp
    exact ⟨hout, box, hbox, around, ⟨p, rfl, haround⟩, rfl⟩

/-- A node with this box is laid out by the flow of its parent, which has a box too. -/
structure FlowsIn (a : Attributes) (parent : Option Attributes) (box : Box) : Prop where
  own : a.box = some box
  around : ∃ p ∈ parent, (flow p = .row ∨ flow p = .column) ∧ p.box.isSome
  inside : a.positioning ≠ some .absolute

theorem flow_ne_none_iff {m : Flow} : m ≠ .none ↔ m = .row ∨ m = .column := by
  cases m <;> simp

theorem flowsIn_iff {a : Attributes} {parent : Option Attributes} {box : Box} :
    FlowsIn a parent box ↔
      standsOutside a parent = false ∧ a.box = some box ∧
        ∃ around, parent.bind (·.box) = some around := by
  rw [← Bool.not_eq_true, standsOutside_iff, not_or, ← ne_eq, ← ne_eq, flow_ne_none_iff]
  constructor
  · rintro ⟨hbox, ⟨p, hp, hrun, haround⟩, hinside⟩
    cases hp
    exact ⟨⟨hrun, hinside⟩, hbox, Option.isSome_iff_exists.mp haround⟩
  · rintro ⟨⟨hrun, hinside⟩, hbox, around, haround⟩
    obtain ⟨p, rfl, hp⟩ := Option.bind_eq_some_iff.mp haround
    exact ⟨hbox, ⟨p, rfl, hrun, Option.isSome_of_eq_some hp⟩, hinside⟩

theorem dimensionsBelow_eq_some_iff {a : Attributes} {parent : Option Attributes}
    {d : Dimensions} :
    dimensionsBelow a parent = some d ↔
      ∃ box, FlowsIn a parent box ∧
        dimensions? (dimensionsIn (flow a) a.placement box) = some d := by
  simp only [dimensionsBelow, Option.ite_none_left_eq_some, flowsIn_iff, Bool.not_eq_true]
  constructor
  · rintro ⟨hin, h⟩
    obtain ⟨box, hbox, hd⟩ := Option.bind_eq_some_iff.mp h
    obtain ⟨around, haround, hd⟩ := Option.bind_eq_some_iff.mp hd
    exact ⟨box, ⟨hin, hbox, around, haround⟩, hd⟩
  · rintro ⟨box, ⟨hin, hbox, around, haround⟩, hd⟩
    refine ⟨hin, ?_⟩
    rw [hbox, haround]
    exact hd

/-! ## Which dimensions there are -/

theorem bind_dimensions? {f : Dimensions → Option Float} (hf : f {} = none) (d : Dimensions) :
    (dimensions? d).bind f = f d := by
  rw [dimensions?]
  split
  next hnone =>
    have hd : d = {} := by
      cases d
      simp_all
    rw [hd, hf]
    rfl
  next => rfl

/-- One of the dimensions of a node, with none at all like none of its kind. -/
theorem bind_dimensionsBelow_eq_some_iff {f : Dimensions → Option Float} (hf : f {} = none)
    {a : Attributes} {parent : Option Attributes} {x : Float} :
    (dimensionsBelow a parent).bind f = some x ↔
      ∃ box, FlowsIn a parent box ∧ f (dimensionsIn (flow a) a.placement box) = some x := by
  constructor
  · intro h
    obtain ⟨d, hd, hx⟩ := Option.bind_eq_some_iff.mp h
    obtain ⟨box, hflows, hbox⟩ := dimensionsBelow_eq_some_iff.mp hd
    refine ⟨box, hflows, ?_⟩
    rw [← bind_dimensions? hf, hbox]
    exact hx
  · rintro ⟨box, hflows, hx⟩
    rw [← bind_dimensions? hf] at hx
    obtain ⟨d, hd, hx⟩ := Option.bind_eq_some_iff.mp hx
    exact Option.bind_eq_some_iff.mpr ⟨d, dimensionsBelow_eq_some_iff.mpr ⟨box, hflows, hd⟩, hx⟩

theorem grows_eq_false_iff (a : Attributes) :
    a.placement.grows = false ↔ ∀ g ∈ a.grow, (g == 0) = true := by
  rw [Attributes.placement]
  cases a.grow <;> simp [bne]

theorem stretches_eq_false_iff (a : Attributes) :
    a.placement.stretches = false ↔ a.selfAlign ≠ some .stretch := by
  rw [Attributes.placement, beq_eq_false_iff_ne]

/-- The width of a node is its own if growing, in a row, or stretching, in a column, leaves it. -/
theorem width_dimensionsIn_eq_some_iff {m : Flow} {a : Attributes} {box : Box} {x : Float} :
    (dimensionsIn m a.placement box).width = some x ↔
      x = box.width ∧ a.sizeHorizontal = some .fixed ∧
        (m = .row ∧ (∀ g ∈ a.grow, (g == 0) = true) ∨
          m = .column ∧ a.selfAlign ≠ some .stretch) := by
  rw [← grows_eq_false_iff, ← stretches_eq_false_iff]
  cases m <;> simp [dimensionsIn, Attributes.placement] <;> tauto

/-- The height is left the other way round. -/
theorem height_dimensionsIn_eq_some_iff {m : Flow} {a : Attributes} {box : Box} {x : Float} :
    (dimensionsIn m a.placement box).height = some x ↔
      x = box.height ∧ a.sizeVertical = some .fixed ∧
        (m = .row ∧ a.selfAlign ≠ some .stretch ∨
          m = .column ∧ (∀ g ∈ a.grow, (g == 0) = true)) := by
  rw [← grows_eq_false_iff, ← stretches_eq_false_iff]
  cases m <;> simp [dimensionsIn, Attributes.placement] <;> tauto

theorem aspectRatio_dimensionsIn_eq_some_iff {m : Flow} {a : Attributes} {box : Box} {x : Float} :
    (dimensionsIn m a.placement box).aspectRatio = some x ↔
      m = .column ∧ a.preserveRatio = some true ∧
        Rounding.ratio? box.width box.height = some x := by
  cases m <;> simp [dimensionsIn, Attributes.placement]

/-- The place of a node below a parent, or below none, as it stands in a layout. -/
structure Placed (a : Attributes) (parent : Option Attributes) (l : Layout) : Prop where
  absolute : l.isAbsolute = true ↔ a.positioning = some .absolute
  location (way : Point) : l.location = some way ↔
    ∃ p ∈ parent, ∃ box ∈ a.box, ∃ around ∈ p.box,
      (flow p = .none ∨ a.positioning = some .absolute) ∧ way = box.origin.minus around.origin
  dimensions : l.dimensions.isSome → ∃ box, FlowsIn a parent box
  width (x : Float) : l.dimensions.bind (·.width) = some x ↔
    ∃ box, FlowsIn a parent box ∧ x = box.width ∧ a.sizeHorizontal = some .fixed ∧
      (flow a = .row ∧ (∀ g ∈ a.grow, (g == 0) = true) ∨
        flow a = .column ∧ a.selfAlign ≠ some .stretch)
  height (x : Float) : l.dimensions.bind (·.height) = some x ↔
    ∃ box, FlowsIn a parent box ∧ x = box.height ∧ a.sizeVertical = some .fixed ∧
      (flow a = .row ∧ a.selfAlign ≠ some .stretch ∨
        flow a = .column ∧ (∀ g ∈ a.grow, (g == 0) = true))
  aspectRatio (x : Float) : l.dimensions.bind (·.aspectRatio) = some x ↔
    ∃ box, FlowsIn a parent box ∧ flow a = .column ∧ a.preserveRatio = some true ∧
      Rounding.ratio? box.width box.height = some x
  /-- Dimensions that are all absent are left out. -/
  some_dimension : ∀ d ∈ l.dimensions, d.width.isSome ∨ d.height.isSome ∨ d.aspectRatio.isSome

/-- A layout has a location or dimensions just where the flow around the node leaves them open. -/
theorem ofNode_placed (node : Node) (parent : Option Attributes) :
    Placed node.attributes parent (ofNode node parent) := by
  have hcoherent := coherent_ofNode node parent
  rw [ofNode_eq] at hcoherent ⊢
  constructor
  case absolute => exact isAbsolute_iff _
  case location => exact fun _ => locationBelow_eq_some_iff
  case dimensions =>
    intro h
    obtain ⟨d, hd⟩ := Option.isSome_iff_exists.mp h
    obtain ⟨box, hflows, -⟩ := dimensionsBelow_eq_some_iff.mp hd
    exact ⟨box, hflows⟩
  case width =>
    intro x
    simp only [bind_dimensionsBelow_eq_some_iff (f := (·.width)) rfl,
      width_dimensionsIn_eq_some_iff]
  case height =>
    intro x
    simp only [bind_dimensionsBelow_eq_some_iff (f := (·.height)) rfl,
      height_dimensionsIn_eq_some_iff]
  case aspectRatio =>
    intro x
    simp only [bind_dimensionsBelow_eq_some_iff (f := (·.aspectRatio)) rfl,
      aspectRatio_dimensionsIn_eq_some_iff]
  case some_dimension => exact hcoherent.dimensions

-- Growing leaves a row its height and a column its width.
example :
    let grown (mode : LayoutMode) : Attributes :=
      { layoutMode := some mode, grow := some 1, box := some { width := 3, height := 2 }
        sizeHorizontal := some .fixed, sizeVertical := some .fixed }
    let around : Attributes := { layoutMode := some .horizontal, box := some {} }
    (ofNode ⟨grown .horizontal, none⟩ (some around)).dimensions = some { height := some 2 } ∧
      (ofNode ⟨grown .vertical, none⟩ (some around)).dimensions = some { width := some 3 } := by
  decide

/-! ## What the parent is looked at for -/

def originAround (parent : Option Attributes) : Option Point :=
  (parent.bind (·.box)).map Box.origin

theorem locationBelow_eq (a : Attributes) (parent : Option Attributes) :
    locationBelow a parent =
      if standsOutside a parent then
        a.box.bind fun box => (originAround parent).map fun corner => box.origin.minus corner
      else none := by
  simp only [locationBelow, originAround, Option.map_map]
  rfl

theorem dimensionsBelow_eq (a : Attributes) (parent : Option Attributes) :
    dimensionsBelow a parent =
      if standsOutside a parent then none
      else
        a.box.bind fun box => (originAround parent).bind fun _ =>
          dimensions? (dimensionsIn (flow a) a.placement box) := by
  simp only [dimensionsBelow, originAround, Option.bind_map]
  rfl

/-- Two parents below which a node is placed alike. -/
structure SameAround (p q : Option Attributes) : Prop where
  flow : flowAround p = .none ↔ flowAround q = .none
  origin : originAround p = originAround q

theorem SameAround.standsOutside_eq {p q : Option Attributes} (h : SameAround p q)
    (a : Attributes) : standsOutside a p = standsOutside a q := by
  rw [Bool.eq_iff_iff, standsOutside_iff, standsOutside_iff, h.flow]

/-- Below different parents a node has the same layout but for the location and the dimensions, and
wholly the same if both have a flow or neither has one and their boxes have one corner or neither
has a box. What the node says as a frame stands in its layout as it is. -/
theorem ofNode_eq_of_parents (node : Node) (p q : Option Node) :
    let below (parent : Option Node) := ofNode node (parent.map (·.attributes))
    { below p with location := none, dimensions := none } =
        { below q with location := none, dimensions := none } ∧
      (SameAround (p.map (·.attributes)) (q.map (·.attributes)) → below p = below q) ∧
      { below p with sizing := none, location := none, dimensions := none, isAbsolute := false } =
        own node.attributes (node.children.getD []) := by
  intro below
  refine ⟨?_, ?_, ?_⟩
  · simp only [below, ofNode_eq]
  · intro h
    simp only [below, ofNode_eq, locationBelow_eq, dimensionsBelow_eq, h.standsOutside_eq, h.origin]
  · obtain ⟨hsizing, hlocation, hdimensions, habsolute⟩ :=
      placeless_own node.attributes (node.children.getD [])
    simp only [below, ofNode_eq, ← hsizing, ← hlocation, ← hdimensions, ← habsolute]

/-- A row and a column of different sizes, with their boxes in one corner. -/
theorem ofNode_eq_of_parents_turned :
    let node : Node :=
      ⟨{ layoutMode := some .vertical, sizeHorizontal := some .fixed
         box := some { x := 5, y := 7, width := 3 } }, none⟩
    let row : Node :=
      ⟨{ layoutMode := some .horizontal, box := some { x := 1, y := 2, width := 20 } }, none⟩
    let column : Node :=
      ⟨{ id := "1", layoutMode := some .vertical, box := some { x := 1, y := 2, height := 40 } },
        some [node]⟩
    SameAround (some row.attributes) (some column.attributes) ∧
      ofNode node (some row.attributes) = ofNode node (some column.attributes) := by
  intro node row column
  have hsame : SameAround (some row.attributes) (some column.attributes) :=
    ⟨by decide, by decide⟩
  exact ⟨hsame, (ofNode_eq_of_parents node (some row) (some column)).2.1 hsame⟩

end DesignBrief.Layout
