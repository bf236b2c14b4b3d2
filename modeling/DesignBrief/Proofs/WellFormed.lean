import DesignBrief.Proofs.Records
import DesignBrief.Proofs.Told
import DesignBrief.Proofs.Visits

/-!
The styles that get into a table. No style is empty, and the fields of a layout agree with each
other: what only a flow has stands in no layout without one, and a layout that has dimensions has
neither a location nor an absolute position. The frame comes first, with what it says of its own
children, then the place of the node, which leaves all that alone: `Layout.Coherent.place`.
-/

namespace DesignBrief

/-! ## Strokes and effects -/

/-- Something is painted, and dashes are listed only if there are any. -/
structure Stroke.WellFormed (s : Stroke) : Prop where
  colors : s.colors ≠ []
  dashes : ∀ xs ∈ s.dashes, xs ≠ []

/-- There is an effect, and shadows fall by the box or by the letter but not by both. -/
structure Effects.WellFormed (e : Effects) : Prop where
  some_effect : e.boxShadow.isSome ∨ e.textShadow.isSome ∨ e.filter.isSome ∨ e.backdropFilter.isSome
  one_shadow : e.boxShadow = none ∨ e.textShadow = none

theorem Stroke.wellFormed_ofAttributes {a : Attributes} (h : (ofAttributes a).isEmpty = false) :
    (ofAttributes a).WellFormed := by
  constructor
  case colors =>
    rw [isEmpty] at h
    exact List.isEmpty_eq_false_iff.mp h
  case dashes => exact fun xs hxs => (nonempty?_eq_some_iff.mp hxs).2

theorem Effects.wellFormed_ofAttributes {a : Attributes} (h : (ofAttributes a).isEmpty = false) :
    (ofAttributes a).WellFormed := by
  constructor
  case some_effect =>
    simp only [isEmpty, Bool.and_eq_false_iff, Option.isNone_eq_false_iff, or_assoc] at h
    exact h
  case one_shadow =>
    by_cases hkind : a.kind = "TEXT"
    · exact .inl (if_pos hkind)
    · exact .inr (if_neg hkind)

/-! ## Layouts -/

namespace Layout

/-- The fields of a layout agree with each other. -/
structure Coherent (l : Layout) : Prop where
  /-- What only a flow has is absent without one. -/
  still : l.mode = .none → l.justifyContent = none ∧ l.alignItems = none ∧ l.alignSelf = none ∧
    l.wrap = false ∧ l.gap = none ∧ l.padding = none ∧ l.dimensions = none
  /-- What has dimensions is placed by a flow. -/
  placed : l.dimensions.isSome → l.isAbsolute = false ∧ l.location = none
  dimensions : ∀ d ∈ l.dimensions, d.width.isSome ∨ d.height.isSome ∨ d.aspectRatio.isSome
  ratio : ∀ d ∈ l.dimensions, d.aspectRatio.isSome → l.mode = .column
  scroll : l.scroll ∈ [[], [.x], [.y], [.x, .y]]
  sizing : ∀ s ∈ l.sizing, s.horizontal.isSome ∨ s.vertical.isSome
  justifyContent : ∀ a ∈ l.justifyContent, a ≠ .stretch ∧ a ≠ .baseline
  alignItems : ∀ a ∈ l.alignItems, a ≠ .spaceBetween
  alignSelf : ∀ a ∈ l.alignSelf, a = .flexEnd ∨ a = .center ∨ a = .stretch

/-- A layout that says something beyond its flow, and is written without what is absent. -/
structure WellFormed (l : Layout) : Prop extends Coherent l where
  informative : l.isInformative = true
  wrap : ∀ j ∈ l.toJson.member? "wrap", j = .bool true
  overflowScroll : ∀ j ∈ l.toJson.member? "overflowScroll", ∃ axes ∈ [[.x], [.y], [.x, .y]],
    j = .ofList ScrollAxis.toJson axes

theorem member?_wrap_toJson (l : Layout) :
    l.toJson.member? "wrap" = if l.wrap then some (.bool true) else none := by
  rw [toJson, Json.member?_present (by simp)]
  rfl

theorem member?_overflowScroll_toJson (l : Layout) :
    l.toJson.member? "overflowScroll" =
      if l.scroll.isEmpty then none else some (.ofList ScrollAxis.toJson l.scroll) := by
  rw [toJson, Json.member?_present (by simp)]
  rfl

theorem Coherent.wellFormed {l : Layout} (h : l.Coherent) (hl : l.isInformative = true) :
    l.WellFormed := by
  refine ⟨h, hl, ?_, ?_⟩
  · rw [member?_wrap_toJson]
    intro j hj
    split at hj <;> cases hj
    rfl
  · rw [member?_overflowScroll_toJson]
    intro j hj
    split at hj
    · cases hj
    · rename_i hne
      cases hj
      refine ⟨l.scroll, ?_, rfl⟩
      rcases List.mem_cons.mp h.scroll with hnil | hmem
      · simp [hnil] at hne
      · exact hmem

/-! ### The frame -/

theorem scrollOf_mem (frame : Frame) : scrollOf frame ∈ [[], [.x], [.y], [.x, .y]] := by
  rw [scrollOf]
  cases frame.scrollsX <;> cases frame.scrollsY <;> decide

theorem ne_of_mem_justify {align : Option AxisAlign} :
    ∀ a ∈ justify align, a ≠ .stretch ∧ a ≠ .baseline := by
  rcases align with _ | align
  · exact nofun
  · cases align <;> simp [justify]

theorem ne_of_mem_align {axisAlign : Option AxisAlign} :
    ∀ a ∈ align axisAlign, a ≠ .spaceBetween := by
  rcases axisAlign with _ | axisAlign
  · exact nofun
  · cases axisAlign <;> simp [align]

theorem eq_of_mem_alignSelf? {align : Option SelfAlign} :
    ∀ a ∈ alignSelf? align, a = .flexEnd ∨ a = .center ∨ a = .stretch := by
  rcases align with _ | align
  · exact nofun
  · cases align <;> simp [alignSelf?]

theorem coherent_blank : Coherent {} := by
  constructor <;> simp

theorem coherent_ofFrame (frame : Frame) (children : List Node) :
    (ofFrame frame children).Coherent := by
  have hscroll := scrollOf_mem frame
  by_cases hmode : flowOfMode frame.mode = .none
  · have hframe : ofFrame frame children = { scroll := scrollOf frame } := by
      simp only [ofFrame, hmode, if_true]
    rw [hframe]
    exact { coherent_blank with scroll := hscroll }
  · have hitems : ∀ a ∈ (ofFrame frame children).alignItems, a ≠ .spaceBetween := by
      simp only [ofFrame, hmode, if_false]
      split
      · simp
      · exact ne_of_mem_align
    constructor
    case still => exact fun h => absurd ((mode_ofFrame frame children).symm.trans h) hmode
    case scroll => rwa [scroll_ofFrame]
    case alignItems => exact hitems
    all_goals simp only [ofFrame, hmode, if_false]
    case justifyContent => exact ne_of_mem_justify
    case alignSelf => exact eq_of_mem_alignSelf?
    all_goals simp

theorem coherent_own (a : Attributes) (children : List Node) : (own a children).Coherent := by
  cases hframe : a.isFrame with
  | true =>
    rw [own_eq_ofFrame hframe]
    exact coherent_ofFrame a.frame children
  | false =>
    rw [own_eq_blank hframe]
    exact coherent_blank

/-! ### The place -/

theorem isSome_of_mem_sizingOf {p : Placement} :
    ∀ s ∈ sizingOf p, s.horizontal.isSome ∨ s.vertical.isSome := by
  intro s hs
  simp only [sizingOf] at hs
  split at hs
  · cases hs
  · rename_i hne
    cases hs
    cases hh : sizing? p.sizeHorizontal <;> cases hv : sizing? p.sizeVertical <;> simp_all

theorem isSome_of_mem_dimensions? {d : Dimensions} :
    ∀ e ∈ dimensions? d, e = d ∧ (d.width.isSome ∨ d.height.isSome ∨ d.aspectRatio.isSome) := by
  intro e he
  simp only [dimensions?] at he
  split at he
  · cases he
  · rename_i hne
    cases he
    refine ⟨rfl, ?_⟩
    simpa [Option.isSome_iff_ne_none, or_iff_not_imp_left] using hne

theorem eq_column_of_aspectRatio {mode : Flow} {p : Placement} {box : Box}
    (h : (dimensionsIn mode p box).aspectRatio.isSome) : mode = .column := by
  cases mode with
  | column => rfl
  | row => cases h
  | none => cases h

/-- A node that is placed nowhere stays coherent when its place is put in. -/
theorem Coherent.place {l : Layout} (h : l.Coherent) (hlocation : l.location = none)
    (hdimensions : l.dimensions = none) (habsolute : l.isAbsolute = false) (p : Placement)
    (parent : Option Attributes) : (l.place p parent).Coherent := by
  rcases place_cases l p parent with ⟨location, hl⟩ | ⟨box, _, hl⟩ | hl <;> rw [hl]
  · refine { h with sizing := isSome_of_mem_sizingOf, placed := ?_ }
    rw [hdimensions]
    exact nofun
  · refine { h with
      sizing := isSome_of_mem_sizingOf
      still := fun hmode => ?_
      placed := fun _ => ⟨habsolute, hlocation⟩
      dimensions := fun d hd => ?_
      ratio := fun d hd hratio => ?_ }
    · obtain ⟨h₁, h₂, h₃, h₄, h₅, h₆, _⟩ := h.still hmode
      refine ⟨h₁, h₂, h₃, h₄, h₅, h₆, ?_⟩
      have hflat : l.mode = .none := hmode
      simp only [hflat]
      rfl
    · obtain ⟨rfl, hsome⟩ := isSome_of_mem_dimensions? d hd
      exact hsome
    · obtain ⟨rfl, _⟩ := isSome_of_mem_dimensions? d hd
      exact eq_column_of_aspectRatio hratio
  · exact { h with sizing := isSome_of_mem_sizingOf }

theorem coherent_ofNode (n : Node) (parent : Option Attributes) : (ofNode n parent).Coherent := by
  obtain ⟨_, hlocation, hdimensions, habsolute⟩ :=
    placeless_own n.attributes (n.children.getD [])
  rw [ofNode_eq_place]
  exact (coherent_own _ _).place hlocation hdimensions habsolute _ _

end Layout

/-! ## The table -/

/-- A style that has a place in a table. -/
def StyleValue.WellFormed : StyleValue → Prop
  | .text s => s.isEmpty = false
  | .fills fs => fs ≠ []
  | .stroke s => s.WellFormed
  | .effects e => e.WellFormed
  | .layout l => l.WellFormed

theorem Facets.wellFormed_ofNode (node : Node) (parent : Option Attributes) :
    ∀ v ∈ (ofNode node parent).refs, v.WellFormed := by
  rw [forall_mem_refs]
  refine ⟨?_, ?_, ?_, ?_, ?_⟩ <;> intro v hv <;> simp only [ofNode] at hv
  · obtain ⟨s, hs, rfl⟩ := Option.map_eq_some_iff.mp hv
    have hset := (Option.filter_eq_some_iff.mp hs).2
    rw [StyleValue.WellFormed]
    simpa using hset
  · obtain ⟨ps, hps, rfl⟩ := Option.map_eq_some_iff.mp hv
    have hne := (nonempty?_eq_some_iff.mp hps).2
    exact fun h => hne (List.map_eq_nil_iff.mp h)
  · split at hv <;> cases hv
    rename_i hpainted
    exact Stroke.wellFormed_ofAttributes (by simpa using hpainted)
  · split at hv <;> cases hv
    rename_i hshown
    exact Effects.wellFormed_ofAttributes (by simpa using hshown)
  · split at hv <;> cases hv
    rename_i hinformative
    exact (Layout.coherent_ofNode node parent).wellFormed hinformative

theorem wellFormed_briefTreeBy (hash : TextHash) (limit : DepthLimit) (roots : List Node) :
    ∀ e ∈ (briefTreeBy hash limit roots).2.toList, e.2.WellFormed :=
  forall_briefTreeBy hash fun v _ => Facets.wellFormed_ofNode v.1 v.2

/-- All styles of a brief are well formed. -/
theorem Response.brief_wellFormed {r : Response} {limit : DepthLimit} {b : Brief}
    (h : r.brief limit = .ok b) : ∀ e ∈ b.styles.toList, e.2.WellFormed := by
  obtain ⟨roots, -, -, hstyles⟩ := exists_roots_of_brief h
  rw [hstyles]
  exact wellFormed_briefTreeBy TextHash.mixing limit roots

/-- A column in a row, with the dimensions of a child and the location of another. -/
theorem Response.brief_wellFormed_column :
    let column : Node :=
      ⟨{ box := some { width := 3, height := 2 }, layoutMode := some .vertical,
          sizeHorizontal := some .fixed, preserveRatio := some true, wrap := some .wrap },
        some [⟨{ box := some {}, positioning := some .absolute }, none⟩]⟩
    let row : Node :=
      ⟨{ box := some {}, layoutMode := some .horizontal, overflow := some .both }, some [column]⟩
    let r : Response := { document := some ⟨{}, some [row]⟩ }
    ∃ b, r.brief (some 2) = .ok b ∧ ∀ e ∈ b.styles.toList, e.2.WellFormed := by
  intro column row r
  obtain ⟨b, hb⟩ : ∃ b, r.brief (some 2) = .ok b := ⟨_, rfl⟩
  exact ⟨b, hb, brief_wellFormed hb⟩

end DesignBrief
