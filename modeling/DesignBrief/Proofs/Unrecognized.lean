import DesignBrief.Proofs.Matched
import DesignBrief.Proofs.Told
import DesignBrief.Proofs.Visits

/-!
Names that are not in their stock, against values that are missing. Everywhere but in two places an
unknown name tells no more than no name: `Facets.ofNode_recognized_iff`. The exceptions are a
layout mode, which makes a frame whatever its name and so lets the node scroll, and the scale mode
of an image, which is told as it is. So dropping the unknown names of a design file leaves its brief
as it is unless the walk comes to one of these, `Response.brief_recognized`; in general it does not,
`Response.brief_recognized_ne`.
-/

namespace DesignBrief

/-! ## Dropping unknown names -/

namespace Keyword

variable {α : Type} [Keyword α] [DecidableEq α]

/-- A name that is in its stock; an unknown one counts as none. -/
def known? (name : Option α) : Option α := name.filter (· ≠ unknown)

theorem known?_unknown : known? (some (unknown : α)) = none := by
  simp [known?]

theorem known?_of_ne {k : α} (hk : k ≠ unknown) : known? (some k) = some k := by
  simp [known?, hk]

/-- What makes no difference between an unknown name and none does not tell either from the other
wherever it stands. -/
theorem apply_known? {β : Type} {g : Option α → β} (h : g (some unknown) = g none)
    (name : Option α) : g (known? name) = g name := by
  cases name with
  | none => rfl
  | some k =>
    by_cases hk : k = unknown
    · rw [hk, known?_unknown, h]
    · rw [known?_of_ne hk]

theorem known?_eq_self {name : Option α} (h : name ≠ some unknown) : known? name = name := by
  cases name with
  | none => rfl
  | some k => exact known?_of_ne fun e => h (congrArg some e)

theorem known?_beq {k : α} (hk : k ≠ unknown) (name : Option α) :
    (known? name == some k) = (name == some k) := by
  have hunknown : (some (unknown : α) == some k) = ((none : Option α) == some k) := by
    simp [hk.symm]
  exact apply_known? (g := (· == some k)) hunknown name

end Keyword

def Paint.recognized (p : Paint) : Paint := { p with scaleMode := Keyword.known? p.scaleMode }

/-- The attributes without any unknown name that may be left out. -/
def Attributes.recognized (a : Attributes) : Attributes :=
  { a with
    layoutMode := Keyword.known? a.layoutMode
    primaryAlign := Keyword.known? a.primaryAlign
    counterAlign := Keyword.known? a.counterAlign
    wrap := Keyword.known? a.wrap
    overflow := Keyword.known? a.overflow
    selfAlign := Keyword.known? a.selfAlign
    positioning := Keyword.known? a.positioning
    sizeHorizontal := Keyword.known? a.sizeHorizontal
    sizeVertical := Keyword.known? a.sizeVertical
    fills := a.fills.map (·.map Paint.recognized)
    strokes := a.strokes.map (·.map Paint.recognized) }

def Response.recognized (r : Response) : Response :=
  { r with
    document := r.document.map (·.mapAttributes Attributes.recognized)
    nodes := r.nodes.map (·.map fun m =>
      (m.1, m.2.map fun e => ⟨e.document.mapAttributes Attributes.recognized⟩)) }

/-! ## Where an unknown name tells something -/

/-- An image tells the name of its scale mode even if it is unknown. -/
def Paint.TellsUnknown (p : Paint) : Prop := p.kind = .image ∧ p.scaleMode = some .unknown
deriving Decidable

namespace Attributes

/-- What is no frame but for the unknown name of its layout mode, and scrolls. -/
def ScrollsUnknown (a : Attributes) : Prop :=
  a.clipsContent = none ∧ a.layoutMode = some .unknown ∧ Layout.scrollOf a.frame ≠ []
deriving Decidable

/-- Some unknown name makes a difference to what is told of a node. -/
def TellsUnknown (a : Attributes) : Prop :=
  a.ScrollsUnknown ∨ (∃ p ∈ a.fills.getD [], p.TellsUnknown) ∨
    ∃ p ∈ shownOf (·.visible) a.strokes, p.TellsUnknown
deriving Decidable

end Attributes

/-! ### Paints -/

theorem Fill.ofPaint_recognized_iff (p : Paint) :
    ofPaint p.recognized = ofPaint p ↔ ¬ p.TellsUnknown := by
  by_cases himage : p.kind = .image
  · have himage' : p.recognized.kind = .image := himage
    rw [ofPaint, ofPaint, himage, himage']
    show image p.imageRef (Keyword.known? p.scaleMode) = image p.imageRef p.scaleMode ↔ _
    by_cases hmode : p.scaleMode = some .unknown
    · have hnone : Keyword.known? p.scaleMode = none := by
        rw [hmode]
        exact Keyword.known?_unknown
      rw [hnone, hmode]
      simp [Paint.TellsUnknown, himage, hmode]
    · have hsame : Keyword.known? p.scaleMode = p.scaleMode := Keyword.known?_eq_self hmode
      simp [Paint.TellsUnknown, hmode, hsame]
  · have hsame : ofPaint p.recognized = ofPaint p := by
      obtain ⟨kind, visible, opacity, color, handles, stops, imageRef, scaleMode⟩ := p
      cases kind with
      | image => exact absurd rfl himage
      | _ => rfl
    exact iff_of_true hsame fun h => himage h.1

theorem Fill.map_ofPaint_recognized_iff (ps : List Paint) :
    (ps.map Paint.recognized).map ofPaint = ps.map ofPaint ↔ ∀ p ∈ ps, ¬ p.TellsUnknown := by
  rw [List.map_map, List.map_inj_left]
  exact forall₂_congr fun p _ => ofPaint_recognized_iff p

theorem shownOf_recognized (ps : Option (List Paint)) :
    shownOf (·.visible) (ps.map (·.map Paint.recognized)) =
      (shownOf (·.visible) ps).map Paint.recognized := by
  cases ps with
  | none => rfl
  | some ps => exact List.filter_map

/-! ### Layouts -/

namespace Attributes

theorem isAbsolute_recognized (a : Attributes) : a.recognized.isAbsolute = a.isAbsolute :=
  Keyword.known?_beq (by decide) a.positioning

theorem sameAsChild_recognized (a : Attributes) : a.recognized.SameAsChild a :=
  ⟨a.isAbsolute_recognized, Keyword.known?_beq (by decide) a.sizeHorizontal,
    Keyword.known?_beq (by decide) a.sizeVertical⟩

theorem sameAsParent_recognized (a : Attributes) : a.recognized.SameAsParent a := by
  refine ⟨?_, rfl⟩
  rw [Layout.flow_eq, Layout.flow_eq]
  exact Keyword.apply_known? rfl a.layoutMode

end Attributes

namespace Layout

theorem place_recognized (l : Layout) (a : Attributes) (parent : Option Attributes) :
    l.place a.recognized.placement parent = l.place a.placement parent := by
  have hsizing : sizingOf a.recognized.placement = sizingOf a.placement := by
    have hh : sizing? (Keyword.known? a.sizeHorizontal) = sizing? a.sizeHorizontal :=
      Keyword.apply_known? rfl a.sizeHorizontal
    have hv : sizing? (Keyword.known? a.sizeVertical) = sizing? a.sizeVertical :=
      Keyword.apply_known? rfl a.sizeVertical
    simp only [sizingOf, Attributes.placement, Attributes.recognized, hh, hv]
    rfl
  have hdimensions (mode : Flow) (box : Box) :
      dimensionsIn mode a.recognized.placement box = dimensionsIn mode a.placement box := by
    have hh := Keyword.known?_beq (k := SizeRule.fixed) (by decide) a.sizeHorizontal
    have hv := Keyword.known?_beq (k := SizeRule.fixed) (by decide) a.sizeVertical
    have hs := Keyword.known?_beq (k := SelfAlign.stretch) (by decide) a.selfAlign
    simp only [dimensionsIn, Attributes.placement, Attributes.recognized, hh, hv, hs]
    rfl
  have habsolute : a.recognized.placement.isAbsolute = a.placement.isAbsolute :=
    a.isAbsolute_recognized
  have hbox : a.recognized.placement.box = a.placement.box := rfl
  simp only [place, hsizing, hdimensions, habsolute, hbox]

theorem scrollOf_recognized (a : Attributes) :
    scrollOf a.recognized.frame = scrollOf a.frame := by
  have hoverflow (k : Overflow) (hk : k ≠ .unknown) :
      (Keyword.known? a.overflow == some k) = (a.overflow == some k) :=
    Keyword.known?_beq hk a.overflow
  simp only [scrollOf, Attributes.frame, Attributes.recognized, hoverflow .horizontal (by decide),
    hoverflow .vertical (by decide), hoverflow .both (by decide)]
  rfl

theorem alike_recognized (a : Attributes) : Alike a.recognized.frame a.frame where
  mode := Keyword.apply_known? rfl a.layoutMode
  primaryAlign := Keyword.apply_known? rfl a.primaryAlign
  counterAlign := Keyword.apply_known? rfl a.counterAlign
  selfAlign := Keyword.apply_known? rfl a.selfAlign
  wraps := Keyword.known?_beq (by decide) a.wrap
  itemSpacing := rfl
  padding := rfl
  scroll := scrollOf_recognized a

theorem isFrame_recognized_of {a : Attributes}
    (h : a.clipsContent.isSome = true ∨ a.layoutMode ≠ some .unknown) :
    a.recognized.isFrame = a.isFrame := by
  rcases h with hclips | hmode
  · show (a.clipsContent.isSome || _) = (a.clipsContent.isSome || _)
    rw [hclips]
    rfl
  · have hsame : Keyword.known? a.layoutMode = a.layoutMode := Keyword.known?_eq_self hmode
    show (_ || (Keyword.known? a.layoutMode).isSome) = _
    rw [hsame]
    rfl

/-- A layout mode of unknown name makes a frame of what would otherwise be none. -/
theorem isFrame_of_unknown {a : Attributes} (hclips : a.clipsContent = none)
    (hmode : a.layoutMode = some .unknown) : a.recognized.isFrame = false ∧ a.isFrame = true := by
  have hnone : Keyword.known? a.layoutMode = none := by
    rw [hmode]
    exact Keyword.known?_unknown
  constructor
  · show (a.clipsContent.isSome || (Keyword.known? a.layoutMode).isSome) = false
    rw [hclips, hnone]
    rfl
  · show (a.clipsContent.isSome || a.layoutMode.isSome) = true
    rw [hclips, hmode]
    rfl

/-- The frame that an unknown layout mode makes has no flow. So all that it tells is whether it
scrolls. -/
theorem own_recognized {a : Attributes} (children : List Node) (h : ¬ a.ScrollsUnknown) :
    own a.recognized children = own a children := by
  by_cases hframe : a.clipsContent.isSome = true ∨ a.layoutMode ≠ some .unknown
  · rw [own, own, isFrame_recognized_of hframe,
      ofFrame_eq_of_alike (alike_recognized a)]
  · obtain ⟨hclips, hmode⟩ : a.clipsContent = none ∧ a.layoutMode = some .unknown := by
      simpa using hframe
    have hscroll : scrollOf a.frame = [] := by
      by_contra hne
      exact h ⟨hclips, hmode, hne⟩
    have hflow : flowOfMode a.frame.mode = .none := by
      rw [Attributes.frame, hmode]
      rfl
    obtain ⟨hnone, hsome⟩ := isFrame_of_unknown hclips hmode
    rw [own_eq_blank hnone, own_eq_ofFrame hsome]
    simp only [ofFrame, hflow, hscroll]
    rfl

theorem scroll_own_of_scrollsUnknown {a : Attributes} (children : List Node)
    (h : a.ScrollsUnknown) :
    (own a.recognized children).scroll = [] ∧ (own a children).scroll ≠ [] := by
  obtain ⟨hnone, hsome⟩ := isFrame_of_unknown h.1 h.2.1
  rw [own_eq_blank hnone, own_eq_ofFrame hsome, scroll_ofFrame]
  exact ⟨rfl, h.2.2⟩

theorem isInformative_of_scroll {l : Layout} (h : l.scroll ≠ []) : l.isInformative = true := by
  simp [isInformative, h]

end Layout

/-! ### What is told of a node -/

namespace Facets

variable (a : Attributes) (children : Option (List Node)) (parent : Option Attributes)

theorem layout_recognized_iff :
    (ofNode ⟨a.recognized, children⟩ parent).layout = (ofNode ⟨a, children⟩ parent).layout ↔
      ¬ a.ScrollsUnknown := by
  simp only [ofNode]
  rw [Layout.ofNode_eq_place, Layout.ofNode_eq_place, Layout.place_recognized]
  refine ⟨fun heq h => ?_, fun h => by rw [Layout.own_recognized _ h]⟩
  obtain ⟨hempty, hscroll⟩ := Layout.scroll_own_of_scrollsUnknown (children.getD []) h
  rw [← Layout.scroll_place _ a.placement parent] at hempty hscroll
  generalize (Layout.own a.recognized (children.getD [])).place a.placement parent = l
    at heq hempty
  generalize (Layout.own a (children.getD [])).place a.placement parent = m at heq hscroll
  rw [if_pos (Layout.isInformative_of_scroll hscroll)] at heq
  split at heq
  · cases heq
    exact hscroll hempty
  · cases heq

theorem fills_recognized_iff :
    (ofNode ⟨a.recognized, children⟩ parent).fills = (ofNode ⟨a, children⟩ parent).fills ↔
      ∀ p ∈ a.fills.getD [], ¬ p.TellsUnknown := by
  have hfills : a.recognized.fills? = a.fills?.map (·.map Paint.recognized) := nonempty?_map _ _
  rw [← getD_nonempty?, ← Fill.map_ofPaint_recognized_iff]
  simp only [ofNode, hfills]
  rw [← Attributes.fills?]
  cases a.fills? with
  | none => exact iff_of_true rfl rfl
  | some ps =>
    constructor
    · intro h
      injection h with h
      injection h
    · intro h
      exact congrArg (fun fs => some (StyleValue.fills fs)) h

theorem strokes_recognized_iff :
    (ofNode ⟨a.recognized, children⟩ parent).strokes = (ofNode ⟨a, children⟩ parent).strokes ↔
      ∀ p ∈ shownOf (·.visible) a.strokes, ¬ p.TellsUnknown := by
  have hstrokes : shownOf (·.visible) a.recognized.strokes =
      (shownOf (·.visible) a.strokes).map Paint.recognized := shownOf_recognized a.strokes
  rw [← Fill.map_ofPaint_recognized_iff]
  simp only [ofNode, Stroke.ofAttributes_eq, hstrokes]
  generalize ((shownOf (·.visible) a.strokes).map Paint.recognized).map Fill.ofPaint = colors
  generalize (shownOf (·.visible) a.strokes).map Fill.ofPaint = colors'
  refine ⟨fun h => ?_, fun h => by rw [h]; rfl⟩
  cases colors <;> cases colors' <;> simp_all [Stroke.isEmpty]

/-- The same is told of a node without its unknown names, whatever stands around it, unless one of
them tells something. -/
theorem ofNode_recognized_iff :
    ofNode ⟨a.recognized, children⟩ parent = ofNode ⟨a, children⟩ parent ↔ ¬ a.TellsUnknown := by
  have hfills := fills_recognized_iff a children parent
  have hstrokes := strokes_recognized_iff a children parent
  have hlayout := layout_recognized_iff a children parent
  constructor
  · intro h
    rw [h] at hfills hstrokes hlayout
    rintro (hscroll | ⟨p, hp, hfill⟩ | ⟨p, hp, hstroke⟩)
    · exact hlayout.mp rfl hscroll
    · exact hfills.mp rfl p hp hfill
    · exact hstrokes.mp rfl p hp hstroke
  · intro h
    have hl := hlayout.mpr fun hscroll => h (.inl hscroll)
    have hf := hfills.mpr fun p hp hfill => h (.inr (.inl ⟨p, hp, hfill⟩))
    have hs := hstrokes.mpr fun p hp hstroke => h (.inr (.inr ⟨p, hp, hstroke⟩))
    -- Nothing else that is told of a node is read from a name of a stock.
    have hothers : ofNode ⟨a.recognized, children⟩ parent =
        { ofNode ⟨a, children⟩ parent with
          fills := (ofNode ⟨a.recognized, children⟩ parent).fills
          strokes := (ofNode ⟨a.recognized, children⟩ parent).strokes
          layout := (ofNode ⟨a.recognized, children⟩ parent).layout } := rfl
    rw [hothers, hf, hs, hl]

end Facets

/-! ## The walk and the response -/

namespace Node

/-- The same is told of a visited node without the unknown names of the whole tree. -/
theorem ofNode_mapAttributes_recognized {n : Node} (parent : Option Attributes)
    (h : ¬ n.attributes.TellsUnknown) :
    Facets.ofNode (n.mapAttributes Attributes.recognized) (parent.map Attributes.recognized) =
      Facets.ofNode n parent := by
  rw [ofNode_mapAttributes Attributes.sameAsChild_recognized Attributes.sameAsParent_recognized]
  exact (Facets.ofNode_recognized_iff n.attributes n.children parent).mpr h

theorem inPlaceAll_recognized (limit : DepthLimit) (roots : List Node)
    (h : ∀ v ∈ visitsAll limit none roots, ¬ v.1.attributes.TellsUnknown) :
    inPlaceAll limit none (mapAttributesAll Attributes.recognized roots) =
      inPlaceAll limit none roots :=
  inPlaceAll_mapAttributesAll (f := Attributes.recognized) (fun _ => rfl) limit none roots
    fun v hv => ofNode_mapAttributes_recognized v.2 (h v hv)

end Node

namespace Response

theorem roots_recognized (r : Response) :
    r.recognized.roots =
      r.roots.map (Node.mapAttributesAll Attributes.recognized) := by
  obtain ⟨name, lastModified, thumbnailUrl, document, nodes⟩ := r
  cases document with
  | some d =>
    obtain ⟨a, children⟩ := d
    show Except.ok ((Node.mapAttributes Attributes.recognized ⟨a, children⟩).children.getD []) = _
    rw [Node.mapAttributes_mk, Node.getD_map_mapAttributesAll]
    rfl
  | none =>
    cases nodes with
    | none => rfl
    | some nodes =>
      show Except.ok _ = Except.ok _
      rw [Node.mapAttributesAll_eq_map, List.filterMap_map, List.map_filterMap]
      refine congrArg Except.ok (List.filterMap_congr fun m _ => ?_)
      obtain ⟨id, _ | entry⟩ := m <;> rfl

/-- A response without its unknown names has the same brief or none for the same reason, unless
the walk comes to a node of which an unknown name tells something. -/
theorem brief_recognized (r : Response) (limit : DepthLimit)
    (h : ∀ roots, r.roots = .ok roots →
      ∀ v ∈ Node.visitsAll limit none roots, ¬ v.1.attributes.TellsUnknown) :
    r.recognized.brief limit = r.brief limit := by
  rw [brief_eq_map, brief_eq_map, roots_recognized]
  cases hroots : r.roots with
  | error f => rfl
  | ok roots =>
    have htree : briefTree limit (Node.mapAttributesAll Attributes.recognized roots) =
        briefTree limit roots :=
      briefTreeBy_congr TextHash.mixing limit
        (Node.inPlaceAll_recognized limit roots (h roots hroots))
    simp only [Except.map, htree]
    rfl

/-- A frame of unknown layout mode that does not scroll, unknown names of a child, and an image of
unknown scale mode that is not shown. -/
theorem brief_recognized_column :
    let frame : Node :=
      ⟨{ id := "1", layoutMode := some .unknown, wrap := some .unknown },
        some [⟨{ id := "2", sizeHorizontal := some .unknown, selfAlign := some .unknown }, none⟩,
          ⟨{ visible := some false
             fills := some [{ kind := .image, scaleMode := some .unknown }] }, none⟩]⟩
    let r : Response := { document := some ⟨{}, some [frame]⟩ }
    (∀ roots, r.roots = .ok roots →
        ∀ v ∈ Node.visitsAll (some 3) none roots, ¬ v.1.attributes.TellsUnknown) ∧
      r.recognized.brief (some 3) = r.brief (some 3) := by
  intro frame r
  have htold : ∀ roots, r.roots = .ok roots →
      ∀ v ∈ Node.visitsAll (some 3) none roots, ¬ v.1.attributes.TellsUnknown := by
    intro roots hroots
    cases hroots
    decide
  exact ⟨htold, brief_recognized r (some 3) htold⟩

/-- In general unknown names are not as good as none: what has an unknown layout mode is a frame,
so that it has a layout if it scrolls. -/
theorem brief_recognized_ne :
    let a : Attributes := { id := "1", layoutMode := some .unknown, overflow := some .horizontal }
    let r : Response := { document := some ⟨{}, some [⟨a, none⟩]⟩ }
    r.recognized.brief none ≠ r.brief none := by
  intro a r h
  rw [brief_eq_map, brief_eq_map] at h
  have hnodes : (briefTree none [⟨a.recognized, none⟩]).1 = (briefTree none [⟨a, none⟩]).1 := by
    injection h with h
    exact congrArg Brief.nodes h
  have hshapes := congrArg BriefNode.shapeAll hnodes
  rw [briefTree, briefTree, shapeAll_briefTreeBy, shapeAll_briefTreeBy] at hshapes
  have hlayouts := congrArg (List.map (·.facets.layout.isSome)) hshapes
  revert hlayouts
  decide

end Response
end DesignBrief
