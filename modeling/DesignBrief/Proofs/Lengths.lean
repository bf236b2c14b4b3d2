import DesignBrief.Brief.Node
import DesignBrief.Proofs.Notation
import DesignBrief.Proofs.Told

/-!
Lengths in style sheet texts, read back. A stroke weight, a border radius or a padding is one length
for all sides or one for each of four. No length holds a blank, so the text falls apart at the
blanks into the lengths that it was made of, `Lengths.read?_css`, and their number says which of the
two it was. So such a text tells where its lengths come from and how each of them is printed,
`Lengths.unambiguous`.
-/

namespace DesignBrief

inductive Lengths where
  /-- One length for all sides. -/
  | uniform (length : String)
  /-- A length for each side, or for each corner. -/
  | each (top right bottom left : String)
deriving DecidableEq

namespace Lengths

def css : Lengths → String
  | uniform length => length
  | each top right bottom left => top ++ " " ++ right ++ " " ++ bottom ++ " " ++ left

/-- The lengths that a value is made of, if there are as many as there have to be. -/
def read? (t : String) : Option Lengths :=
  match (t.toList.splitOn ' ').map String.ofList with
  | [length] => some (uniform length)
  | [top, right, bottom, left] => some (each top right bottom left)
  | _ => none

/-- No length runs into the next one. -/
def Solid : Lengths → Prop
  | uniform length => Css.Solid length
  | each top right bottom left =>
    Css.Solid top ∧ Css.Solid right ∧ Css.Solid bottom ∧ Css.Solid left

/-- Lengths are read back from their value. -/
theorem read?_css {l : Lengths} (h : l.Solid) : read? l.css = some l := by
  have hblank : ' ' ∈ Css.separators := by decide
  cases l with
  | uniform length =>
    have hsplit : length.toList.splitOn ' ' = [length.toList] :=
      List.splitOn_eq_singleton (Css.Solid.not_mem h hblank)
    simp [read?, css, hsplit]
  | each top right bottom left =>
    obtain ⟨htop, hright, hbottom, hleft⟩ := h
    have hline : (css (each top right bottom left)).toList =
        top.toList ++ ' ' :: (right.toList ++ ' ' :: (bottom.toList ++ ' ' :: left.toList)) := by
      simp [css]
    have hsplit : (css (each top right bottom left)).toList.splitOn ' ' =
        [top.toList, right.toList, bottom.toList, left.toList] := by
      rw [hline, splitOn_append_cons (htop.not_mem hblank),
        splitOn_append_cons (hright.not_mem hblank),
        splitOn_append_cons (hbottom.not_mem hblank),
        List.splitOn_eq_singleton (hleft.not_mem hblank)]
    simp [read?, hsplit]

theorem css_inj {l m : Lengths} (hl : l.Solid) (hm : m.Solid) : l.css = m.css ↔ l = m := by
  refine ⟨fun h => ?_, congrArg css⟩
  have hread : some l = some m := by rw [← read?_css hl, h, read?_css hm]
  exact Option.some.inj hread

theorem bind_read?_map_css {l : Option Lengths} (h : ∀ x ∈ l, x.Solid) :
    (l.map css).bind read? = l := by
  cases l with
  | none => rfl
  | some x => exact read?_css (h x rfl)

theorem map_css_inj {l m : Option Lengths} (hl : ∀ x ∈ l, x.Solid) (hm : ∀ x ∈ m, x.Solid) :
    l.map css = m.map css ↔ l = m := by
  refine ⟨fun h => ?_, congrArg _⟩
  rw [← bind_read?_map_css hl, h, bind_read?_map_css hm]

/-! ## Numbers and edges -/

def ofFloat (x : Float) : Lengths := uniform (Css.px x)

def ofEdges (e : Edges) : Lengths :=
  each (Css.px e.top) (Css.px e.right) (Css.px e.bottom) (Css.px e.left)

theorem solid_ofFloat (x : Float) : (ofFloat x).Solid := Css.solid_px x

theorem solid_ofEdges (e : Edges) : (ofEdges e).Solid :=
  ⟨Css.solid_px _, Css.solid_px _, Css.solid_px _, Css.solid_px _⟩

theorem ofEdges_eq_iff {e f : Edges} :
    ofEdges e = ofEdges f ↔ Css.px e.top = Css.px f.top ∧ Css.px e.right = Css.px f.right ∧
      Css.px e.bottom = Css.px f.bottom ∧ Css.px e.left = Css.px f.left := by
  simp only [ofEdges, each.injEq]

end Lengths

theorem Css.edges_eq_iff {e f : Edges} :
    edges e = edges f ↔ px e.top = px f.top ∧ px e.right = px f.right ∧
      px e.bottom = px f.bottom ∧ px e.left = px f.left :=
  (Lengths.css_inj (Lengths.solid_ofEdges e) (Lengths.solid_ofEdges f)).trans Lengths.ofEdges_eq_iff

theorem Css.edges_ne_px (e : Edges) (x : Float) : edges e ≠ px x := by
  intro h
  cases (Lengths.css_inj (Lengths.solid_ofEdges e) (Lengths.solid_ofFloat x)).mp h

/-! ## Where lengths come from -/

/-- The stroke weight before it is one text: that of each edge, or else one for all of them. -/
def Stroke.lengths (a : Attributes) : Option Lengths :=
  match a.edgeWeights with
  | some e => some (.ofEdges e)
  | none => a.strokeWeight?.map .ofFloat

/-- The border radius before it is one text: one for all corners, or else that of each. -/
def Facets.radiusLengths (a : Attributes) : Option Lengths :=
  match a.cornerRadius? with
  | some r => some (.ofFloat r)
  | none => a.cornerRadii?.map .ofEdges

/-- The padding before it is one text; only what has a flow has one. -/
def Layout.paddingLengths (a : Attributes) : Option Lengths :=
  if flow a = .none then none else a.padding?.map .ofEdges

theorem Stroke.weight_ofAttributes (a : Attributes) :
    (ofAttributes a).weight = (lengths a).map Lengths.css := by
  show weightOf a = _
  rw [weightOf, lengths]
  cases a.edgeWeights with
  | some e => rfl
  | none => rw [Option.map_map]; rfl

theorem Facets.borderRadius_ofNode (n : Node) (parent : Option Attributes) :
    (ofNode n parent).borderRadius = (radiusLengths n.attributes).map Lengths.css := by
  show borderRadiusOf n.attributes = _
  rw [borderRadiusOf, radiusLengths]
  cases n.attributes.cornerRadius? with
  | some r => rfl
  | none => rw [Option.map_map]; rfl

theorem Layout.padding_ofNode (n : Node) (parent : Option Attributes) :
    (ofNode n parent).padding = (paddingLengths n.attributes).map Lengths.css := by
  rw [ofNode_eq_place, padding_place, paddingLengths, flow]
  cases hframe : n.attributes.isFrame with
  | false =>
    rw [own_eq_blank hframe, Attributes.frame?, hframe]
    rfl
  | true =>
    rw [own_eq_ofFrame hframe, Attributes.frame?, hframe]
    simp only [ofFrame, if_true]
    split
    · rfl
    · rw [Option.map_map]
      rfl

theorem Stroke.solid_of_mem_lengths {a : Attributes} : ∀ l ∈ lengths a, l.Solid := by
  rw [lengths]
  cases a.edgeWeights with
  | some e =>
    rintro l ⟨⟩
    exact Lengths.solid_ofEdges e
  | none => exact Option.forall_mem_map.mpr fun w _ => Lengths.solid_ofFloat w

theorem Facets.solid_of_mem_radiusLengths {a : Attributes} : ∀ l ∈ radiusLengths a, l.Solid := by
  rw [radiusLengths]
  cases a.cornerRadius? with
  | some r =>
    rintro l ⟨⟩
    exact Lengths.solid_ofFloat r
  | none => exact Option.forall_mem_map.mpr fun e _ => Lengths.solid_ofEdges e

theorem Layout.solid_of_mem_paddingLengths {a : Attributes} :
    ∀ l ∈ paddingLengths a, l.Solid := by
  rw [paddingLengths]
  split
  · exact nofun
  · exact Option.forall_mem_map.mpr fun e _ => Lengths.solid_ofEdges e

/-- Borders with the same colours and dashes are the same just if their weights are printed alike,
either for each edge or for all. -/
theorem Stroke.ofAttributes_eq_iff_lengths {a b : Attributes} :
    ofAttributes a = ofAttributes b ↔ (ofAttributes a).colors = (ofAttributes b).colors ∧
      (ofAttributes a).dashes = (ofAttributes b).dashes ∧ lengths a = lengths b := by
  rw [← Lengths.map_css_inj solid_of_mem_lengths solid_of_mem_lengths, ← weight_ofAttributes,
    ← weight_ofAttributes]
  constructor
  · intro h
    rw [h]
    exact ⟨rfl, rfl, rfl⟩
  · rintro ⟨hcolors, hdashes, hweight⟩
    generalize ofAttributes a = s at *
    generalize ofAttributes b = t at *
    cases s
    cases t
    simp_all

/-- Whatever the numbers, a text of four lengths tells each of them as it is printed, and is never
taken for that of one length. So strokes, border radii and paddings tell where their lengths come
from and how each is printed. -/
theorem Lengths.unambiguous :
    (∀ e f : Edges, Css.edges e = Css.edges f ↔
      Css.px e.top = Css.px f.top ∧ Css.px e.right = Css.px f.right ∧
        Css.px e.bottom = Css.px f.bottom ∧ Css.px e.left = Css.px f.left) ∧
    (∀ (e : Edges) (x : Float), Css.edges e ≠ Css.px x) ∧
    (∀ a b : Attributes, Stroke.ofAttributes a = Stroke.ofAttributes b ↔
      (Stroke.ofAttributes a).colors = (Stroke.ofAttributes b).colors ∧
        (Stroke.ofAttributes a).dashes = (Stroke.ofAttributes b).dashes ∧
        Stroke.lengths a = Stroke.lengths b) ∧
    (∀ (n m : Node) (p q : Option Attributes),
      (Facets.ofNode n p).borderRadius = (Facets.ofNode m q).borderRadius ↔
        Facets.radiusLengths n.attributes = Facets.radiusLengths m.attributes) ∧
    (∀ (n m : Node) (p q : Option Attributes),
      (Layout.ofNode n p).padding = (Layout.ofNode m q).padding ↔
        Layout.paddingLengths n.attributes = Layout.paddingLengths m.attributes) := by
  refine ⟨fun e f => Css.edges_eq_iff, Css.edges_ne_px, fun a b => Stroke.ofAttributes_eq_iff_lengths,
    fun n m p q => ?_, fun n m p q => ?_⟩
  · rw [Facets.borderRadius_ofNode, Facets.borderRadius_ofNode,
      map_css_inj Facets.solid_of_mem_radiusLengths Facets.solid_of_mem_radiusLengths]
  · rw [Layout.padding_ofNode, Layout.padding_ofNode,
      map_css_inj Layout.solid_of_mem_paddingLengths Layout.solid_of_mem_paddingLengths]

-- Neither minus zero nor an infinity makes one length look like another.
example : Lengths.read? (Css.edges ⟨-0, 1 / 0, 0, 1e21⟩) =
    some (.each "-0px" "infpx" "0px" "1000000000000000000000px") := by decide +kernel

end DesignBrief
