import DesignBrief.Proofs.AsWritten
import DesignBrief.Proofs.Finite
import DesignBrief.Proofs.WellFormed

/-!
Members with nothing in them. Of all that a brief tells, no member but the id, the name and the kind
of a node is an empty array, an empty object or an empty text, unless the walk comes to a node that
tells such a one: `Response.filled_brief_iff`. There are such nodes, `Brief.exists_not_filled`.
-/

namespace DesignBrief

/-! ## Members of a JSON value -/

mutual

/-- The members within a JSON value, at any depth. -/
def Json.within : Json → List (String × Json)
  | .array items => Json.withinItems items
  | .object members => Json.withinMembers members
  | .null => []
  | .bool _ => []
  | .number _ => []
  | .string _ => []
termination_by structural j => j

def Json.withinItems : List Json → List (String × Json)
  | [] => []
  | j :: rest => j.within ++ Json.withinItems rest
termination_by structural items => items

def Json.withinMembers : List (String × Json) → List (String × Json)
  | [] => []
  | (k, j) :: rest => (k, j) :: (j.within ++ Json.withinMembers rest)
termination_by structural members => members

end

namespace Json

/-- Whether a value is an empty array, an empty object or an empty text. -/
def isHollow : Json → Bool
  | array items => items.isEmpty
  | object members => members.isEmpty
  | string s => s.isEmpty
  | null => false
  | bool _ => false
  | number _ => false

@[simp] theorem isHollow_string (s : String) : (string s).isHollow = s.isEmpty := rfl

@[simp] theorem isHollow_real (x : Float) : (real x).isHollow = false := rfl

@[simp] theorem isHollow_bool (b : Bool) : (bool b).isHollow = false := rfl

@[simp] theorem isHollow_object (members : List (String × Json)) :
    (object members).isHollow = members.isEmpty := rfl

@[simp] theorem isHollow_ofList {α : Type} (f : α → Json) (items : List α) :
    (ofList f items).isHollow = items.isEmpty :=
  List.isEmpty_map

@[simp] theorem isHollow_present (members : List (String × Option Json)) :
    (present members).isHollow = members.all (·.2.isNone) := by
  rw [present, isHollow]
  induction members with
  | nil => rfl
  | cons m rest ih =>
    obtain ⟨k, _ | j⟩ := m
    · exact ih
    · rfl

/-- A value in which no member is empty, whatever stands under the exempt keys. -/
def FilledBut (exempt : List String) (j : Json) : Prop :=
  ∀ m ∈ j.within, m.1 ∈ exempt ∨ m.2.isHollow = false

variable {exempt : List String}

@[simp] theorem filledBut_string (s : String) : (string s).FilledBut exempt := nofun

@[simp] theorem filledBut_bool (b : Bool) : (bool b).FilledBut exempt := nofun

@[simp] theorem filledBut_keyword {α : Type} [Keyword α] (k : α) :
    (keyword k).FilledBut exempt := nofun

@[simp] theorem filledBut_real (x : Float) : (real x).FilledBut exempt := nofun

@[simp] theorem filledBut_array_iff (items : List Json) :
    (array items).FilledBut exempt ↔ ∀ j ∈ items, j.FilledBut exempt := by
  unfold FilledBut
  rw [within]
  induction items with
  | nil => simp [withinItems]
  | cons j rest ih => rw [withinItems, List.forall_mem_append, List.forall_mem_cons, ih]

theorem filledBut_object_iff (members : List (String × Json)) :
    (object members).FilledBut exempt ↔
      ∀ m ∈ members, (m.1 ∈ exempt ∨ m.2.isHollow = false) ∧ m.2.FilledBut exempt := by
  unfold FilledBut
  rw [within]
  induction members with
  | nil => simp [withinMembers]
  | cons m rest ih =>
    rw [withinMembers, List.forall_mem_cons, List.forall_mem_append, List.forall_mem_cons, ih,
      and_assoc]

@[simp] theorem filledBut_ofList_iff {α : Type} (f : α → Json) (items : List α) :
    (ofList f items).FilledBut exempt ↔ ∀ a ∈ items, (f a).FilledBut exempt := by
  simp [ofList]

theorem filledBut_present_iff (members : List (String × Option Json)) :
    (present members).FilledBut exempt ↔ ∀ m ∈ members, ∀ j ∈ m.2,
      (m.1 ∈ exempt ∨ j.isHollow = false) ∧ j.FilledBut exempt := by
  simp only [present, filledBut_object_iff, List.mem_filterMap, Option.map_eq_some_iff]
  constructor
  · intro h m hm j hj
    exact h (m.1, j) ⟨m, hm, j, hj, rfl⟩
  · rintro h _ ⟨m, hm, j, hj, rfl⟩
    exact h m hm j hj

/-! ### Members as they are written -/

theorem isHollow_asWritten (j : Json) : j.asWritten.isHollow = j.isHollow := by
  cases j with
  | null => rfl
  | bool b => rfl
  | number n =>
    cases n with
    | integer i => rfl
    | real x =>
      rw [asWritten]
      split <;> rfl
  | string s => rfl
  | array items => cases items <;> rfl
  | object members => cases members <;> rfl

mutual

theorem within_asWritten (j : Json) :
    j.asWritten.within = j.within.map fun m => (m.1, m.2.asWritten) := by
  cases j with
  | null => rfl
  | bool b => rfl
  | number n =>
    cases n with
    | integer i => rfl
    | real x =>
      rw [asWritten]
      split <;> rfl
  | string s => rfl
  | array items => exact withinItems_asWritten items
  | object members => exact withinMembers_asWritten members
termination_by structural j

theorem withinItems_asWritten (items : List Json) :
    withinItems (itemsAsWritten items) =
      (withinItems items).map fun m => (m.1, m.2.asWritten) := by
  cases items with
  | nil => rfl
  | cons j rest =>
    rw [itemsAsWritten, withinItems, withinItems, j.within_asWritten,
      withinItems_asWritten rest, List.map_append]
termination_by structural items

theorem withinMembers_asWritten (members : List (String × Json)) :
    withinMembers (membersAsWritten members) =
      (withinMembers members).map fun m => (m.1, m.2.asWritten) := by
  cases members with
  | nil => rfl
  | cons m rest =>
    obtain ⟨k, j⟩ := m
    rw [membersAsWritten, withinMembers, withinMembers, j.within_asWritten,
      withinMembers_asWritten rest, List.map_cons, List.map_append]
termination_by structural members

end

/-- Whether members are empty can be seen from the text of a value. -/
theorem filledBut_of_compact_eq {exempt : List String} {j k : Json} (h : j.compact = k.compact)
    (hj : j.FilledBut exempt) : k.FilledBut exempt := by
  have hwritten : (j.within.map fun m => (m.1, m.2.asWritten)) =
      k.within.map fun m => (m.1, m.2.asWritten) := by
    rw [← within_asWritten, ← within_asWritten, asWritten_eq_of_compact_eq h]
  intro m hm
  have hmem : (m.1, m.2.asWritten) ∈ j.within.map fun m => (m.1, m.2.asWritten) :=
    hwritten ▸ List.mem_map_of_mem hm
  obtain ⟨n, hn, hnm⟩ := List.mem_map.mp hmem
  obtain ⟨hkey, hvalue⟩ := Prod.mk.inj hnm
  rw [← hkey, ← isHollow_asWritten, ← hvalue, isHollow_asWritten]
  exact hj n hn

end Json

/-! ## Texts that are never empty -/

namespace Css

@[simp] theorem px_ne_empty (x : Float) : px x ≠ "" := by
  simp [px]

@[simp] theorem em_ne_empty (x : Float) : em x ≠ "" := by
  simp [em]

@[simp] theorem percent_ne_empty (x : Float) : percent x ≠ "" := by
  simp [percent]

@[simp] theorem edges_ne_empty (e : Edges) : edges e ≠ "" := by
  simp [edges]

@[simp] theorem hex_ne_empty (c : Color) : hex c ≠ "" := by
  simp [hex]

end Css

@[simp] theorem StyleId.text_ne_empty (id : StyleId) : id.text ≠ "" := by
  simp [text]

@[simp] theorem PaintKind.isHollow_keyword (k : PaintKind) :
    (Json.keyword k).isHollow = false := by
  cases k with
  | gradient shape => cases shape <;> rfl
  | _ => rfl

@[simp] theorem ScaleMode.isHollow_keyword (k : ScaleMode) :
    (Json.keyword k).isHollow = false := by
  cases k <;> rfl

/-! ## What nodes tell -/

/-- A field of a text style is there, but empty. -/
def TypeStyle.TellsEmpty (s : TypeStyle) : Prop :=
  some "" ∈ [s.fontFamily, s.textCase, s.alignHorizontal, s.alignVertical]
deriving Decidable

/-- A gradient has no handles or no stops, or the reference of an image is empty. -/
def Paint.TellsEmpty (p : Paint) : Prop :=
  (p.kind.isGradient = true ∧ (p.handles.getD [] = [] ∨ p.stops.getD [] = [])) ∨
    (p.kind = .image ∧ p.imageRef = some "")
deriving Decidable

/-- Something empty is told of a node: of its text style, of a fill, shown or not, or of a stroke
that is shown. -/
def Attributes.TellsEmpty (a : Attributes) : Prop :=
  (∃ s ∈ a.typeStyle, s.TellsEmpty) ∨ (∃ p ∈ a.fills.getD [], p.TellsEmpty) ∨
    ∃ p ∈ shownOf (·.visible) a.strokes, p.TellsEmpty
deriving Decidable

def StyleValue.Filled (v : StyleValue) : Prop := v.toJson.FilledBut []

theorem StyleValue.filled_of_key_eq (v w : StyleValue) (h : v.key = w.key) (hv : v.Filled) :
    w.Filled :=
  Json.filledBut_of_compact_eq (key_eq_iff.mp h).2 hv

/-! ### Text styles -/

theorem TextStyle.filled_iff (s : TypeStyle) :
    (StyleValue.text (ofTypeStyle s)).Filled ↔ ¬ s.TellsEmpty := by
  have hfield (t : Option String) : (∀ a, t = some a → a ≠ "") ↔ some "" ≠ t :=
    ⟨fun h ht => h "" ht.symm rfl, fun h a ha hempty => h (hempty ▸ ha.symm)⟩
  rw [StyleValue.Filled, StyleValue.toJson, toJson, Json.filledBut_present_iff]
  simp [TypeStyle.TellsEmpty, ofTypeStyle, hfield]

theorem Facets.textStyle_filled_iff (n : Node) (parent : Option Attributes) :
    (∀ v ∈ (ofNode n parent).textStyle, v.Filled) ↔
      ∀ s ∈ n.attributes.typeStyle, ¬ s.TellsEmpty := by
  rw [textStyle_ofNode, Option.forall_mem_map]
  cases n.attributes.typeStyle with
  | none => simp [TextStyle.told]
  | some s =>
    have hfilled := TextStyle.filled_iff s
    rw [TextStyle.told_some]
    split
    · rename_i hempty
      have hblank : (StyleValue.text {}).Filled := by
        simp [StyleValue.Filled, StyleValue.toJson, TextStyle.toJson, Json.filledBut_present_iff]
      rw [TextStyle.eq_of_isEmpty hempty] at hfilled
      simpa using hfilled.mp hblank
    · simpa using hfilled

/-! ### Fills and strokes -/

@[simp] theorem Point.filledBut_toJson (p : Point) : p.toJson.FilledBut [] := by
  simp [toJson, Json.filledBut_object_iff]

@[simp] theorem TintStop.filledBut_toJson (s : ColorStop) (opacity : Float) :
    (TintStop.mk s.position (.ofColor s.color opacity)).toJson.FilledBut [] := by
  simp [toJson, Tint.toJson, Tint.members, Tint.ofColor, Json.filledBut_object_iff]

theorem Fill.filledBut_toJson_iff (p : Paint) :
    (ofPaint p).toJson.FilledBut [] ↔ ¬ p.TellsEmpty := by
  unfold ofPaint
  cases hk : p.kind with
  | solid =>
    cases p.color <;>
      simp [toJson, kind, Tint.members, Tint.ofColor, Json.filledBut_object_iff, Paint.TellsEmpty,
        hk, PaintKind.isGradient]
  | gradient shape =>
    simp [toJson, Json.filledBut_object_iff, Paint.TellsEmpty, hk, PaintKind.isGradient]
  | image =>
    have himage : (∀ a, p.imageRef = some a → a ≠ "") ↔ p.imageRef ≠ some "" :=
      ⟨fun h ht => h "" ht rfl, fun h a ha hempty => h (hempty ▸ ha)⟩
    simp [toJson, Json.filledBut_present_iff, Paint.TellsEmpty, hk, PaintKind.isGradient, himage]
  | _ => simp [toJson, Json.filledBut_object_iff, Paint.TellsEmpty, hk, PaintKind.isGradient]

theorem Facets.fills_filled_iff (n : Node) (parent : Option Attributes) :
    (∀ v ∈ (ofNode n parent).fills, v.Filled) ↔
      ∀ p ∈ n.attributes.fills.getD [], ¬ p.TellsEmpty := by
  rw [← getD_nonempty?]
  simp only [ofNode, Option.forall_mem_map]
  rw [← Attributes.fills?]
  cases n.attributes.fills? with
  | none => simp
  | some ps => simp [StyleValue.Filled, StyleValue.toJson, Fill.filledBut_toJson_iff]

theorem Stroke.weightOf_ne_empty (a : Attributes) : ∀ w ∈ weightOf a, w ≠ "" := by
  rw [weightOf]
  cases a.edgeWeights with
  | some e => simp
  | none =>
    simp only [Option.forall_mem_map, Css.px_ne_empty, ne_eq, not_false_eq_true, implies_true]

theorem Stroke.filled_iff {a : Attributes} (h : (ofAttributes a).isEmpty = false) :
    (StyleValue.stroke (ofAttributes a)).Filled ↔
      ∀ p ∈ shownOf (·.visible) a.strokes, ¬ p.TellsEmpty := by
  have hwell := wellFormed_ofAttributes h
  have hcolors : (∀ f ∈ (ofAttributes a).colors, f.toJson.FilledBut []) ↔
      ∀ p ∈ shownOf (·.visible) a.strokes, ¬ p.TellsEmpty := by
    simp only [ofAttributes_eq, List.forall_mem_map, Fill.filledBut_toJson_iff]
  have hweight : ∀ w, (ofAttributes a).weight = some w → w ≠ "" := weightOf_ne_empty a
  have hdashes : ∀ xs, (ofAttributes a).dashes = some xs → xs ≠ [] := hwell.dashes
  rw [StyleValue.Filled, StyleValue.toJson, toJson, Json.filledBut_present_iff, ← hcolors]
  simpa [Option.forall_mem_map, hwell.colors] using fun _ => ⟨hweight, hdashes⟩

theorem Facets.strokes_filled_iff (n : Node) (parent : Option Attributes) :
    (∀ v ∈ (ofNode n parent).strokes, v.Filled) ↔
      ∀ p ∈ shownOf (·.visible) n.attributes.strokes, ¬ p.TellsEmpty := by
  simp only [ofNode]
  split
  · rename_i hempty
    have hnone : shownOf (·.visible) n.attributes.strokes = [] := by
      simpa [Stroke.ofAttributes_eq, Stroke.isEmpty] using hempty
    simp [hnone]
  · rename_i hpainted
    simpa using Stroke.filled_iff (by simpa using hpainted)

/-! ### Effects and layouts -/

namespace Effects

theorem join?_ne_empty {separator : String} {parts : List String} (h : ∀ p ∈ parts, p ≠ "") :
    ∀ t ∈ join? separator parts, t ≠ "" := by
  cases parts with
  | nil => simp [join?]
  | cons p rest =>
    have hp : p ≠ "" := h p List.mem_cons_self
    cases rest with
    | nil => simpa [join?] using hp
    | cons q rest => simp [join?, String.intercalate_cons_cons, hp]

theorem shadow_ne_empty (e : Effect) : shadow e ≠ "" := by
  simp [shadow]

theorem blur_ne_empty (e : Effect) : blur e ≠ "" := by
  simp [blur]

theorem filled (a : Attributes) : (StyleValue.effects (ofAttributes a)).Filled := by
  have hshadow (es : List Effect) : ∀ t ∈ join? ", " (es.map shadow), t ≠ "" :=
    join?_ne_empty (List.forall_mem_map.mpr fun e _ => shadow_ne_empty e)
  have hblur (es : List Effect) : ∀ t ∈ join? " " (es.map blur), t ≠ "" :=
    join?_ne_empty (List.forall_mem_map.mpr fun e _ => blur_ne_empty e)
  have htexts : ∀ t ∈ (StyleValue.effects (ofAttributes a)).cssTexts, t ≠ "" := by
    simp only [StyleValue.cssTexts, List.forall_mem_append, forall_mem_toList, ofAttributes]
    -- The shadows are told in one of two places.
    split
    · exact ⟨⟨⟨by simp, hshadow _⟩, hblur _⟩, hblur _⟩
    · exact ⟨⟨⟨hshadow _, by simp⟩, hblur _⟩, hblur _⟩
  simp only [StyleValue.cssTexts, List.forall_mem_append, forall_mem_toList] at htexts
  rw [StyleValue.Filled, StyleValue.toJson, toJson, Json.filledBut_present_iff]
  simpa [Option.forall_mem_map, and_assoc] using htexts

end Effects

namespace Layout

theorem texts_ne_empty_own (a : Attributes) (children : List Node) :
    (∀ t ∈ (own a children).gap, t ≠ "") ∧ ∀ t ∈ (own a children).padding, t ≠ "" := by
  cases hframe : a.isFrame with
  | false =>
    rw [own_eq_blank hframe]
    exact ⟨by simp, by simp⟩
  | true =>
    rw [own_eq_ofFrame hframe]
    simp only [ofFrame]
    split
    · exact ⟨by simp, by simp⟩
    · simp only [Option.forall_mem_map, Css.px_ne_empty, Css.edges_ne_empty, ne_eq,
        not_false_eq_true, implies_true, and_self]

theorem filled {l : Layout} (h : l.Coherent) (hgap : ∀ t ∈ l.gap, t ≠ "")
    (hpadding : ∀ t ∈ l.padding, t ≠ "") : (StyleValue.layout l).Filled := by
  have hmode : l.mode.toJson.isHollow = false ∧ l.mode.toJson.FilledBut [] := by
    cases l.mode <;> exact ⟨rfl, nofun⟩
  have halign (a : Alignment) : a.toJson.isHollow = false ∧ a.toJson.FilledBut [] := by
    cases a <;> exact ⟨rfl, nofun⟩
  have hscroll (s : ScrollAxis) : s.toJson.FilledBut [] := by cases s <;> exact nofun
  have hsize (s : Sizing) : s.toJson.isHollow = false ∧ s.toJson.FilledBut [] := by
    cases s <;> exact ⟨rfl, nofun⟩
  have hdimensions (d : Dimensions) (hd : l.dimensions = some d) :
      d.toJson.isHollow = false ∧ d.toJson.FilledBut [] := by
    have hsome := h.dimensions d hd
    rw [Dimensions.toJson, Json.filledBut_present_iff]
    simp only [List.forall_mem_cons, Option.forall_mem_map]
    simpa [Option.isSome_iff_ne_none, or_iff_not_imp_left] using hsome
  have hsizing (s : SizingPair) (hs : l.sizing = some s) :
      s.toJson.isHollow = false ∧ s.toJson.FilledBut [] := by
    have hsome := h.sizing s hs
    rw [SizingPair.toJson, Json.filledBut_present_iff]
    simp only [List.forall_mem_cons, Option.forall_mem_map]
    simpa [Option.isSome_iff_ne_none, or_iff_not_imp_left, hsize] using hsome
  have hpoint (p : Point) : p.toJson.isHollow = false := rfl
  rw [StyleValue.Filled, StyleValue.toJson, toJson, Json.filledBut_present_iff]
  simp only [List.forall_mem_cons, Option.forall_mem_map]
  simpa [hmode, halign, hscroll, hpoint] using ⟨hgap, hdimensions, hpadding, hsizing⟩

theorem filled_ofNode (n : Node) (parent : Option Attributes) :
    (StyleValue.layout (ofNode n parent)).Filled := by
  obtain ⟨hgap, hpadding⟩ := texts_ne_empty_own n.attributes (n.children.getD [])
  refine filled (coherent_ofNode n parent) ?_ ?_
  · rwa [ofNode_eq_place, gap_place]
  · rwa [ofNode_eq_place, padding_place]

end Layout

/-! ## What is told of a node -/

namespace Facets

/-- Of the styles of a node no member is empty, unless the node tells an empty one. -/
theorem filled_ofNode_iff (n : Node) (parent : Option Attributes) :
    (∀ v ∈ (ofNode n parent).refs, v.Filled) ↔ ¬ n.attributes.TellsEmpty := by
  have heffects : ∀ v ∈ (ofNode n parent).effects, v.Filled := by
    simp only [ofNode]
    split
    · simp
    · simpa using Effects.filled n.attributes
  have hlayout : ∀ v ∈ (ofNode n parent).layout, v.Filled := by
    simp only [ofNode]
    split
    · simpa using Layout.filled_ofNode n parent
    · simp
  rw [forall_mem_refs, textStyle_filled_iff, fills_filled_iff, strokes_filled_iff,
    Attributes.TellsEmpty]
  simp only [not_or, not_exists, not_and]
  constructor
  · rintro ⟨ht, hf, hs, -⟩
    exact ⟨ht, hf, hs⟩
  · rintro ⟨ht, hf, hs⟩
    exact ⟨ht, hf, hs, heffects, hlayout⟩

/-- Facets that hold no empty text, but for the id, the name and the kind. -/
structure Filled {ρ : Type} (t : Facets ρ) : Prop where
  text : ∀ s ∈ t.text, s ≠ ""
  borderRadius : ∀ s ∈ t.borderRadius, s ≠ ""

theorem filled_ofNode (n : Node) (parent : Option Attributes) : (ofNode n parent).Filled := by
  constructor
  case text =>
    intro s hs
    simpa using (Option.filter_eq_some_iff.mp hs).2
  case borderRadius =>
    show ∀ s ∈ borderRadiusOf n.attributes, s ≠ ""
    rw [borderRadiusOf]
    cases n.attributes.cornerRadius? with
    | some r => simp
    | none =>
      simp only [Option.forall_mem_map, Css.edges_ne_empty, ne_eq, not_false_eq_true, implies_true]

theorem Filled.shape {ρ : Type} {t : Facets ρ} (h : t.Filled) : t.shape.Filled :=
  ⟨h.text, h.borderRadius⟩

end Facets

/-! ## The brief -/

namespace BriefNode

/-- What every node has, empty or not. -/
def always : List String := ["id", "name", "type"]

variable {ρ : Type} {ref : ρ → Json}
  (href : ∀ r, (ref r).isHollow = false ∧ (ref r).FilledBut always)

include href

theorem filledBut_members_iff (t : Facets ρ) :
    (∀ m ∈ members ref t, ∀ j ∈ m.2,
      (m.1 ∈ always ∨ j.isHollow = false) ∧ j.FilledBut always) ↔ t.Filled := by
  have hfilled : t.Filled ↔ (∀ s ∈ t.text, s ≠ "") ∧ ∀ s ∈ t.borderRadius, s ≠ "" :=
    ⟨fun h => ⟨h.text, h.borderRadius⟩, fun h => ⟨h.1, h.2⟩⟩
  have hkeys : "id" ∈ always ∧ "name" ∈ always ∧ "type" ∈ always ∧ "text" ∉ always ∧
      "borderRadius" ∉ always := by
    decide
  simp only [hfilled, members, List.forall_mem_cons, Option.forall_mem_map]
  simp [href, hkeys]

/-- In a written forest no member is empty, unless a text is. -/
theorem filledBut_listToJson_iff (depth : Nat) (ns : List (BriefNode ρ)) :
    (∀ j ∈ listToJson ref ns, j.FilledBut always) ↔
      ∀ x ∈ walkAll depth ns, x.2.facets.Filled := by
  induction ns using forest_induction generalizing depth with
  | nil => simp [listToJson, walkAll]
  | cons t children rest ihc ihr =>
    have hnode : (toJson ref ⟨t, children⟩).FilledBut always ↔
        t.Filled ∧ ∀ j ∈ listToJson ref children, j.FilledBut always := by
      cases children with
      | nil =>
        rw [toJson, Json.filledBut_present_iff, filledBut_members_iff href]
        simp [listToJson]
      | cons n ns =>
        rw [toJson, Json.filledBut_present_iff, List.forall_mem_append, filledBut_members_iff href]
        simp [listToJson, Json.isHollow]
    rw [listToJson, List.forall_mem_cons, hnode, ihr depth, ihc (depth + 1), and_assoc,
      forall_walkAll_cons (P := Facets.Filled)]

end BriefNode

/-- A brief in which no member is empty, but for the id, the name and the kind of a node. -/
structure Brief.Filled (b : Brief) : Prop where
  nodes : ∀ j ∈ BriefNode.listToJson StyleId.toJson b.nodes, j.FilledBut BriefNode.always
  styles : ∀ e ∈ b.styles.toList, e.2.toJson.FilledBut []

/-- The nodes of a brief never have an empty member. -/
theorem filled_nodes_briefTreeBy (hash : TextHash) (limit : DepthLimit) (roots : List Node) :
    ∀ j ∈ BriefNode.listToJson StyleId.toJson (briefTreeBy hash limit roots).1,
      j.FilledBut BriefNode.always := by
  have hid (id : StyleId) : id.toJson.isHollow = false ∧ id.toJson.FilledBut BriefNode.always := by
    simp [StyleId.toJson]
  rw [BriefNode.filledBut_listToJson_iff hid 0]
  intro x hx
  have hshape := forall_walkAll_briefTreeBy (P := Facets.Filled) hash
    (fun v _ => (Facets.filled_ofNode v.1 v.2).shape) x hx
  exact ⟨hshape.text, hshape.borderRadius⟩

/-- The styles of a brief have no empty member, unless the walk comes to a node that tells one. -/
theorem filled_styles_briefTreeBy_iff (hash : TextHash) (limit : DepthLimit) (roots : List Node) :
    (∀ e ∈ (briefTreeBy hash limit roots).2.toList, e.2.Filled) ↔
      ∀ v ∈ Node.visitsAll limit none roots, ¬ v.1.attributes.TellsEmpty := by
  rw [forall_briefTreeBy_iff StyleValue.filled_of_key_eq]
  exact forall₂_congr fun v _ => Facets.filled_ofNode_iff v.1 v.2

/-- Whatever response has roots, its brief has no empty member if and only if the walk comes to no
node that tells one. -/
theorem Response.filled_brief_iff {r : Response} {roots : List Node} (h : r.roots = .ok roots)
    (limit : DepthLimit) :
    ∃ b, r.brief limit = .ok b ∧
      (b.Filled ↔ ∀ v ∈ Node.visitsAll limit none roots, ¬ v.1.attributes.TellsEmpty) := by
  have hnodes := filled_nodes_briefTreeBy TextHash.mixing limit roots
  have hstyles := filled_styles_briefTreeBy_iff TextHash.mixing limit roots
  rw [brief_eq_map, h]
  exact ⟨_, rfl, fun hb => hstyles.mp hb.styles, fun hv => ⟨hnodes, hstyles.mpr hv⟩⟩

/-- A text over a gradient, and an image without a reference behind it. -/
theorem Response.filled_brief_iff_gradient :
    let roots : List Node :=
      [⟨{ id := "1"
          fills := some [{ kind := .gradient .radial, handles := some [⟨0, 0⟩]
                           stops := some [⟨0, {}⟩, ⟨1, { r := 1 }⟩] }, { kind := .image }] },
        some [⟨{ typeStyle := some { fontFamily := some "Inter" } }, none⟩]⟩]
    let r : Response := { document := some ⟨{}, some roots⟩ }
    r.roots = .ok roots ∧ ∃ b, r.brief (some 1) = .ok b ∧ b.Filled := by
  intro roots r
  have hroots : r.roots = .ok roots := rfl
  obtain ⟨b, hb, hfilled⟩ := filled_brief_iff hroots (some 1)
  exact ⟨hroots, b, hb, hfilled.mpr (by decide)⟩

/-- The name of a font may be empty, and is written all the same. -/
theorem Brief.exists_not_filled :
    let s := "\x7b\"document\":\x7b\"children\":[\x7b\"id\":\"1\"," ++
      "\"style\":\x7b\"fontFamily\":\"\"\x7d\x7d]\x7d\x7d"
    ∃ b, ofText none s = .ok b ∧
      ∃ e ∈ b.styles.toList, ∃ m ∈ e.2.toJson.within, m.2.isHollow = true := by
  intro s
  have hread : (ofText none s).toOption.isSome = true := by decide +kernel
  obtain ⟨b, hb⟩ := Option.isSome_iff_exists.mp hread
  rw [toOption_eq_some_iff] at hb
  obtain ⟨roots, hroots, -, hstyles⟩ := exists_roots_of_ofText hb
  have htells : ∀ roots ∈ Response.rootsOfText? s,
      ¬ ∀ v ∈ Node.visitsAll none none roots, ¬ v.1.attributes.TellsEmpty := by
    decide +kernel
  have hfilled := filled_styles_briefTreeBy_iff TextHash.mixing none roots
  have hnot := mt hfilled.mp (htells roots hroots)
  refine ⟨b, hb, ?_⟩
  rw [hstyles, briefTree]
  simpa [StyleValue.Filled, Json.FilledBut] using hnot

end DesignBrief
