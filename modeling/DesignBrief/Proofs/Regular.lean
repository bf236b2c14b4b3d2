import DesignBrief.Proofs.Notation
import DesignBrief.Proofs.Numbers
import Mathlib.Data.Option.Basic

/-!
Where numbers stand in what a brief tells: as such in a JSON value, `Json.reals`, or inside the
texts that are written in the notation of style sheets, `StyleValue.cssTexts`. A style is regular
if all of them are finite.
-/

namespace DesignBrief

/-! ## Numbers of a JSON value -/

mutual

def Json.reals : Json → List Float
  | .number (.real x) => [x]
  | .number (.integer _) => []
  | .array items => Json.realsOfItems items
  | .object members => Json.realsOfMembers members
  | .null => []
  | .bool _ => []
  | .string _ => []
termination_by structural j => j

def Json.realsOfItems : List Json → List Float
  | [] => []
  | j :: rest => j.reals ++ Json.realsOfItems rest
termination_by structural items => items

def Json.realsOfMembers : List (String × Json) → List Float
  | [] => []
  | (_, j) :: rest => j.reals ++ Json.realsOfMembers rest
termination_by structural members => members

end

namespace Json

def IsFinite (j : Json) : Prop := ∀ x ∈ j.reals, x.isFinite = true

@[simp] theorem isFinite_string (s : String) : (string s).IsFinite := nofun

@[simp] theorem isFinite_bool (b : Bool) : (bool b).IsFinite := nofun

@[simp] theorem isFinite_keyword {α : Type} [Keyword α] (k : α) : (keyword k).IsFinite := nofun

@[simp] theorem isFinite_real_iff (x : Float) : (real x).IsFinite ↔ x.isFinite = true := by
  simp [IsFinite, real, reals]

@[simp] theorem isFinite_array_iff (items : List Json) :
    (array items).IsFinite ↔ ∀ j ∈ items, j.IsFinite := by
  unfold IsFinite
  rw [reals]
  induction items with
  | nil => simp [realsOfItems]
  | cons j rest ih => rw [realsOfItems, List.forall_mem_append, List.forall_mem_cons, ih]

@[simp] theorem isFinite_object_iff (members : List (String × Json)) :
    (object members).IsFinite ↔ ∀ m ∈ members, m.2.IsFinite := by
  unfold IsFinite
  rw [reals]
  induction members with
  | nil => simp [realsOfMembers]
  | cons m rest ih => rw [realsOfMembers, List.forall_mem_append, List.forall_mem_cons, ih]

@[simp] theorem isFinite_ofList_iff {α : Type} (f : α → Json) (items : List α) :
    (ofList f items).IsFinite ↔ ∀ a ∈ items, (f a).IsFinite := by
  simp [ofList]

@[simp] theorem isFinite_present_iff (members : List (String × Option Json)) :
    (present members).IsFinite ↔ ∀ m ∈ members, ∀ j ∈ m.2, j.IsFinite := by
  simp only [present, isFinite_object_iff, List.mem_filterMap, Option.map_eq_some_iff]
  constructor
  · intro h m hm j hj
    exact h (m.1, j) ⟨m, hm, j, hj, rfl⟩
  · rintro h _ ⟨m, hm, j, hj, rfl⟩
    exact h m hm j hj

end Json

/-! ## Styles -/

@[simp] theorem Point.isFinite_toJson_iff (p : Point) : p.toJson.IsFinite ↔ p.IsFinite := by
  rw [toJson, Json.isFinite_object_iff]
  simp only [List.forall_mem_cons, Json.isFinite_real_iff]
  exact ⟨fun h => ⟨h.1, h.2.1⟩, fun h => ⟨h.x, h.y, List.forall_mem_nil _⟩⟩

theorem TextStyle.isFinite_toJson_iff (s : TextStyle) :
    s.toJson.IsFinite ↔
      (∀ x ∈ s.fontWeight, x.isFinite = true) ∧ ∀ x ∈ s.fontSize, x.isFinite = true := by
  simp only [toJson, Json.isFinite_present_iff, List.forall_mem_cons, Option.forall_mem_map]
  simp

theorem Stroke.isFinite_toJson_iff (s : Stroke) :
    s.toJson.IsFinite ↔
      (∀ f ∈ s.colors, f.toJson.IsFinite) ∧ ∀ xs ∈ s.dashes, ∀ x ∈ xs, x.isFinite = true := by
  simp only [toJson, Json.isFinite_present_iff, List.forall_mem_cons, Option.forall_mem_map]
  simp

theorem Effects.isFinite_toJson (e : Effects) : e.toJson.IsFinite := by
  simp only [toJson, Json.isFinite_present_iff, List.forall_mem_cons, Option.forall_mem_map]
  simp

structure Dimensions.IsFinite (d : Dimensions) : Prop where
  width : ∀ x ∈ d.width, x.isFinite = true
  height : ∀ x ∈ d.height, x.isFinite = true
  aspectRatio : ∀ x ∈ d.aspectRatio, x.isFinite = true

theorem Dimensions.isFinite_toJson_iff (d : Dimensions) : d.toJson.IsFinite ↔ d.IsFinite := by
  simp only [toJson, Json.isFinite_present_iff, List.forall_mem_cons, Option.forall_mem_map,
    Json.isFinite_real_iff]
  exact ⟨fun h => ⟨h.1, h.2.1, h.2.2.1⟩,
    fun h => ⟨h.width, h.height, h.aspectRatio, List.forall_mem_nil _⟩⟩

theorem Layout.isFinite_toJson_iff (l : Layout) :
    l.toJson.IsFinite ↔ (∀ p ∈ l.location, p.IsFinite) ∧ ∀ d ∈ l.dimensions, d.IsFinite := by
  have hmode : l.mode.toJson.IsFinite := by cases l.mode <;> exact Json.isFinite_string _
  have halign (a : Alignment) : a.toJson.IsFinite := by cases a <;> exact Json.isFinite_string _
  have hsize (s : Sizing) : s.toJson.IsFinite := by cases s <;> exact Json.isFinite_string _
  have hscroll (s : ScrollAxis) : s.toJson.IsFinite := by cases s <;> exact Json.isFinite_string _
  have hpair (s : SizingPair) : s.toJson.IsFinite := by
    simp [SizingPair.toJson, hsize]
  simp only [toJson, Json.isFinite_present_iff, List.forall_mem_cons, Option.forall_mem_map]
  simp [hmode, halign, hpair, hscroll, Dimensions.isFinite_toJson_iff]

/-- The texts of a fill that are written in the notation of style sheets. -/
def Fill.cssTexts : Fill → List String
  | .solid t => [t.hex]
  | .gradient _ _ stops => stops.map (·.tint.hex)
  | .image _ _ => []
  | .plain _ => []

def StyleValue.cssTexts : StyleValue → List String
  | .text s => s.lineHeight.toList ++ s.letterSpacing.toList
  | .fills fs => fs.flatMap Fill.cssTexts
  | .stroke s => s.colors.flatMap Fill.cssTexts ++ s.weight.toList
  | .effects e =>
    e.boxShadow.toList ++ e.textShadow.toList ++ e.filter.toList ++ e.backdropFilter.toList
  | .layout l => l.gap.toList ++ l.padding.toList

@[simp] theorem Edges.plain_css_iff (e : Edges) : Css.Plain (Css.edges e) ↔ e.IsFinite := by
  rw [Css.plain_edges_iff]
  exact ⟨fun h => ⟨h.1, h.2.1, h.2.2.1, h.2.2.2⟩, fun h => ⟨h.top, h.right, h.bottom, h.left⟩⟩

/-- A style that tells only finite numbers, be it as such or in the notation of style sheets. -/
structure StyleValue.Regular (v : StyleValue) : Prop where
  numbers : v.toJson.IsFinite
  texts : ∀ t ∈ v.cssTexts, Css.Plain t

end DesignBrief
