import DesignBrief.Proofs.Visits
import Mathlib.Data.List.Induction
import Mathlib.Data.Option.Basic

/-!
The table of a brief against its forest. The ids of the table are those that the forest refers to,
each once, in the order in which the walk first meets them, and every reference is to a style of
the category that its place asks for: `briefTreeBy_accounted`. No reference dangles, and nothing is
kept in the table for a node that was dropped.
-/

namespace DesignBrief

/-! ## First occurrences -/

theorem eraseDups_concat {α : Type} [DecidableEq α] (xs : List α) (x : α) :
    (xs ++ [x]).eraseDups = xs.eraseDups ++ if x ∈ xs then [] else [x] := by
  rw [List.eraseDups_append]
  by_cases h : x ∈ xs <;> simp [List.removeAll, h, List.eraseDups_cons]

theorem eraseDups_map {α β : Type} [DecidableEq α] [DecidableEq β] {f : α → β}
    (hf : Function.Injective f) (xs : List α) :
    (xs.map f).eraseDups = xs.eraseDups.map f := by
  induction xs using List.reverseRecOn with
  | nil => rfl
  | append_singleton xs x ih =>
    rw [List.map_append, List.map_singleton, eraseDups_concat, eraseDups_concat, ih]
    by_cases h : x ∈ xs <;> simp [hf.eq_iff, h]

/-! ## The ids that a run gives and the ids that it leaves -/

namespace LinearStore

/-- A call gives an id that is there already, or puts a new one behind the others. -/
theorem ids_resolve (v : StyleValue) (store : LinearStore) :
    ((store.resolve v).1 ∈ store.table.ids ∧
        (store.resolve v).2.table.ids = store.table.ids) ∨
      (store.resolve v).2.table.ids = store.table.ids ++ [(store.resolve v).1] := by
  cases hv : store.table.entryOf? v with
  | some e =>
    rw [resolve_of_some hv]
    exact Or.inl ⟨List.mem_map_of_mem (StyleTable.mem_of_entryOf? hv), rfl⟩
  | none =>
    rw [resolve_of_none hv]
    exact Or.inr (StyleTable.ids_push _ _ _)

/-- If no id comes twice, the ids that a run leaves are those it gave, in the order of its calls. -/
theorem ids_resolveAll (vs : List StyleValue) (hnd : (resolveAll vs {}).2.table.ids.Nodup) :
    (resolveAll vs {}).2.table.ids = (resolveAll vs {}).1.eraseDups := by
  induction vs using List.reverseRecOn with
  | nil => rfl
  | append_singleton vs v ih =>
    simp only [resolveAll, Calls.run_append, Calls.run_cons, Calls.run_nil] at hnd ih ⊢
    generalize Calls.run resolve vs {} = sooner at hnd ih ⊢
    rw [eraseDups_concat]
    rcases ids_resolve v sooner.2 with ⟨hold, hids⟩ | hids
    · rw [hids] at hnd ⊢
      rw [ih hnd, List.mem_eraseDups] at hold
      rw [if_pos hold, List.append_nil, ih hnd]
    · rw [hids] at hnd ⊢
      obtain ⟨hnd, _, hnew⟩ := List.nodup_append.mp hnd
      have hfresh : (resolve v sooner.2).1 ∉ sooner.1 := by
        rw [← List.mem_eraseDups, ← ih hnd]
        exact fun hmem => hnew _ hmem _ List.mem_cons_self rfl
      rw [if_neg hfresh, ih hnd]

/-- The id of a style is of the category of the style. -/
theorem Tidy.category_resolve {store : LinearStore} (h : store.Tidy) (v : StyleValue) :
    (store.resolve v).1.category = v.category := by
  cases hv : store.table.entryOf? v with
  | some e =>
    rw [resolve_of_some hv, h.table.category_eq (StyleTable.mem_of_entryOf? hv)]
    exact (StyleValue.key_eq_iff.mp (StyleTable.key_of_entryOf? hv)).1
  | none => rw [resolve_of_none hv, Counters.nextId]

theorem Tidy.map_category_resolveAll {store : LinearStore} (h : store.Tidy)
    (vs : List StyleValue) :
    (resolveAll vs store).1.map (·.category) = vs.map StyleValue.category := by
  induction vs generalizing store with
  | nil => rfl
  | cons v vs ih =>
    have hrest := ih (h.resolve v)
    rw [resolveAll] at hrest ⊢
    rw [Calls.run_cons, List.map_cons, List.map_cons, h.category_resolve, hrest]

end LinearStore

namespace StyleStore

theorem ids_after {hash : TextHash} {vs : List StyleValue}
    (hnd : (after hash vs).table.ids.Nodup) :
    (after hash vs).table.ids = (resolveAll hash vs {}).1.eraseDups := by
  have h := LinearStore.ids_resolveAll vs
  rw [linear_after hash] at h
  exact h hnd

theorem map_category_resolveAll (hash : TextHash) (vs : List StyleValue) :
    (resolveAll hash vs {}).1.map (·.category) = vs.map StyleValue.category := by
  have h := LinearStore.tidy_empty.map_category_resolveAll vs
  rwa [linear_after hash] at h

end StyleStore

/-! ## Tables and forests -/

/-- It makes no difference whether categories are looked up before or after. -/
theorem Facets.placed_map_iff {ρ : Type} {category : ρ → Category} {t : Facets ρ} :
    ((t.map category).Placed fun k => k) ↔ t.Placed category := by
  constructor
  · rintro ⟨h₁, h₂, h₃, h₄, h₅⟩
    exact ⟨Option.forall_mem_map.mp h₁, Option.forall_mem_map.mp h₂, Option.forall_mem_map.mp h₃,
      Option.forall_mem_map.mp h₄, Option.forall_mem_map.mp h₅⟩
  · rintro ⟨h₁, h₂, h₃, h₄, h₅⟩
    exact ⟨Option.forall_mem_map.mpr h₁, Option.forall_mem_map.mpr h₂,
      Option.forall_mem_map.mpr h₃, Option.forall_mem_map.mpr h₄, Option.forall_mem_map.mpr h₅⟩

/-- Every reference is written with the label of its place, and with the number of its style. -/
structure Facets.Labelled (t : Facets StyleId) : Prop where
  textStyle : ∀ id ∈ t.textStyle, id.text = "style_" ++ toString id.number.toNat
  fills : ∀ id ∈ t.fills, id.text = "fill_" ++ toString id.number.toNat
  strokes : ∀ id ∈ t.strokes, id.text = "stroke_" ++ toString id.number.toNat
  effects : ∀ id ∈ t.effects, id.text = "effect_" ++ toString id.number.toNat
  layout : ∀ id ∈ t.layout, id.text = "layout_" ++ toString id.number.toNat

theorem Facets.Placed.labelled {t : Facets StyleId} (h : t.Placed (·.category)) :
    t.Labelled := by
  have hplace {o : Option StyleId} {k : Category} (hk : ∀ id ∈ o, id.category = k) :
      ∀ id ∈ o, id.text = k.label ++ "_" ++ toString id.number.toNat := by
    intro id hid
    rw [StyleId.text, hk id hid]
  obtain ⟨h₁, h₂, h₃, h₄, h₅⟩ := h
  exact ⟨hplace h₁, hplace h₂, hplace h₃, hplace h₄, hplace h₅⟩

/-- A table holds just what a forest refers to, in the order of first use. -/
structure StyleTable.Accounted (t : StyleTable) (forest : List (BriefNode StyleId)) : Prop where
  ids_eq : t.ids.map StyleId.text =
    ((BriefNode.walkAll 0 forest).flatMap fun x => x.2.facets.refs.map StyleId.text).eraseDups
  once : (t.ids.map StyleId.text).Nodup
  /-- No reference dangles. -/
  found : ∀ x ∈ BriefNode.walkAll 0 forest, ∀ id ∈ x.2.facets.refs, (t.get? id).isSome
  /-- No style is kept that nothing refers to. -/
  used : ∀ id ∈ t.ids, ∃ x ∈ BriefNode.walkAll 0 forest, id ∈ x.2.facets.refs
  labelled : ∀ x ∈ BriefNode.walkAll 0 forest, x.2.facets.Labelled

theorem ids_briefTreeBy (hash : TextHash) (limit : DepthLimit) {roots : List Node}
    (hsize : Node.sizeAll roots < 2 ^ 32) :
    (briefTreeBy hash limit roots).2.ids =
      (BriefNode.refsAll (briefTreeBy hash limit roots).1).eraseDups := by
  have hnd := nodup_ids_briefTreeBy hash limit hsize
  rw [table_briefTreeBy] at hnd
  rw [table_briefTreeBy, refsAll_briefTreeBy]
  exact StyleStore.ids_after hnd

/-- Ids instead of styles, the forest has the same categories in the same places. -/
theorem mapAll_category_briefTreeBy (hash : TextHash) (limit : DepthLimit) (roots : List Node) :
    BriefNode.mapAll (·.category) (briefTreeBy hash limit roots).1 =
      BriefNode.mapAll StyleValue.category (Node.inPlaceAll limit none roots) := by
  refine BriefNode.eq_of_shapeAll_refsAll ?_ ?_
  · rw [BriefNode.shapeAll_mapAll, BriefNode.shapeAll_mapAll, shapeAll_briefTreeBy]
  · rw [BriefNode.refsAll_mapAll, BriefNode.refsAll_mapAll, refsAll_briefTreeBy]
    exact StyleStore.map_category_resolveAll hash _

theorem labelled_briefTreeBy (hash : TextHash) (limit : DepthLimit) (roots : List Node) :
    ∀ x ∈ BriefNode.walkAll 0 (briefTreeBy hash limit roots).1, x.2.facets.Labelled := by
  have hplaced : ∀ x ∈ BriefNode.walkAll 0 (Node.inPlaceAll limit none roots),
      (x.2.facets.map StyleValue.category).Placed fun k => k := by
    intro x hx
    obtain ⟨v, _, hxv⟩ := Node.exists_visit hx
    rw [hxv, Facets.placed_map_iff]
    exact Facets.placed_ofNode v.1 v.2
  rw [← BriefNode.forall_walkAll_mapAll, ← mapAll_category_briefTreeBy hash,
    BriefNode.forall_walkAll_mapAll] at hplaced
  intro x hx
  exact (Facets.placed_map_iff.mp (hplaced x hx)).labelled

/-- The table of a brief holds just what the brief refers to, in the order of first use. -/
theorem briefTreeBy_accounted (hash : TextHash) (limit : DepthLimit) (roots : List Node)
    (hsize : Node.sizeAll roots < 2 ^ 32) :
    (briefTreeBy hash limit roots).2.Accounted (briefTreeBy hash limit roots).1 := by
  have hids := ids_briefTreeBy hash limit hsize
  have hnd := nodup_ids_briefTreeBy hash limit hsize
  have hmem : ∀ id, id ∈ (briefTreeBy hash limit roots).2.ids ↔
      ∃ x ∈ BriefNode.walkAll 0 (briefTreeBy hash limit roots).1, id ∈ x.2.facets.refs := by
    intro id
    rw [hids, List.mem_eraseDups, BriefNode.refsAll_eq_flatMap_walkAll 0, List.mem_flatMap]
  constructor
  case ids_eq =>
    rw [hids, ← eraseDups_map (fun _ _ => StyleId.text_injective),
      BriefNode.refsAll_eq_flatMap_walkAll 0, List.map_flatMap]
  case once => exact hnd.map fun _ _ => StyleId.text_injective
  case found =>
    intro x hx id hid
    obtain ⟨e, he, rfl⟩ := List.mem_map.mp ((hmem id).mpr ⟨x, hx, hid⟩)
    rw [StyleTable.get?_of_mem hnd he]
    rfl
  case used => exact fun id hid => (hmem id).mp hid
  case labelled => exact labelled_briefTreeBy hash limit roots

/-- A node that is dropped leaves nothing behind, and a style that comes up again nothing new. -/
theorem briefTreeBy_accounted_dropped :
    let roots : List Node :=
      [⟨{ kind := "FRAME", clipsContent := some true, overflow := some .both },
          some [⟨{ strokeDashes := some [1] }, none⟩,
            ⟨{ fills := some [{ kind := .image }] }, none⟩]⟩,
        ⟨{ fills := some [{ kind := .image }], strokes := some [{ kind := .solid }] }, none⟩]
    Node.sizeAll roots < 2 ^ 32 ∧
      (briefTreeBy (fun _ => 0) none roots).2.Accounted
        (briefTreeBy (fun _ => 0) none roots).1 := by
  intro roots
  exact ⟨by decide, briefTreeBy_accounted (fun _ => 0) none roots (by decide)⟩

end DesignBrief
