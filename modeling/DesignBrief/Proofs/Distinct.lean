import DesignBrief.Proofs.AsWritten
import DesignBrief.Proofs.FirstUse
import DesignBrief.Proofs.Records

/-!
Different styles have different texts. The record of a style tells every field of it,
`StyleValue.eq_of_toJson_eq`; a fill needs that an image or a gradient is never told by its kind
alone, which holds of whatever is made of a paint. So two styles of one category whose numbers are
all finite have the same canonical text only if they are the same, bit for bit,
`StyleValue.canonical_eq_iff`, and a brief loses nothing by its ids, `briefTreeBy_lossless`.
-/

namespace DesignBrief

/-! ## Records -/

theorem Keyword.name_injective {α : Type} [Keyword α] : Function.Injective (name : α → String) := by
  intro j k h
  rw [← ofName_name j, h, ofName_name]

theorem Json.keyword_injective {α : Type} [Keyword α] : Function.Injective (keyword : α → Json) :=
  fun _ _ h => Keyword.name_injective (Json.string.inj h)

theorem Json.string_injective : Function.Injective Json.string := fun _ _ h => Json.string.inj h

theorem Json.real_injective : Function.Injective Json.real :=
  fun _ _ h => Number.real.inj (Json.number.inj h)

theorem Json.ofList_injective {α : Type} {f : α → Json} (hf : Function.Injective f) :
    Function.Injective (Json.ofList f) :=
  fun _ _ h => List.map_injective_iff.mpr hf (Json.array.inj h)

theorem TextStyle.toJson_injective : Function.Injective toJson := by
  intro s t h
  rw [toJson, toJson] at h
  have hfields := Json.eq_of_present_eq h rfl (by simp)
  simp only [List.cons.injEq, Prod.mk.injEq, true_and, and_true,
    (Option.map_injective Json.string_injective).eq_iff,
    (Option.map_injective Json.real_injective).eq_iff] at hfields
  cases s
  cases t
  simpa using hfields

theorem Point.toJson_injective : Function.Injective toJson := by
  intro p q h
  have hmembers := Json.object.inj h
  simp only [List.cons.injEq, Prod.mk.injEq, true_and, and_true, Json.real_injective.eq_iff]
    at hmembers
  cases p
  cases q
  simpa using hmembers

theorem Effects.toJson_injective : Function.Injective toJson := by
  intro e f h
  rw [toJson, toJson] at h
  have hfields := Json.eq_of_present_eq h rfl (by simp)
  simp only [List.cons.injEq, Prod.mk.injEq, true_and, and_true,
    (Option.map_injective Json.string_injective).eq_iff] at hfields
  cases e
  cases f
  simpa using hfields

/-! ## Layouts -/

theorem Flow.toJson_injective : Function.Injective toJson := by
  intro j k h
  cases j <;> cases k <;> first | rfl | exact absurd (Json.string.inj h) (by decide)

theorem Alignment.toJson_injective : Function.Injective toJson := by
  intro j k h
  cases j <;> cases k <;> first | rfl | exact absurd (Json.string.inj h) (by decide)

theorem Sizing.toJson_injective : Function.Injective toJson := by
  intro j k h
  cases j <;> cases k <;> first | rfl | exact absurd (Json.string.inj h) (by decide)

theorem ScrollAxis.toJson_injective : Function.Injective toJson := by
  intro j k h
  cases j <;> cases k <;> first | rfl | exact absurd (Json.string.inj h) (by decide)

theorem SizingPair.toJson_injective : Function.Injective toJson := by
  intro s t h
  rw [toJson, toJson] at h
  have hfields := Json.eq_of_present_eq h rfl (by simp)
  simp only [List.cons.injEq, Prod.mk.injEq, true_and, and_true,
    (Option.map_injective Sizing.toJson_injective).eq_iff] at hfields
  cases s
  cases t
  simpa using hfields

theorem Dimensions.toJson_injective : Function.Injective toJson := by
  intro d e h
  rw [toJson, toJson] at h
  have hfields := Json.eq_of_present_eq h rfl (by simp)
  simp only [List.cons.injEq, Prod.mk.injEq, true_and, and_true,
    (Option.map_injective Json.real_injective).eq_iff] at hfields
  cases d
  cases e
  simpa using hfields

theorem Layout.toJson_injective : Function.Injective toJson := by
  intro l m h
  rw [toJson, toJson] at h
  have hfields := Json.eq_of_present_eq h rfl (by simp)
  simp only [List.cons.injEq, Prod.mk.injEq, true_and, and_true, Option.some.injEq,
    Flow.toJson_injective.eq_iff,
    (Option.map_injective Alignment.toJson_injective).eq_iff,
    (Option.map_injective Json.string_injective).eq_iff,
    (Option.map_injective Point.toJson_injective).eq_iff,
    (Option.map_injective Dimensions.toJson_injective).eq_iff,
    (Option.map_injective SizingPair.toJson_injective).eq_iff] at hfields
  obtain ⟨hmode, hjustify, hitems, hself, hwrap, hgap, hlocation, hdimensions, hpadding, hsizing,
    hscroll, hposition⟩ := hfields
  have hwrap' : l.wrap = m.wrap := by
    cases hl : l.wrap <;> cases hm : m.wrap <;> simp [hl, hm] at hwrap ⊢
  have hscroll' : l.scroll = m.scroll := by
    cases hl : l.scroll with
    | nil =>
      cases hm : m.scroll with
      | nil => rfl
      | cons b bs => simp [hl, hm] at hscroll
    | cons a as =>
      cases hm : m.scroll with
      | nil => simp [hl, hm] at hscroll
      | cons b bs =>
        rw [hl, hm] at hscroll
        exact Json.ofList_injective ScrollAxis.toJson_injective (Option.some.inj hscroll)
  have hposition' : l.isAbsolute = m.isAbsolute := by
    cases hl : l.isAbsolute <;> cases hm : m.isAbsolute <;> simp [hl, hm] at hposition ⊢
  cases l
  cases m
  simp_all

/-! ## Fills -/

/-- A fill of which only the kind is told is no image and no gradient. -/
def Fill.Coupled : Fill → Prop
  | .plain kind => kind ≠ .image ∧ kind.isGradient = false
  | _ => True

theorem Fill.coupled_ofPaint (p : Paint) : (ofPaint p).Coupled := by
  unfold ofPaint
  split
  · split
    · trivial
    · exact ⟨by decide, rfl⟩
  · trivial
  · trivial
  · rename_i hsolid hgradient himage
    refine ⟨himage, ?_⟩
    cases hk : p.kind with
    | gradient shape => exact absurd hk (hgradient shape)
    | _ => rfl

/-- Fills that are told alike are of one kind. -/
theorem Fill.kind_eq_of_toJson_eq {f g : Fill} (h : f.toJson = g.toJson) : f.kind = g.kind := by
  have htype (f : Fill) : f.toJson.member? "type" = some (Json.keyword f.kind) := by
    cases f <;> rfl
  have hkey := htype f
  rw [h, htype g] at hkey
  exact (Json.keyword_injective (Option.some.inj hkey)).symm

theorem Tint.eq_of_members_eq {t u : Tint} (h : t.members = u.members) : t = u := by
  simp only [members, List.cons.injEq, Prod.mk.injEq, true_and, and_true,
    Json.string_injective.eq_iff, Json.real_injective.eq_iff] at h
  cases t
  cases u
  simpa using h

theorem TintStop.toJson_injective : Function.Injective toJson := by
  intro s t h
  have hmembers := Json.object.inj h
  simp only [List.cons.injEq, Prod.mk.injEq, true_and, and_true, Json.real_injective.eq_iff]
    at hmembers
  have htint := Tint.eq_of_members_eq (Json.object.inj hmembers.2)
  cases s
  cases t
  simp_all

theorem Fill.eq_of_toJson_eq {f g : Fill} (hf : f.Coupled) (hg : g.Coupled)
    (h : f.toJson = g.toJson) : f = g := by
  have hkind := kind_eq_of_toJson_eq h
  cases f with
  | solid t =>
    cases g with
    | solid u => rw [Tint.eq_of_members_eq (List.cons.inj (Json.object.inj h)).2]
    | plain k =>
      change PaintKind.solid = k at hkind
      subst hkind
      cases (List.cons.inj (Json.object.inj h)).2
    | _ => cases hkind
  | gradient shape handles stops =>
    cases g with
    | gradient shape' handles' stops' =>
      have hmembers := Json.object.inj h
      simp only [List.cons.injEq, Prod.mk.injEq, true_and, and_true] at hmembers
      obtain ⟨-, hhandles, hstops⟩ := hmembers
      rw [Json.ofList_injective Point.toJson_injective hhandles,
        Json.ofList_injective TintStop.toJson_injective hstops, PaintKind.gradient.inj hkind]
    | plain k =>
      change PaintKind.gradient shape = k at hkind
      subst hkind
      cases hg.2
    | _ => cases hkind
  | image imageRef scaleMode =>
    cases g with
    | image imageRef' scaleMode' =>
      have hfields := Json.eq_of_present_eq h rfl (by simp)
      simp only [List.cons.injEq, Prod.mk.injEq, true_and, and_true,
        (Option.map_injective Json.string_injective).eq_iff,
        (Option.map_injective Json.keyword_injective).eq_iff] at hfields
      rw [hfields.2.1, hfields.2.2]
    | plain k => exact absurd hkind.symm hg.1
    | _ => cases hkind
  | plain j =>
    cases g with
    | solid u =>
      change j = PaintKind.solid at hkind
      subst hkind
      cases (List.cons.inj (Json.object.inj h)).2
    | gradient shape handles stops =>
      change j = PaintKind.gradient shape at hkind
      subst hkind
      cases hf.2
    | image imageRef scaleMode => exact absurd hkind hf.1
    | plain k => exact congrArg Fill.plain hkind

theorem Fill.eq_of_map_toJson_eq {fs gs : List Fill} (hf : ∀ f ∈ fs, f.Coupled)
    (hg : ∀ g ∈ gs, g.Coupled) (h : fs.map toJson = gs.map toJson) : fs = gs := by
  induction fs generalizing gs with
  | nil => exact (List.map_eq_nil_iff.mp h.symm).symm
  | cons f fs ih =>
    cases gs with
    | nil => cases h
    | cons g gs =>
      obtain ⟨hfg, hrest⟩ := List.cons.inj h
      rw [List.forall_mem_cons] at hf hg
      rw [Fill.eq_of_toJson_eq hf.1 hg.1 hfg, ih hf.2 hg.2 hrest]

theorem Stroke.eq_of_toJson_eq {s t : Stroke} (hs : ∀ f ∈ s.colors, f.Coupled)
    (ht : ∀ f ∈ t.colors, f.Coupled) (h : s.toJson = t.toJson) : s = t := by
  rw [toJson, toJson] at h
  have hfields := Json.eq_of_present_eq h rfl (by simp)
  simp only [List.cons.injEq, Prod.mk.injEq, true_and, and_true, Option.some.injEq,
    (Option.map_injective Json.string_injective).eq_iff,
    (Option.map_injective (Json.ofList_injective Json.real_injective)).eq_iff] at hfields
  have hcolors := Fill.eq_of_map_toJson_eq hs ht (Json.array.inj hfields.1)
  cases s
  cases t
  simp_all

/-! ## Styles -/

namespace StyleValue

/-- The styles that are made of a node. -/
inductive Built : StyleValue → Prop where
  | text (s : TypeStyle) : Built (.text (.ofTypeStyle s))
  | fills (ps : List Paint) : Built (.fills (ps.map .ofPaint))
  | stroke (a : Attributes) : Built (.stroke (.ofAttributes a))
  | effects (a : Attributes) : Built (.effects (.ofAttributes a))
  | layout (n : Node) (parent : Option Attributes) : Built (.layout (.ofNode n parent))

/-- Styles of one category that are told alike are the same. -/
theorem Built.eq_of_toJson_eq {v w : StyleValue} (hv : v.Built) (hw : w.Built)
    (hcategory : v.category = w.category) (h : v.toJson = w.toJson) : v = w := by
  have hpaints (ps : List Paint) : ∀ f ∈ ps.map Fill.ofPaint, f.Coupled :=
    List.forall_mem_map.mpr fun p _ => Fill.coupled_ofPaint p
  cases hv with
  | text s =>
    cases hw with
    | text t => exact congrArg StyleValue.text (TextStyle.toJson_injective h)
    | _ => cases hcategory
  | fills ps =>
    cases hw with
    | fills qs =>
      have hfills := Fill.eq_of_map_toJson_eq (hpaints ps) (hpaints qs) (Json.array.inj h)
      exact congrArg StyleValue.fills hfills
    | _ => cases hcategory
  | stroke a =>
    cases hw with
    | stroke b =>
      exact congrArg StyleValue.stroke (Stroke.eq_of_toJson_eq (hpaints _) (hpaints _) h)
    | _ => cases hcategory
  | effects a =>
    cases hw with
    | effects b => exact congrArg StyleValue.effects (Effects.toJson_injective h)
    | _ => cases hcategory
  | layout n parent =>
    cases hw with
    | layout m parent' => exact congrArg StyleValue.layout (Layout.toJson_injective h)
    | _ => cases hcategory

/-- Styles of one category whose numbers are all finite are the same if and only if their canonical
texts are. -/
theorem canonical_eq_iff {v w : StyleValue} (hv : v.Built) (hw : w.Built)
    (hcategory : v.category = w.category) (hvfinite : v.toJson.IsFinite)
    (hwfinite : w.toJson.IsFinite) : v.canonical = w.canonical ↔ v = w := by
  refine ⟨fun h => ?_, congrArg canonical⟩
  exact hv.eq_of_toJson_eq hw hcategory (Json.eq_of_compact_eq hvfinite hwfinite h)

/-- Two images without a reference look the same, whatever their opacity. -/
theorem canonical_eq_iff_image :
    let faint : Paint := { kind := .image, opacity := some 0.5 }
    let v := fills ([faint].map Fill.ofPaint)
    let w := fills ([{ kind := .image }].map Fill.ofPaint)
    (v.Built ∧ w.Built ∧ v.category = w.category ∧ v.toJson.IsFinite ∧ w.toJson.IsFinite) ∧
      (v.canonical = w.canonical ↔ v = w) ∧ v = w := by
  intro faint v w
  have hv : v.Built := .fills _
  have hw : w.Built := .fills _
  have hvfinite : v.toJson.IsFinite := nofun
  have hwfinite : w.toJson.IsFinite := nofun
  exact ⟨⟨hv, hw, rfl, hvfinite, hwfinite⟩, canonical_eq_iff hv hw rfl hvfinite hwfinite, rfl⟩

end StyleValue

theorem Facets.built_ofNode (node : Node) (parent : Option Attributes) :
    ∀ v ∈ (ofNode node parent).refs, v.Built := by
  rw [forall_mem_refs]
  refine ⟨?_, ?_, ?_, ?_, ?_⟩ <;> intro v hv <;> simp only [ofNode] at hv
  · obtain ⟨s, hs, rfl⟩ := Option.map_eq_some_iff.mp hv
    obtain ⟨t, -, rfl⟩ := Option.map_eq_some_iff.mp (Option.filter_eq_some_iff.mp hs).1
    exact .text t
  · obtain ⟨ps, -, rfl⟩ := Option.map_eq_some_iff.mp hv
    exact .fills ps
  · split at hv <;> cases hv
    exact .stroke _
  · split at hv <;> cases hv
    exact .effects _
  · split at hv <;> cases hv
    exact .layout node parent

/-! ## Runs -/

/-- In a run over styles whose numbers are all finite no two different styles share an id: every id
leads to the very style that it was given for. -/
theorem StyleStore.map_get?_eq_map_some {hash : TextHash} {vs : List StyleValue}
    (hbuilt : ∀ v ∈ vs, v.Built) (hfinite : ∀ v ∈ vs, v.toJson.IsFinite)
    (hnd : (after hash vs).table.ids.Nodup) :
    (resolveAll hash vs {}).1.map (after hash vs).table.get? = vs.map some := by
  rw [map_get?_eq_map_entryOf? hnd]
  refine List.map_congr_left fun v hv => ?_
  obtain ⟨e, he⟩ := entryOf?_of_mem hv
  have hmem := StyleTable.mem_of_entryOf? he
  have hkey := StyleValue.key_eq_iff.mp (StyleTable.key_of_entryOf? he)
  have hsame : e.2 = v :=
    (forall_after hbuilt e hmem).eq_of_toJson_eq (hbuilt v hv) hkey.1
      (Json.eq_of_compact_eq (forall_after hfinite e hmem) (hfinite v hv) hkey.2)
  rw [he, Option.map_some, hsame]

/-- If all its numbers are finite, a brief loses nothing by its ids: with the styles that they lead
to it is the forest that the walk without a store leaves, bit for bit. -/
theorem briefTreeBy_lossless (hash : TextHash) (limit : DepthLimit) (roots : List Node)
    (hsize : Node.sizeAll roots < 2 ^ 32)
    (hfinite : ∀ v ∈ BriefNode.refsAll (Node.inPlaceAll limit none roots), v.toJson.IsFinite) :
    BriefNode.mapAll (briefTreeBy hash limit roots).2.get? (briefTreeBy hash limit roots).1 =
      BriefNode.mapAll some (Node.inPlaceAll limit none roots) := by
  have hbuilt : ∀ v ∈ BriefNode.refsAll (Node.inPlaceAll limit none roots), v.Built := by
    rw [BriefNode.refsAll_eq_flatMap_walkAll 0, List.forall_mem_flatMap]
    intro x hx
    obtain ⟨v, _, hxv⟩ := Node.exists_visit hx
    rw [hxv]
    exact Facets.built_ofNode v.1 v.2
  have hnd := nodup_ids_briefTreeBy hash limit hsize
  rw [table_briefTreeBy] at hnd
  refine BriefNode.eq_of_shapeAll_refsAll ?_ ?_
  · rw [BriefNode.shapeAll_mapAll, BriefNode.shapeAll_mapAll, shapeAll_briefTreeBy]
  · rw [BriefNode.refsAll_mapAll, BriefNode.refsAll_mapAll, refsAll_briefTreeBy, table_briefTreeBy]
    exact StyleStore.map_get?_eq_map_some hbuilt hfinite hnd

end DesignBrief
