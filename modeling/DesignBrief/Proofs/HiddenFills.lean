import DesignBrief.Proofs.AsWritten
import DesignBrief.Proofs.Hidden

/-!
What becomes of hidden fills. Strokes and effects that are not shown may be left out of a tree, and
its brief stays as it is. A fill is told whether it is shown or not, `Facets.fills_withShownFills_iff`,
and nothing tells it from one that is shown, `Attributes.exchangeable_withBareFills`. Since the
canonical text of a style tells how many fills it has, the brief of a tree without its hidden fills
is another one as soon as the walk comes to any of them, `briefTreeBy_withoutHidden`.
-/

namespace DesignBrief

/-! ## Leaving out what is hidden -/

section

variable {α : Type} (visible : α → Option Bool)

/-- A list, if there is one, without what is not shown. -/
def onlyShown (xs : Option (List α)) : Option (List α) :=
  xs.map fun l => l.filter fun x => isShown (visible x)

theorem getD_onlyShown (xs : Option (List α)) :
    (onlyShown visible xs).getD [] = shownOf visible xs := by
  cases xs <;> rfl

theorem shownOf_onlyShown (xs : Option (List α)) :
    shownOf visible (onlyShown visible xs) = shownOf visible xs := by
  rw [shownOf, getD_onlyShown, shownOf, List.filter_filter]
  simp

end

namespace Attributes

def withShownFills (a : Attributes) : Attributes :=
  { a with fills := onlyShown (·.visible) a.fills }

def withShownStrokes (a : Attributes) : Attributes :=
  { a with
    strokes := onlyShown (·.visible) a.strokes
    effects := onlyShown (·.visible) a.effects }

/-- The attributes with fills that do not say whether they are shown. -/
def withBareFills (a : Attributes) : Attributes :=
  { a with fills := a.fills.map (·.map fun p => { p with visible := none }) }

def HidesFill (a : Attributes) : Prop := ∃ p ∈ a.fills.getD [], isShown p.visible = false
deriving Decidable

/-- Strokes and effects that are not shown make no difference. -/
theorem exchangeable_withShownStrokes (a : Attributes) : a.withShownStrokes.Exchangeable a :=
  SameShown.exchangeable
    ⟨shownOf_onlyShown (·.visible) a.strokes, shownOf_onlyShown (·.visible) a.effects, rfl⟩

/-- Whether a fill is shown makes no difference. -/
theorem exchangeable_withBareFills (a : Attributes) : a.withBareFills.Exchangeable a := by
  refine ⟨rfl, ⟨rfl, rfl, rfl⟩, ⟨rfl, rfl⟩, fun children parent => ?_⟩
  have hfills : a.withBareFills.fills?.map (fun ps => StyleValue.fills (ps.map Fill.ofPaint)) =
      a.fills?.map fun ps => StyleValue.fills (ps.map Fill.ofPaint) := by
    rw [fills?, withBareFills, nonempty?_map, ← fills?, Option.map_map]
    refine Option.map_congr fun ps _ => ?_
    rw [Function.comp_apply, List.map_map]
    rfl
  rw [Facets.ofNode, Facets.ofNode, hfills]
  rfl

theorem withShownFills_eq_self {a : Attributes} (h : ¬ a.HidesFill) : a.withShownFills = a := by
  have hfills : onlyShown (·.visible) a.fills = a.fills := by
    cases hf : a.fills with
    | none => rfl
    | some ps =>
      refine congrArg some (List.filter_eq_self.mpr fun p hp => ?_)
      by_contra hhidden
      exact h ⟨p, by rwa [hf], by simpa using hhidden⟩
  rw [withShownFills, hfills]

theorem length_shownFills_le (a : Attributes) :
    (a.withShownFills.fills.getD []).length ≤ (a.fills.getD []).length := by
  rw [withShownFills, getD_onlyShown]
  exact List.length_filter_le _ _

theorem length_shownFills_lt_iff {a : Attributes} :
    (a.withShownFills.fills.getD []).length < (a.fills.getD []).length ↔ a.HidesFill := by
  rw [withShownFills, getD_onlyShown, shownOf, List.length_filter_lt_length_iff_exists]
  simp only [HidesFill, Bool.not_eq_true]

end Attributes

/-! ## Counting fills -/

theorem Json.length_itemsAsWritten (items : List Json) :
    (itemsAsWritten items).length = items.length := by
  induction items with
  | nil => rfl
  | cons j items ih => rw [itemsAsWritten, List.length_cons, List.length_cons, ih]

namespace StyleValue

def fillCount : StyleValue → Nat
  | fills fs => fs.length
  | _ => 0

theorem fillCount_of_category_ne {v : StyleValue} (h : v.category ≠ .fill) : v.fillCount = 0 := by
  cases v with
  | fills fs => exact absurd rfl h
  | _ => rfl

/-- The canonical text tells the number of fills, even of such as are not written in full. -/
theorem fillCount_eq_of_key_eq {v w : StyleValue} (h : v.key = w.key) :
    v.fillCount = w.fillCount := by
  obtain ⟨hcategory, htext⟩ := key_eq_iff.mp h
  by_cases hfill : v.category = .fill
  · cases v with
    | fills fs =>
      cases w with
      | fills gs =>
        have hitems := Json.array.inj (Json.asWritten_eq_of_compact_eq htext)
        have hlength := congrArg List.length hitems
        rwa [Json.length_itemsAsWritten, Json.length_itemsAsWritten, List.length_map,
          List.length_map] at hlength
      | _ => cases hcategory
    | _ => cases hfill
  · rw [fillCount_of_category_ne hfill, fillCount_of_category_ne (hcategory ▸ hfill)]

/-- What styles tell by their keys is the same of lists with the same keys. -/
theorem map_eq_of_map_key_eq {β : Type} [Nonempty β] {g : StyleValue → β}
    (hg : ∀ v w, v.key = w.key → g v = g w) {vs ws : List StyleValue}
    (h : vs.map key = ws.map key) : vs.map g = ws.map g := by
  obtain ⟨e, rfl⟩ := (Function.factorsThrough_iff g).mp hg
  rw [← List.map_map, h, List.map_map]

end StyleValue

namespace Facets

theorem fills_ofNode (n : Node) (parent : Option Attributes) :
    (ofNode n parent).fills =
      (nonempty? n.attributes.fills).map fun ps => .fills (ps.map Fill.ofPaint) := rfl

/-- A node has fills in a brief just if it has any, shown or not. -/
theorem fills_ofNode_eq_none_iff (n : Node) (parent : Option Attributes) :
    (ofNode n parent).fills = none ↔ n.attributes.fills.getD [] = [] := by
  rw [fills_ofNode, Option.map_eq_none_iff, ← getD_nonempty?]
  cases h : nonempty? n.attributes.fills with
  | none => simp
  | some ps => simpa using (nonempty?_eq_some_iff.mp h).2

/-- All fills of a node are told, shown or not. -/
theorem sum_fillCount_fills (n : Node) (parent : Option Attributes) :
    ((ofNode n parent).fills.toList.map StyleValue.fillCount).sum =
      (n.attributes.fills.getD []).length := by
  rw [fills_ofNode, ← getD_nonempty?]
  cases nonempty? n.attributes.fills with
  | none => rfl
  | some ps => simp [StyleValue.fillCount]

theorem sum_fillCount_of_category_ne {o : Option StyleValue} {k : Category} (hk : k ≠ .fill)
    (h : ∀ v ∈ o, v.category = k) : (o.toList.map StyleValue.fillCount).sum = 0 := by
  cases o with
  | none => rfl
  | some v => simp [StyleValue.fillCount_of_category_ne (h v rfl ▸ hk)]

theorem sum_fillCount_refs (n : Node) (parent : Option Attributes) :
    ((ofNode n parent).refs.map StyleValue.fillCount).sum =
      (n.attributes.fills.getD []).length := by
  have hclass := placed_ofNode n parent
  simp only [refs, List.map_append, List.sum_append, sum_fillCount_fills,
    sum_fillCount_of_category_ne (by decide) hclass.textStyle,
    sum_fillCount_of_category_ne (by decide) hclass.strokes,
    sum_fillCount_of_category_ne (by decide) hclass.effects,
    sum_fillCount_of_category_ne (by decide) hclass.layout, Nat.zero_add, Nat.add_zero]

/-- The fills of a node are told as if it had only those that are shown just if it has no others. -/
theorem fills_withShownFills_iff (a : Attributes) (children : Option (List Node))
    (parent : Option Attributes) :
    (ofNode ⟨a.withShownFills, children⟩ parent).fills = (ofNode ⟨a, children⟩ parent).fills ↔
      ¬ a.HidesFill := by
  constructor
  · intro h hhides
    have hcount := sum_fillCount_fills ⟨a.withShownFills, children⟩ parent
    rw [h, sum_fillCount_fills] at hcount
    exact absurd hcount (Nat.ne_of_gt (Attributes.length_shownFills_lt_iff.mpr hhides))
  · intro h
    rw [Attributes.withShownFills_eq_self h]

end Facets

/-! ## The walk -/

theorem sum_fillCount_refsAll (limit : DepthLimit) (parent : Option Attributes) (ns : List Node) :
    ((BriefNode.refsAll (Node.inPlaceAll limit parent ns)).map StyleValue.fillCount).sum =
      ((Node.visitsAll limit parent ns).map fun v => (v.1.attributes.fills.getD []).length).sum := by
  rw [Node.refsAll_inPlaceAll]
  induction Node.visitsAll limit parent ns with
  | nil => rfl
  | cons v vs ih =>
    rw [List.flatMap_cons, List.map_append, List.sum_append, ih, Facets.sum_fillCount_refs,
      List.map_cons, List.sum_cons]

/-- If two trees have the same brief, the walk comes to as many fills in the one as in the other. -/
theorem sum_length_fills_eq {hash : TextHash} {limit : DepthLimit} {ns ms : List Node}
    (hns : Node.sizeAll ns < 2 ^ 32) (hms : Node.sizeAll ms < 2 ^ 32)
    (h : briefTreeBy hash limit ns = briefTreeBy hash limit ms) :
    ((Node.visitsAll limit none ns).map fun v => (v.1.attributes.fills.getD []).length).sum =
      ((Node.visitsAll limit none ms).map fun v => (v.1.attributes.fills.getD []).length).sum := by
  have hfound {roots : List Node} (hsize : Node.sizeAll roots < 2 ^ 32) :
      (BriefNode.refsAll (briefTreeBy hash limit roots).1).map
          (fun id => ((briefTreeBy hash limit roots).2.get? id).map StyleValue.key) =
        ((BriefNode.refsAll (Node.inPlaceAll limit none roots)).map StyleValue.key).map some := by
    have hnd := nodup_ids_briefTreeBy hash limit hsize
    rw [table_briefTreeBy] at hnd
    rw [refsAll_briefTreeBy, table_briefTreeBy]
    exact StyleStore.map_get?_resolveAll hnd
  have hkeys := hfound hns
  rw [h, hfound hms] at hkeys
  have hsame := List.map_injective_iff.mpr (fun _ _ e => Option.some.inj e) hkeys
  rw [← sum_fillCount_refsAll, ← sum_fillCount_refsAll,
    StyleValue.map_eq_of_map_key_eq (fun _ _ => StyleValue.fillCount_eq_of_key_eq) hsame]

/-- Without the fills that are not shown, a tree keeps its brief just if the walk comes to no such
fill. -/
theorem briefTreeBy_withShownFills_iff (hash : TextHash) (limit : DepthLimit) {roots : List Node}
    (hsize : Node.sizeAll roots < 2 ^ 32) :
    briefTreeBy hash limit (Node.mapAttributesAll Attributes.withShownFills roots) =
        briefTreeBy hash limit roots ↔
      ∀ v ∈ Node.visitsAll limit none roots, ¬ v.1.attributes.HidesFill := by
  constructor
  · intro h v hv hhides
    have hsize' : Node.sizeAll (Node.mapAttributesAll Attributes.withShownFills roots) < 2 ^ 32 := by
      rwa [Node.sizeAll_mapAttributesAll]
    have hsum := sum_length_fills_eq hsize' hsize h
    have hvisits := Node.visitsAll_mapAttributesAll (f := Attributes.withShownFills) (fun _ => rfl)
      limit none roots
    rw [Option.map_none] at hvisits
    rw [hvisits, List.map_map] at hsum
    refine Nat.ne_of_lt (List.sum_lt_sum _ _ (fun w _ => ?_) ⟨v, hv, ?_⟩) hsum
    · rw [Function.comp_apply, Node.attributes_mapAttributes]
      exact w.1.attributes.length_shownFills_le
    · rw [Function.comp_apply, Node.attributes_mapAttributes]
      exact Attributes.length_shownFills_lt_iff.mpr hhides
  · intro h
    refine briefTreeBy_congr hash limit ?_
    refine Node.inPlaceAll_mapAttributesAll (f := Attributes.withShownFills) (fun _ => rfl) limit
      none roots fun v hv => ?_
    rw [Node.ofNode_mapAttributes (f := Attributes.withShownFills) (fun _ => ⟨rfl, rfl, rfl⟩)
      (fun _ => ⟨rfl, rfl⟩), Attributes.withShownFills_eq_self (h v hv)]
    rfl

/-- What is hidden, left out all over a tree. Of strokes and effects nothing is missed. Of fills it
is missed just if the walk comes to one, at the very node that has it: for a fill it makes no
difference whether it is shown. -/
theorem briefTreeBy_withoutHidden (hash : TextHash) (limit : DepthLimit) (roots : List Node)
    (hsize : Node.sizeAll roots < 2 ^ 32) :
    briefTreeBy hash limit (Node.mapAttributesAll Attributes.withShownStrokes roots) =
        briefTreeBy hash limit roots ∧
      (briefTreeBy hash limit (Node.mapAttributesAll Attributes.withShownFills roots) =
          briefTreeBy hash limit roots ↔
        ∀ v ∈ Node.visitsAll limit none roots, ¬ v.1.attributes.HidesFill) ∧
      (∀ a children parent,
        ((Facets.ofNode ⟨a.withShownFills, children⟩ parent).fills =
            (Facets.ofNode ⟨a, children⟩ parent).fills ↔ ¬ a.HidesFill) ∧
          ((Facets.ofNode ⟨a, children⟩ parent).fills = none ↔ a.fills.getD [] = [])) ∧
      briefTreeBy hash limit (Node.mapAttributesAll Attributes.withBareFills roots) =
        briefTreeBy hash limit roots :=
  ⟨briefTreeBy_mapAttributesAll Attributes.exchangeable_withShownStrokes hash limit roots,
    briefTreeBy_withShownFills_iff hash limit hsize,
    fun a children parent => ⟨Facets.fills_withShownFills_iff a children parent,
      Facets.fills_ofNode_eq_none_iff ⟨a, children⟩ parent⟩,
    briefTreeBy_mapAttributesAll Attributes.exchangeable_withBareFills hash limit roots⟩

/-- A hidden stroke, a hidden effect, and a hidden fill that is missed only if the walk goes down to
it. -/
theorem briefTreeBy_withoutHidden_below :
    let roots : List Node :=
      [⟨{ id := "1", fills := some [{ kind := .image }]
          strokes := some [{ kind := .solid, visible := some false }]
          effects := some [{ kind := .layerBlur, visible := some false }] },
        some [⟨{ fills := some [{ kind := .solid, visible := some false }] }, none⟩]⟩]
    Node.sizeAll roots < 2 ^ 32 ∧
      briefTreeBy (fun _ => 0) none (Node.mapAttributesAll Attributes.withShownStrokes roots) =
        briefTreeBy (fun _ => 0) none roots ∧
      briefTreeBy (fun _ => 0) (some 0) (Node.mapAttributesAll Attributes.withShownFills roots) =
        briefTreeBy (fun _ => 0) (some 0) roots ∧
      briefTreeBy (fun _ => 0) none (Node.mapAttributesAll Attributes.withShownFills roots) ≠
        briefTreeBy (fun _ => 0) none roots := by
  intro roots
  have hsize : Node.sizeAll roots < 2 ^ 32 := by decide
  obtain ⟨-, habove, -⟩ := briefTreeBy_withoutHidden (fun _ => 0) (some 0) roots hsize
  obtain ⟨hstrokes, hbelow, -⟩ := briefTreeBy_withoutHidden (fun _ => 0) none roots hsize
  exact ⟨hsize, hstrokes, habove.mpr (by decide), mt hbelow.mp (by decide)⟩

/-- A node that has nothing but a hidden fill refers to it all the same. -/
theorem briefTree_hidden_fill :
    let a : Attributes := { id := "1", fills := some [{ kind := .solid, visible := some false }] }
    briefTree none [⟨a, none⟩] =
        ([⟨{ id := "1", name := "", kind := "", fills := some ⟨.fill, 1⟩ }, []⟩],
          ⟨#[(⟨.fill, 1⟩, .fills [.plain .solid])]⟩) ∧
      briefTree none [⟨a.withShownFills, none⟩] =
        ([⟨{ id := "1", name := "", kind := "" }, []⟩], {}) := by
  intro a
  constructor
  · cbv
  · cbv

end DesignBrief
