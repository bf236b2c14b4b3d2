import DesignBrief.Proofs.Matched
import DesignBrief.Proofs.Told

/-!
Hidden content does not leak. Two trees that differ only in what is not shown have one brief, ids
and table included: `briefTreeBy_eq_of_sameShown`. Through a hidden node nothing passes but what
its parent reads for the stretch test, and nothing at all if it is a root.
-/

namespace DesignBrief

namespace Attributes

/-- The same but for strokes and effects that are not shown. -/
structure SameShown (a b : Attributes) : Prop where
  strokes : shownOf (·.visible) a.strokes = shownOf (·.visible) b.strokes
  effects : shownOf (·.visible) a.effects = shownOf (·.visible) b.effects
  others : { a with strokes := none, effects := none } = { b with strokes := none, effects := none }

theorem SameShown.eq_update {a b : Attributes} (h : a.SameShown b) :
    b = { a with strokes := b.strokes, effects := b.effects } := by
  have hb : b = { { b with strokes := none, effects := none } with
      strokes := b.strokes, effects := b.effects } := rfl
  rw [← h.others] at hb
  exact hb

theorem SameShown.exchangeable {a b : Attributes} (h : a.SameShown b) : a.Exchangeable b := by
  have hb := h.eq_update
  have hstrokes := h.strokes
  have heffects := h.effects
  generalize b.strokes = strokes at hb hstrokes
  generalize b.effects = effects at hb heffects
  subst hb
  refine ⟨rfl, ⟨rfl, rfl, rfl⟩, ⟨rfl, rfl⟩, fun children parent => ?_⟩
  have hs : Stroke.ofAttributes a = Stroke.ofAttributes { a with strokes, effects } := by
    rw [Stroke.ofAttributes_eq, Stroke.ofAttributes_eq, hstrokes]
    rfl
  have he : Effects.ofAttributes a = Effects.ofAttributes { a with strokes, effects } :=
    Effects.ofAttributes_congr rfl heffects
  rw [Facets.ofNode, Facets.ofNode, hs, he]
  rfl

end Attributes

/-- Trees that match up to what is not shown have the same nodes in their briefs and the same table,
whatever the limit. -/
theorem briefTreeBy_eq_of_sameShown (hash : TextHash) (limit : DepthLimit) {ns ms : List Node}
    (h : Node.Matched Attributes.SameShown false ns ms) :
    briefTreeBy hash limit ns = briefTreeBy hash limit ms :=
  briefTreeBy_eq_of_matched (fun _ _ hab => hab.exchangeable) hash limit h

/-- A hidden root, a hidden child with all that hangs from it, and hidden strokes and effects in
other places leave no trace. -/
theorem briefTreeBy_eq_of_sameShown_column :
    let ns : List Node :=
      [⟨{ id := "1", layoutMode := some .vertical
          strokes := some [{ kind := .solid }, { kind := .image, visible := some false }] },
          some [⟨{ id := "2", visible := some false, sizeHorizontal := some .fill }, none⟩,
            ⟨{ id := "3", sizeHorizontal := some .fill }, none⟩]⟩,
        ⟨{ id := "4", visible := some false, positioning := some .absolute }, none⟩]
    let ms : List Node :=
      [⟨{ id := "1", layoutMode := some .vertical
          strokes := some [{ kind := .emoji, visible := some false }, { kind := .solid }]
          effects := some [{ kind := .layerBlur, visible := some false }] },
          some [⟨{ visible := some false, sizeHorizontal := some .fill, opacity := some 0.5 },
              some [⟨{ id := "5", fills := some [{ kind := .solid }] }, none⟩]⟩,
            ⟨{ id := "3", sizeHorizontal := some .fill }, none⟩]⟩,
        ⟨{ visible := some false, name := "draft" }, some [⟨{ id := "6" }, none⟩]⟩]
    Node.Matched Attributes.SameShown false ns ms ∧
      briefTreeBy (fun _ => 0) (some 2) ns = briefTreeBy (fun _ => 0) (some 2) ms := by
  intro ns ms
  have hmatched : Node.Matched Attributes.SameShown false ns ms := by
    refine .shown rfl ⟨rfl, rfl, rfl⟩ ?_ ?_
    · refine .hidden rfl rfl (fun _ => ⟨rfl, rfl, rfl⟩) ?_
      exact .shown rfl ⟨rfl, rfl, rfl⟩ .nil .nil
    · exact .hidden rfl rfl (fun h => by cases h) .nil
  exact ⟨hmatched, briefTreeBy_eq_of_sameShown (fun _ => 0) (some 2) hmatched⟩

-- What a hidden child is asked for cannot be left out: it takes part in the stretch test.
example :
    Layout.ofNode ⟨{ layoutMode := some .vertical },
        some [⟨{ visible := some false, sizeHorizontal := some .fill }, none⟩]⟩ none ≠
      Layout.ofNode ⟨{ layoutMode := some .vertical },
        some [⟨{ visible := some false, sizeHorizontal := some .hug }, none⟩]⟩ none := by
  decide

end DesignBrief
