import DesignBrief.Proofs.InRange

/-!
Infinities in a brief. No text that is read holds a number that is not finite, so the brief holds
none either, as such or in the notation of style sheets, unless the walk comes to a node of which
something that is computed leaves the range of doubles: `Brief.isFinite_of_ofText`. That can happen,
`Brief.exists_not_isFinite`.
-/

namespace DesignBrief

/-! ## The table and the brief -/

/-- What the walk finds of every node it comes to holds of the whole brief. -/
theorem finite_briefTreeBy (hash : TextHash) (limit : DepthLimit) {roots : List Node}
    (hroots : ∀ n ∈ roots, n.All (·.IsFinite))
    (hrange : ∀ v ∈ Node.visitsAll limit none roots, v.1.InRange v.2) :
    (∀ x ∈ BriefNode.walkAll 0 (briefTreeBy hash limit roots).1, x.2.facets.IsFinite) ∧
      ∀ e ∈ (briefTreeBy hash limit roots).2.toList, e.2.Regular := by
  have hvisits : ∀ v ∈ Node.visitsAll limit none roots, v.1.attributes.IsFinite :=
    Node.forall_visitsAll hroots
  constructor
  · have hshape := forall_walkAll_briefTreeBy (P := Facets.IsFinite) hash fun v hv =>
      have hfacets := Facets.isFinite_ofNode (hvisits v hv) v.2
      ⟨hfacets.opacity, hfacets.borderRadius⟩
    exact fun x hx => ⟨(hshape x hx).opacity, (hshape x hx).borderRadius⟩
  · exact forall_briefTreeBy hash fun v hv =>
      (Facets.regular_ofNode_iff (hvisits v hv) v.2).mpr (hrange v hv)

namespace BriefNode

theorem isFinite_members_iff {ρ : Type} {ref : ρ → Json} (href : ∀ r, (ref r).IsFinite)
    (f : Facets ρ) :
    (∀ m ∈ members ref f, ∀ j ∈ m.2, j.IsFinite) ↔ ∀ x ∈ f.opacity, x.isFinite = true := by
  simp only [members, List.forall_mem_cons, Option.forall_mem_map]
  simp [href]

theorem isFinite_listToJson_iff {ρ : Type} {ref : ρ → Json} (href : ∀ r, (ref r).IsFinite)
    (depth : Nat) (ns : List (BriefNode ρ)) :
    (∀ j ∈ listToJson ref ns, j.IsFinite) ↔
      ∀ x ∈ walkAll depth ns, ∀ o ∈ x.2.facets.opacity, o.isFinite = true := by
  induction ns using forest_induction generalizing depth with
  | nil => simp [listToJson, walkAll]
  | cons t children rest ihc ihr =>
    have hnode : (toJson ref ⟨t, children⟩).IsFinite ↔
        (∀ o ∈ t.opacity, o.isFinite = true) ∧ ∀ j ∈ listToJson ref children, j.IsFinite := by
      cases children with
      | nil =>
        rw [toJson, Json.isFinite_present_iff, isFinite_members_iff href]
        simp [listToJson]
      | cons n ns =>
        rw [toJson, Json.isFinite_present_iff, List.forall_mem_append, isFinite_members_iff href]
        simp [listToJson]
    rw [listToJson, List.forall_mem_cons, hnode, ihr depth, ihc (depth + 1), and_assoc,
      forall_walkAll_cons (P := fun t => ∀ o ∈ t.opacity, o.isFinite = true)]

end BriefNode

theorem StyleTable.isFinite_toJson_iff (t : StyleTable) :
    t.toJson.IsFinite ↔ ∀ e ∈ t.toList, e.2.toJson.IsFinite := by
  rw [toJson, Json.isFinite_object_iff, List.forall_mem_singleton, Json.isFinite_object_iff,
    List.forall_mem_map]
  rfl

/-! ## Texts -/

theorem toOption_eq_some_iff {ε α : Type} {x : Except ε α} {a : α} :
    x.toOption = some a ↔ x = .ok a := by
  cases x <;> simp [Except.toOption]

namespace Response

/-- The roots of the tree that stands in a text, if it can be read and there are any. -/
def rootsOfText? (s : String) : Option (List Node) :=
  (ofText s).toOption.bind (·.roots.toOption)

theorem rootsOfText?_eq_some_iff {s : String} {roots : List Node} :
    rootsOfText? s = some roots ↔ ∃ r, ofText s = .ok r ∧ r.roots = .ok roots := by
  simp only [rootsOfText?, Option.bind_eq_some_iff, toOption_eq_some_iff]

theorem allFinite_rootsOfText? {s : String} {roots : List Node}
    (h : rootsOfText? s = some roots) : ∀ n ∈ roots, n.All (·.IsFinite) := by
  obtain ⟨r, hr, hroots⟩ := rootsOfText?_eq_some_iff.mp h
  exact (allFinite_of_ofText hr).roots hroots

end Response

namespace Brief

/-- The texts of a brief that are written in the notation of style sheets. -/
def cssTexts (b : Brief) : List String :=
  (BriefNode.walkAll 0 b.nodes).flatMap (·.2.facets.borderRadius.toList) ++
    b.styles.toList.flatMap (·.2.cssTexts)

structure IsFinite (b : Brief) : Prop where
  numbers : ∀ x ∈ b.toJson.reals, x.isFinite = true
  written : ∀ x ∈ b.toJson.reals, (Number.real x).render ≠ "null"
  texts : ∀ t ∈ b.cssTexts, Css.Regular t

theorem isFinite_toJson_iff (b : Brief) :
    b.toJson.IsFinite ↔
      (∀ x ∈ BriefNode.walkAll 0 b.nodes, ∀ o ∈ x.2.facets.opacity, o.isFinite = true) ∧
        ∀ e ∈ b.styles.toList, e.2.toJson.IsFinite := by
  have hid (id : StyleId) : id.toJson.IsFinite := Json.isFinite_string id.text
  rw [toJson, Json.isFinite_object_iff, ← BriefNode.isFinite_listToJson_iff hid,
    ← StyleTable.isFinite_toJson_iff]
  simp only [List.forall_mem_cons, Json.isFinite_string, Json.isFinite_array_iff]
  simp

theorem isFinite_of_regular {b : Brief}
    (hnodes : ∀ x ∈ BriefNode.walkAll 0 b.nodes, x.2.facets.IsFinite)
    (hstyles : ∀ e ∈ b.styles.toList, e.2.Regular) : b.IsFinite := by
  have hnumbers : b.toJson.IsFinite := b.isFinite_toJson_iff.mpr
    ⟨fun x hx => (hnodes x hx).opacity, fun e he => (hstyles e he).numbers⟩
  refine ⟨hnumbers, fun x hx => Number.render_real_ne_null (hnumbers x hx), ?_⟩
  rw [cssTexts, List.forall_mem_append, List.forall_mem_flatMap, List.forall_mem_flatMap]
  constructor
  · intro x hx t ht
    exact ((hnodes x hx).borderRadius t (Option.mem_toList.mp ht)).regular
  · intro e he t ht
    exact ((hstyles e he).texts t ht).regular

theorem exists_roots_of_ofText {limit : DepthLimit} {s : String} {b : Brief}
    (h : ofText limit s = .ok b) :
    ∃ roots, Response.rootsOfText? s = some roots ∧
      b.nodes = (briefTree limit roots).1 ∧ b.styles = (briefTree limit roots).2 := by
  rw [ofText] at h
  cases hr : Response.ofText s with
  | error f =>
    rw [hr] at h
    cases h
  | ok r =>
    rw [hr] at h
    obtain ⟨roots, hroots, htree⟩ := Response.exists_roots_of_brief h
    exact ⟨roots, Response.rootsOfText?_eq_some_iff.mpr ⟨r, hr, hroots⟩, htree⟩

/-- The brief of a text tells only finite numbers, unless the walk comes to a node of which
something that is computed leaves the range of doubles. -/
theorem isFinite_of_ofText {limit : DepthLimit} {s : String} {b : Brief}
    (h : ofText limit s = .ok b)
    (hrange : ∀ roots ∈ Response.rootsOfText? s,
      ∀ v ∈ Node.visitsAll limit none roots, v.1.InRange v.2) :
    b.IsFinite := by
  obtain ⟨roots, hroots, hnodes, hstyles⟩ := exists_roots_of_ofText h
  have hfinite := Response.allFinite_rootsOfText? hroots
  obtain ⟨hwalk, htable⟩ :=
    finite_briefTreeBy TextHash.mixing limit hfinite (hrange roots hroots)
  refine isFinite_of_regular ?_ ?_
  · rw [hnodes]
    exact hwalk
  · rw [hstyles]
    exact htable

/-- A text of spaced letters, beside the corner of its parent. -/
theorem isFinite_of_ofText_spaced :
    let s := "\x7b\"document\":\x7b\"children\":[\x7b\"absoluteBoundingBox\":\x7b\x7d," ++
      "\"children\":[\x7b\"absoluteBoundingBox\":\x7b\"x\":1e3\x7d," ++
      "\"style\":\x7b\"fontSize\":16,\"letterSpacing\":-0.5\x7d\x7d]\x7d]\x7d\x7d"
    ∃ b, ofText (some 3) s = .ok b ∧
      (∀ roots ∈ Response.rootsOfText? s,
        ∀ v ∈ Node.visitsAll (some 3) none roots, v.1.InRange v.2) ∧ b.IsFinite := by
  intro s
  have hread : (ofText (some 3) s).toOption.isSome = true := by decide +kernel
  obtain ⟨b, hb⟩ := Option.isSome_iff_exists.mp hread
  rw [toOption_eq_some_iff] at hb
  have hrange : ∀ roots ∈ Response.rootsOfText? s,
      ∀ v ∈ Node.visitsAll (some 3) none roots, v.1.InRange v.2 := by
    decide +kernel
  exact ⟨b, hb, hrange, isFinite_of_ofText hb hrange⟩

/-- The letter spacing of a text is a double that leaves their range as a percentage, and is written
as an infinity. -/
theorem exists_not_isFinite :
    let s := "\x7b\"document\":\x7b\"children\":[\x7b\"id\":\"1\"," ++
      "\"style\":\x7b\"fontSize\":1,\"letterSpacing\":1e308\x7d\x7d]\x7d\x7d"
    ∃ b, ofText none s = .ok b ∧ ¬ b.IsFinite := by
  intro s
  let v : StyleValue := .text { fontSize := some 1, letterSpacing := some "inf%" }
  have hread : (ofText none s).toOption.isSome = true := by decide +kernel
  obtain ⟨b, hb⟩ := Option.isSome_iff_exists.mp hread
  rw [toOption_eq_some_iff] at hb
  obtain ⟨roots, hroots, -, hstyles⟩ := exists_roots_of_ofText hb
  have hrefs : ∀ roots ∈ Response.rootsOfText? s,
      BriefNode.refsAll (Node.inPlaceAll none none roots) = [v] := by
    decide +kernel
  have hkeys : ([v].map StyleValue.key).Nodup := List.nodup_singleton _
  have hstored : v ∈ (StyleStore.after TextHash.mixing [v]).table.toList.map (·.2) := by
    rw [StyleStore.map_snd_after TextHash.mixing hkeys]
    exact List.mem_singleton_self v
  obtain ⟨e, he, hev⟩ := List.mem_map.mp hstored
  refine ⟨b, hb, fun h => (h.texts "inf%" ?_).noInf (by decide)⟩
  rw [cssTexts, hstyles, briefTree, table_briefTreeBy, hrefs roots hroots, List.mem_append]
  refine .inr (List.mem_flatMap.mpr ⟨e, he, ?_⟩)
  rw [hev]
  decide

end Brief

end DesignBrief
