import DesignBrief.Proofs.InPlace
import Mathlib.Data.List.Induction

/-!
Roots behind other roots. A run leaves in a table that is filled already the same new styles, in the
same order, that it would leave in an empty one: `StyleStore.styles_after_append`. So roots that are
put behind others renumber nothing: `briefTreeBy_append`.
-/

namespace DesignBrief

def StyleTable.styles (t : StyleTable) : List StyleValue := t.toList.map (·.2)

/-- What the styles of a table say, in their order. -/
def StyleTable.keys (t : StyleTable) : List (Category × String) := t.styles.map StyleValue.key

theorem StyleTable.length_styles (t : StyleTable) : t.styles.length = t.size := by
  rw [styles, List.length_map, size_eq_length]

/-! ## Runs behind other runs -/

namespace StyleStore

theorem styles_after_concat (hash : TextHash) (vs : List StyleValue) (v : StyleValue) :
    (after hash (vs ++ [v])).table.styles =
      (after hash vs).table.styles ++
        if v.key ∈ (after hash vs).table.keys then [] else [v] := by
  have hcall := linear_resolve (indexed_after hash vs) v
  have htable := congrArg (fun r => r.2.table.styles) hcall
  rw [after_concat]
  refine htable.symm.trans ?_
  have hkeys : (after hash vs).linear.table.entryOf? v = none ↔
      v.key ∉ (after hash vs).table.keys := by
    rw [StyleTable.entryOf?_eq_none_iff, StyleTable.keys, StyleTable.styles, List.map_map]
    rfl
  cases hv : (after hash vs).linear.table.entryOf? v with
  | some e =>
    have hmem : v.key ∈ (after hash vs).table.keys := by
      by_contra hnot
      rw [hkeys.mpr hnot] at hv
      cases hv
    rw [LinearStore.resolve_of_some hv, if_pos hmem, List.append_nil]
    rfl
  | none =>
    rw [LinearStore.resolve_of_none hv, if_neg (hkeys.mp hv), StyleTable.styles,
      StyleTable.toList_push, List.map_append]
    rfl

/-- A run leaves a style for everything that was said in it, and for nothing else. -/
theorem mem_keys_after {hash : TextHash} {vs : List StyleValue} {key : Category × String} :
    key ∈ (after hash vs).table.keys ↔ key ∈ vs.map StyleValue.key := by
  induction vs using List.reverseRecOn with
  | nil => exact Iff.rfl
  | append_singleton vs v ih =>
    rw [List.map_append, List.mem_append, ← ih, List.map_singleton, List.mem_singleton,
      StyleTable.keys, styles_after_concat, List.map_append, List.mem_append, ← StyleTable.keys]
    split
    · rename_i hold
      simp only [List.map_nil, List.not_mem_nil, or_false]
      exact ⟨.inl, fun h => h.elim id fun hkey => hkey ▸ hold⟩
    · rw [List.map_singleton, List.mem_singleton]

/-- Behind other styles a run leaves what it would leave in an empty table, except for what is there
already. -/
theorem styles_after_append (hash : TextHash) (sooner later : List StyleValue) :
    (after hash (sooner ++ later)).table.styles =
      (after hash sooner).table.styles ++
        (after hash later).table.styles.filter (·.key ∉ (after hash sooner).table.keys) := by
  induction later using List.reverseRecOn with
  | nil =>
    rw [List.append_nil]
    exact (List.append_nil _).symm
  | append_singleton later v ih =>
    -- The last style is new behind both runs if it is new behind either.
    have hboth : v.key ∈ (after hash (sooner ++ later)).table.keys ↔
        v.key ∈ (after hash sooner).table.keys ∨ v.key ∈ (after hash later).table.keys := by
      simp only [mem_keys_after, List.map_append, List.mem_append]
    rw [← List.append_assoc, styles_after_concat, ih, styles_after_concat hash later,
      List.filter_append, List.append_assoc]
    refine congrArg _ (congrArg _ ?_)
    by_cases hsooner : v.key ∈ (after hash sooner).table.keys <;>
      by_cases hlater : v.key ∈ (after hash later).table.keys <;>
      simp [hboth, hsooner, hlater]

end StyleStore

/-! ## Roots behind other roots -/

theorem Node.inPlaceAll_append (limit : DepthLimit) (parent : Option Attributes)
    (ns ms : List Node) :
    inPlaceAll limit parent (ns ++ ms) =
      inPlaceAll limit parent ns ++ inPlaceAll limit parent ms := by
  induction ns with
  | nil => rfl
  | cons n ns ih =>
    rw [List.cons_append, inPlaceAll, inPlaceAll, ih]
    split
    · rw [List.append_assoc]
    · rfl

/-- How the brief of a list of roots, with other roots put behind it, is made up of the briefs of
both lists: the first one stands at its front as it is, and of the styles of the second one those
are added, in their order, that the first one does not have. -/
structure Continues (first others both : List (BriefNode StyleId) × StyleTable) : Prop where
  nodes : first.1 <+: both.1
  entries : first.2.toList <+: both.2.toList
  added : both.2.styles.drop first.2.size = others.2.styles.filter (·.key ∉ first.2.keys)
  /-- Behind the first nodes stand the others, if it does not matter which styles they refer to. -/
  behind : BriefNode.shapeAll (both.1.drop first.1.length) = BriefNode.shapeAll others.1

theorem nodes_briefTreeBy_append (hash : TextHash) (limit : DepthLimit) (first others : List Node) :
    (briefTreeBy hash limit first).1 <+: (briefTreeBy hash limit (first ++ others)).1 := by
  rw [briefTreeBy, briefTreeBy, Node.briefs_append]
  exact List.prefix_append _ _

/-- Whatever the hash and the limit, roots that are put behind others leave their nodes, their ids
and their part of the table as they are. -/
theorem briefTreeBy_append (hash : TextHash) (limit : DepthLimit) (first others : List Node) :
    Continues (briefTreeBy hash limit first) (briefTreeBy hash limit others)
      (briefTreeBy hash limit (first ++ others)) := by
  have hnodes := nodes_briefTreeBy_append hash limit first others
  have hrefs : BriefNode.refsAll (Node.inPlaceAll limit none (first ++ others)) =
      BriefNode.refsAll (Node.inPlaceAll limit none first) ++
        BriefNode.refsAll (Node.inPlaceAll limit none others) := by
    rw [Node.inPlaceAll_append, BriefNode.refsAll_append]
  constructor
  case nodes => exact hnodes
  case entries =>
    rw [table_briefTreeBy, table_briefTreeBy, hrefs]
    exact StyleStore.prefix_after hash _ _
  case added =>
    rw [table_briefTreeBy, table_briefTreeBy, table_briefTreeBy, hrefs,
      StyleStore.styles_after_append, ← StyleTable.length_styles, List.drop_left]
  case behind =>
    obtain ⟨rest, hrest⟩ := hnodes
    have hshape := shapeAll_briefTreeBy hash limit (first ++ others)
    rw [← hrest, Node.inPlaceAll_append, BriefNode.shapeAll, BriefNode.shapeAll,
      BriefNode.mapAll_append, BriefNode.mapAll_append, ← BriefNode.shapeAll,
      ← BriefNode.shapeAll, shapeAll_briefTreeBy hash limit first] at hshape
    rw [← hrest, List.drop_left, shapeAll_briefTreeBy hash limit others]
    exact List.append_cancel_left hshape

end DesignBrief
