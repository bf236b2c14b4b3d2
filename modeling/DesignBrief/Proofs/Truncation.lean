import DesignBrief.Proofs.FirstUse
import DesignBrief.Proofs.Survivors

/-!
What a depth limit does to a brief. It cuts off what hangs from the nodes at that depth, and the
nodes above of which nothing remains are dropped, from the leaves up; the nodes that stay show the
same styles, although the two tables may number them differently: `briefTreeBy_truncated`. A limit
that no node lies below changes nothing.
-/

namespace DesignBrief

/-! ## Cutting and trimming forests -/

namespace BriefNode

variable {ρ σ : Type}

mutual

/-- A tree without what hangs from its nodes at a depth. -/
def cut (depth : Nat) : BriefNode ρ → BriefNode ρ
  | ⟨t, children⟩ =>
    ⟨t, match depth with
      | 0 => []
      | depth + 1 => cutAll depth children⟩
termination_by structural n => n

def cutAll (depth : Nat) : List (BriefNode ρ) → List (BriefNode ρ)
  | [] => []
  | n :: rest => n.cut depth :: cutAll depth rest
termination_by structural ns => ns

end

/-- What is left of the children of a node, which lie one generation deeper. -/
def cutBelow (depth : Nat) (children : List (BriefNode ρ)) : List (BriefNode ρ) :=
  match depth with
  | 0 => []
  | depth + 1 => cutAll depth children

mutual

/-- Drops the nodes of a tree in which there is nothing, from the leaves up. -/
def trim : BriefNode ρ → Option (BriefNode ρ)
  | ⟨t, children⟩ => keep ⟨t, trimAll children⟩
termination_by structural n => n

def trimAll : List (BriefNode ρ) → List (BriefNode ρ)
  | [] => []
  | n :: rest => n.trim.toList ++ trimAll rest
termination_by structural ns => ns

end

theorem cutAll_cons (depth : Nat) (t : Facets ρ) (children rest : List (BriefNode ρ)) :
    cutAll depth (⟨t, children⟩ :: rest) = ⟨t, cutBelow depth children⟩ :: cutAll depth rest := by
  cases depth <;> rfl

theorem trimAll_cons (t : Facets ρ) (children rest : List (BriefNode ρ)) :
    trimAll (⟨t, children⟩ :: rest) = (keep ⟨t, trimAll children⟩).toList ++ trimAll rest := rfl

theorem cutAll_append (depth : Nat) (ns ms : List (BriefNode ρ)) :
    cutAll depth (ns ++ ms) = cutAll depth ns ++ cutAll depth ms := by
  induction ns with
  | nil => rfl
  | cons n ns ih => simp only [List.cons_append, cutAll, ih]

theorem trimAll_append (ns ms : List (BriefNode ρ)) :
    trimAll (ns ++ ms) = trimAll ns ++ trimAll ms := by
  induction ns with
  | nil => rfl
  | cons n ns ih => simp only [List.cons_append, trimAll, ih, List.append_assoc]

/-- A node that was dropped before the cut has nothing left after it. -/
theorem trimAll_cutAll_keep (depth : Nat) (t : Facets ρ) (children : List (BriefNode ρ)) :
    trimAll (cutAll depth (keep ⟨t, children⟩).toList) =
      (keep ⟨t, trimAll (cutBelow depth children)⟩).toList := by
  cases hb : isBlank ⟨t, children⟩ with
  | false =>
    rw [keep, hb, if_neg Bool.false_ne_true, Option.toList_some, cutAll_cons, trimAll_cons]
    exact List.append_nil _
  | true =>
    obtain ⟨ht, hc⟩ : t.isBlank = true ∧ children = [] := by simpa [isBlank] using hb
    have hnil : trimAll (cutBelow depth children) = [] := by
      rw [hc]
      cases depth <;> rfl
    rw [hnil, ← hc, keep, hb]
    rfl

/-! ### Exchanging references -/

theorem mapAll_cutAll (f : ρ → σ) (depth : Nat) (ns : List (BriefNode ρ)) :
    mapAll f (cutAll depth ns) = cutAll depth (mapAll f ns) := by
  induction ns using forest_induction generalizing depth with
  | nil => rfl
  | cons t children rest ihc ihr =>
    have hbelow : mapAll f (cutBelow depth children) = cutBelow depth (mapAll f children) := by
      cases depth with
      | zero => rfl
      | succ depth => exact ihc depth
    rw [cutAll_cons, mapAll_cons, mapAll_cons, cutAll_cons, hbelow, ihr]

theorem mapAll_keep (f : ρ → σ) (t : Facets ρ) (children : List (BriefNode ρ)) :
    mapAll f (keep ⟨t, children⟩).toList = (keep ⟨t.map f, mapAll f children⟩).toList := by
  have hblank : isBlank ⟨t.map f, mapAll f children⟩ = isBlank ⟨t, children⟩ :=
    isBlank_congr (Facets.shape_map f t) (shapeAll_mapAll f children)
  rw [keep, keep, hblank]
  split <;> rfl

/-- Whether there is anything in a node does not depend on which styles it refers to. -/
theorem mapAll_trimAll (f : ρ → σ) (ns : List (BriefNode ρ)) :
    mapAll f (trimAll ns) = trimAll (mapAll f ns) := by
  induction ns using forest_induction with
  | nil => rfl
  | cons t children rest ihc ihr =>
    rw [trimAll_cons, mapAll_append, mapAll_keep, mapAll_cons, trimAll_cons, ihc, ihr]

end BriefNode

/-! ## The walk under a limit -/

namespace Node

/-- To stop at a depth comes to the same as to cut there afterwards. -/
theorem inPlaceAll_some (depth : Nat) (parent : Option Attributes) (ns : List Node) :
    inPlaceAll (some depth) parent ns =
      BriefNode.trimAll (BriefNode.cutAll depth (inPlaceAll none parent ns)) := by
  induction ns using Node.forest_induction generalizing depth parent with
  | nil => rfl
  | cons a children rest ihc ihr =>
    have hbelow : inPlaceBelow (some depth) a (children.getD []) =
        BriefNode.trimAll
          (BriefNode.cutBelow depth (inPlaceBelow none a (children.getD []))) := by
      cases depth with
      | zero => rfl
      | succ depth => exact ihc depth (some a)
    rw [inPlaceAll, inPlaceAll]
    split
    · rw [inPlace_eq, inPlace_eq, BriefNode.cutAll_append, BriefNode.trimAll_append,
        BriefNode.trimAll_cutAll_keep, ← hbelow, ihr]
    · exact ihr depth parent

/-- A limit below which no node lies is none. -/
theorem inPlaceAll_eq_of_depth_le {depth : Nat} (above : List Node) {ns : List Node}
    (h : ∀ s ∈ spotsAll above ns, s.depth ≤ above.length + depth) (parent : Option Attributes) :
    inPlaceAll (some depth) parent ns = inPlaceAll none parent ns := by
  induction ns using Node.forest_induction generalizing depth above parent with
  | nil => rfl
  | cons a children rest ihc ihr =>
    rw [spotsAll, spots_eq, List.forall_mem_append, List.forall_mem_cons] at h
    obtain ⟨⟨_, hchildren⟩, hrest⟩ := h
    have hbelow : inPlaceBelow (some depth) a (children.getD []) =
        inPlaceBelow none a (children.getD []) := by
      cases depth with
      | zero =>
        -- a child would stand one deeper than its parent
        have hnone : children.getD [] = [] := by
          refine List.eq_nil_iff_forall_not_mem.mpr fun child hchild => ?_
          have hle := hchildren _ (mem_spotsAll_of_mem hchild)
          simp only [Spot.depth, List.length_cons] at hle
          omega
        rw [hnone]
        rfl
      | succ depth =>
        refine ihc (⟨a, children⟩ :: above) (fun s hs => ?_) (some a)
        have hle := hchildren s hs
        rw [List.length_cons]
        omega
    rw [inPlaceAll, inPlaceAll, inPlace_eq, inPlace_eq, hbelow, ihr above hrest]

end Node

/-! ## Briefs under a limit -/

/-- The forest of a brief with the style that an id leads to in the place of the id. -/
def lookedUp (brief : List (BriefNode StyleId) × StyleTable) :
    List (BriefNode (Option StyleValue)) :=
  BriefNode.mapAll brief.2.get? brief.1

/-- A forest with what its styles say in their place. -/
def sayings (forest : List (BriefNode (Option StyleValue))) :
    List (BriefNode (Option (Category × String))) :=
  BriefNode.mapAll (Option.map StyleValue.key) forest

/-- The styles that are looked up say what those say that the walk without a store leaves. -/
theorem sayings_lookedUp (hash : TextHash) (limit : DepthLimit) {roots : List Node}
    (hsize : Node.sizeAll roots < 2 ^ 32) :
    sayings (lookedUp (briefTreeBy hash limit roots)) =
      BriefNode.mapAll (some ∘ StyleValue.key) (Node.inPlaceAll limit none roots) := by
  have hnd := nodup_ids_briefTreeBy hash limit hsize
  rw [table_briefTreeBy] at hnd
  have hkeys := StyleStore.map_get?_resolveAll hnd
  rw [← refsAll_briefTreeBy, ← table_briefTreeBy, List.map_map] at hkeys
  rw [sayings, lookedUp, BriefNode.mapAll_mapAll]
  refine BriefNode.eq_of_shapeAll_refsAll ?_ ?_
  · rw [BriefNode.shapeAll_mapAll, BriefNode.shapeAll_mapAll, shapeAll_briefTreeBy]
  · rw [BriefNode.refsAll_mapAll, BriefNode.refsAll_mapAll]
    exact hkeys

/-- Every id of a brief leads to a style. -/
theorem isSome_of_mem_lookedUp (hash : TextHash) (limit : DepthLimit) {roots : List Node}
    (hsize : Node.sizeAll roots < 2 ^ 32) :
    ∀ style ∈ BriefNode.refsAll (lookedUp (briefTreeBy hash limit roots)), style.isSome := by
  intro style hstyle
  have hrefs := congrArg BriefNode.refsAll (sayings_lookedUp hash limit hsize)
  rw [sayings, BriefNode.refsAll_mapAll, BriefNode.refsAll_mapAll] at hrefs
  have hmem := List.mem_map_of_mem (f := Option.map StyleValue.key) hstyle
  rw [hrefs] at hmem
  obtain ⟨v, _, hv⟩ := List.mem_map.mp hmem
  cases style with
  | none => cases hv
  | some w => rfl

/-- What a limit at a depth makes of the brief of a list of roots without limit. -/
structure Truncated (hash : TextHash) (depth : Nat) (roots : List Node) : Prop where
  found : ∀ limit, ∀ style ∈ BriefNode.refsAll (lookedUp (briefTreeBy hash limit roots)),
    style.isSome
  shown : sayings (lookedUp (briefTreeBy hash (some depth) roots)) =
    sayings (BriefNode.trimAll
      (BriefNode.cutAll depth (lookedUp (briefTreeBy hash none roots))))
  /-- If no node lies below the limit, not even the ids change. -/
  unlimited : (∀ s ∈ Node.spotsAll [] roots, s.depth ≤ depth) →
    briefTreeBy hash (some depth) roots = briefTreeBy hash none roots

/-- A limit cuts off what lies below it, and drops what then has nothing in it. -/
theorem briefTreeBy_truncated (hash : TextHash) (depth : Nat) (roots : List Node)
    (hsize : Node.sizeAll roots < 2 ^ 32) : Truncated hash depth roots := by
  constructor
  case found => exact fun limit => isSome_of_mem_lookedUp hash limit hsize
  case shown =>
    calc sayings (lookedUp (briefTreeBy hash (some depth) roots))
      _ = BriefNode.mapAll (some ∘ StyleValue.key) (Node.inPlaceAll (some depth) none roots) :=
        sayings_lookedUp hash (some depth) hsize
      _ = BriefNode.trimAll (BriefNode.cutAll depth
            (BriefNode.mapAll (some ∘ StyleValue.key) (Node.inPlaceAll none none roots))) := by
        rw [Node.inPlaceAll_some, BriefNode.mapAll_trimAll, BriefNode.mapAll_cutAll]
      _ = BriefNode.trimAll (BriefNode.cutAll depth
            (sayings (lookedUp (briefTreeBy hash none roots)))) := by
        rw [sayings_lookedUp hash none hsize]
      _ = sayings (BriefNode.trimAll
            (BriefNode.cutAll depth (lookedUp (briefTreeBy hash none roots)))) := by
        rw [sayings, sayings, BriefNode.mapAll_trimAll, BriefNode.mapAll_cutAll]
  case unlimited =>
    intro hdepth
    have hwalk : Node.inPlaceAll (some depth) none roots = Node.inPlaceAll none none roots := by
      refine Node.inPlaceAll_eq_of_depth_le [] (fun s hs => ?_) none
      rw [List.length_nil, Nat.zero_add]
      exact hdepth s hs
    rw [briefTreeBy_eq, briefTreeBy_eq, hwalk]

/-- Under the limit the first root and its child are dropped for want of the node that held them,
and the fill of the second root is numbered anew. -/
theorem briefTreeBy_truncated_dropped :
    let roots : List Node :=
      [⟨{}, some [⟨{}, some [⟨{ fills := some [{ kind := .solid }] }, none⟩]⟩]⟩,
        ⟨{ fills := some [{ kind := .image }] }, some [⟨{ id := "1" }, none⟩]⟩]
    Node.sizeAll roots < 2 ^ 32 ∧ Truncated (fun _ => 0) 1 roots := by
  intro roots
  exact ⟨by decide, briefTreeBy_truncated (fun _ => 0) 1 roots (by decide)⟩

end DesignBrief
