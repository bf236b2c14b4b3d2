import DesignBrief.Proofs.InPlace
import DesignBrief.Proofs.Preorder

/-!
The nodes that the walk comes to. All that a brief tells is told of one of them, below its parent:
`Node.exists_visit`. So what holds of every visit holds of the whole forest.
-/

namespace DesignBrief

mutual

/-- The nodes that the walk comes to from this one down, each with its parent. -/
def Node.visits (limit : DepthLimit) (parent : Option Attributes) :
    Node → List (Node × Option Attributes)
  | ⟨a, none⟩ => [(⟨a, none⟩, parent)]
  | ⟨a, some children⟩ =>
    (⟨a, some children⟩, parent) ::
      match limit.below with
      | some limit => Node.visitsAll limit (some a) children
      | none => []
termination_by structural n => n

def Node.visitsAll (limit : DepthLimit) (parent : Option Attributes) :
    List Node → List (Node × Option Attributes)
  | [] => []
  | n :: rest =>
    if n.attributes.isVisible then
      n.visits limit parent ++ Node.visitsAll limit parent rest
    else
      Node.visitsAll limit parent rest
termination_by structural ns => ns

end

/-- The nodes that the walk comes to below a node, if it goes down. -/
def Node.visitsBelow (limit : DepthLimit) (parent : Attributes) (children : List Node) :
    List (Node × Option Attributes) :=
  match limit.below with
  | some limit => Node.visitsAll limit (some parent) children
  | none => []

namespace Node

theorem visits_eq (limit : DepthLimit) (parent : Option Attributes) (a : Attributes)
    (children : Option (List Node)) :
    visits limit parent ⟨a, children⟩ =
      (⟨a, children⟩, parent) :: visitsBelow limit a (children.getD []) := by
  rcases limit with _ | _ | limit <;> cases children <;> rfl

theorem visitsAll_cons_of_visible {limit : DepthLimit} {parent : Option Attributes} {a : Attributes}
    {children : Option (List Node)} (rest : List Node) (h : a.isVisible = true) :
    visitsAll limit parent (⟨a, children⟩ :: rest) =
      (⟨a, children⟩, parent) ::
        (visitsBelow limit a (children.getD []) ++ visitsAll limit parent rest) := by
  rw [visitsAll, if_pos h, visits_eq]
  rfl

theorem visitsAll_cons_of_hidden {limit : DepthLimit} {parent : Option Attributes} {n : Node}
    (rest : List Node) (h : n.attributes.isVisible = false) :
    visitsAll limit parent (n :: rest) = visitsAll limit parent rest := by
  rw [visitsAll, h]
  rfl

end Node

theorem BriefNode.walkAll_keep_sublist {ρ : Type} (depth : Nat) (n : BriefNode ρ) :
    List.Sublist (walkAll depth n.keep.toList) (n.walk depth) := by
  rw [keep]
  split
  · exact List.nil_sublist _
  · simp [walkAll]

namespace Node

/-- All that the walk tells is told of a node that it comes to. -/
theorem exists_visit {limit : DepthLimit} {parent : Option Attributes} {ns : List Node}
    {depth : Nat} {x : Nat × BriefNode StyleValue}
    (hx : x ∈ BriefNode.walkAll depth (inPlaceAll limit parent ns)) :
    ∃ v ∈ visitsAll limit parent ns, x.2.facets = Facets.ofNode v.1 v.2 := by
  induction ns using Node.forest_induction generalizing limit parent depth x with
  | nil => cases hx
  | cons a children rest ihc ihr =>
    have hbelow : ∀ y ∈ BriefNode.walkAll (depth + 1) (inPlaceBelow limit a (children.getD [])),
        ∃ v ∈ visitsBelow limit a (children.getD []), y.2.facets = Facets.ofNode v.1 v.2 := by
      intro y hy
      rw [inPlaceBelow] at hy
      rw [visitsBelow]
      cases hlimit : limit.below with
      | none =>
        rw [hlimit] at hy
        cases hy
      | some limit =>
        rw [hlimit] at hy
        exact ihc hy
    rw [inPlaceAll] at hx
    cases ha : a.isVisible with
    | false =>
      rw [visitsAll_cons_of_hidden rest ha]
      rw [ha] at hx
      exact ihr hx
    | true =>
      rw [visitsAll_cons_of_visible rest ha]
      rw [ha, if_pos rfl, inPlace_eq, BriefNode.walkAll_append, List.mem_append] at hx
      rcases hx with hfirst | hrest
      · have hwalk := (BriefNode.walkAll_keep_sublist depth _).subset hfirst
        rw [BriefNode.walk, List.mem_cons] at hwalk
        rcases hwalk with rfl | hy
        · exact ⟨_, List.mem_cons_self, rfl⟩
        · obtain ⟨v, hv, hxv⟩ := hbelow x hy
          exact ⟨v, List.mem_cons_of_mem _ (List.mem_append_left _ hv), hxv⟩
      · obtain ⟨v, hv, hxv⟩ := ihr hrest
        exact ⟨v, List.mem_cons_of_mem _ (List.mem_append_right _ hv), hxv⟩

end Node

namespace Node

/-- The styles of the forest are those of the nodes that the walk comes to, one after the other:
what is dropped has none. -/
theorem refsAll_inPlaceAll (limit : DepthLimit) (parent : Option Attributes) (ns : List Node) :
    BriefNode.refsAll (inPlaceAll limit parent ns) =
      (visitsAll limit parent ns).flatMap fun v => (Facets.ofNode v.1 v.2).refs := by
  induction ns using Node.forest_induction generalizing limit parent with
  | nil => rfl
  | cons a children rest ihc ihr =>
    have hbelow : BriefNode.refsAll (inPlaceBelow limit a (children.getD [])) =
        (visitsBelow limit a (children.getD [])).flatMap fun v => (Facets.ofNode v.1 v.2).refs := by
      rw [inPlaceBelow, visitsBelow]
      cases limit.below with
      | none => rfl
      | some limit => exact ihc limit (some a)
    rw [inPlaceAll]
    cases ha : a.isVisible with
    | false =>
      rw [visitsAll_cons_of_hidden rest ha, if_neg Bool.false_ne_true]
      exact ihr limit parent
    | true =>
      rw [visitsAll_cons_of_visible rest ha, if_pos rfl, inPlace_eq, BriefNode.refsAll_append,
        BriefNode.refsAll_keep, hbelow, ihr limit parent, List.flatMap_cons, List.flatMap_append,
        List.append_assoc]

end Node

/-- What holds of every node that the walk comes to, whatever styles it refers to, holds of all
nodes of the brief. -/
theorem forall_walkAll_briefTreeBy {P : Facets Unit → Prop} (hash : TextHash) {limit : DepthLimit}
    {roots : List Node}
    (h : ∀ v ∈ Node.visitsAll limit none roots, P (Facets.ofNode v.1 v.2).shape) :
    ∀ x ∈ BriefNode.walkAll 0 (briefTreeBy hash limit roots).1, P x.2.facets.shape := by
  refine BriefNode.forall_walkAll_mapAll.mp ?_
  rw [← BriefNode.shapeAll, shapeAll_briefTreeBy]
  refine BriefNode.forall_walkAll_mapAll.mpr fun x hx => ?_
  obtain ⟨v, hv, hxv⟩ := Node.exists_visit hx
  rw [hxv]
  exact h v hv

/-- What holds of the styles of every node that the walk comes to holds of the whole table. -/
theorem forall_briefTreeBy {P : StyleValue → Prop} (hash : TextHash) {limit : DepthLimit}
    {roots : List Node}
    (h : ∀ v ∈ Node.visitsAll limit none roots, ∀ s ∈ (Facets.ofNode v.1 v.2).refs, P s) :
    ∀ e ∈ (briefTreeBy hash limit roots).2.toList, P e.2 := by
  rw [table_briefTreeBy, Node.refsAll_inPlaceAll]
  exact StyleStore.forall_after (List.forall_mem_flatMap.mpr h)

theorem forall_briefTreeBy_iff {P : StyleValue → Prop} (hP : ∀ v w, v.key = w.key → P v → P w)
    (hash : TextHash) (limit : DepthLimit) (roots : List Node) :
    (∀ e ∈ (briefTreeBy hash limit roots).2.toList, P e.2) ↔
      ∀ v ∈ Node.visitsAll limit none roots, ∀ s ∈ (Facets.ofNode v.1 v.2).refs, P s := by
  rw [table_briefTreeBy, Node.refsAll_inPlaceAll, StyleStore.forall_after_iff hP,
    List.forall_mem_flatMap]

/-- The brief of a response is that of its roots. -/
theorem Response.brief_eq_map (r : Response) (limit : DepthLimit) :
    r.brief limit = r.roots.map fun roots =>
      { name := r.name
        lastModified := r.lastModified
        thumbnailUrl := r.thumbnailUrl.getD ""
        nodes := (briefTree limit roots).1
        styles := (briefTree limit roots).2 } := by
  rw [brief]
  cases r.roots <;> rfl

/-- A brief comes from roots. -/
theorem Response.exists_roots_of_brief {r : Response} {limit : DepthLimit} {b : Brief}
    (h : r.brief limit = .ok b) :
    ∃ roots, r.roots = .ok roots ∧
      b.nodes = (briefTree limit roots).1 ∧ b.styles = (briefTree limit roots).2 := by
  rw [brief_eq_map] at h
  cases hroots : r.roots with
  | error f =>
    rw [hroots] at h
    cases h
  | ok roots =>
    rw [hroots] at h
    cases h
    exact ⟨roots, rfl, rfl, rfl⟩

end DesignBrief
