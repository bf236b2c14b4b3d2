import DesignBrief.Proofs.Visits

/-!
Two trees that the walk cannot tell apart. Nodes with related attributes stand in the same places,
and of a hidden node no more counts than what its parent reads of it. If related attributes are
exchangeable, so that the same is told with the one as with the other, both trees have the same
brief: `briefTreeBy_eq_of_matched`. If the attributes are changed all over a tree by one rule, the
nodes that the walk comes to can be looked at one by one, `Node.inPlaceAll_mapAttributesAll`.
-/

namespace DesignBrief

/-! ## What is read across the edges of the tree -/

namespace Attributes

/-- The same is read of two nodes when the layout of their parent is told: whether they stand
outside its flow and in which directions they fill it. -/
structure SameAsChild (a b : Attributes) : Prop where
  isAbsolute : a.isAbsolute = b.isAbsolute
  horizontal : (a.sizeHorizontal == some .fill) = (b.sizeHorizontal == some .fill)
  vertical : (a.sizeVertical == some .fill) = (b.sizeVertical == some .fill)

/-- The same is read of two nodes when the layouts of their children are told. -/
structure SameAsParent (a b : Attributes) : Prop where
  flow : Layout.flow a = Layout.flow b
  box : a.box = b.box

theorem SameAsChild.fillsAcross {a b : Attributes} (h : a.SameAsChild b) (flow : Flow) :
    Layout.fillsAcross flow a = Layout.fillsAcross flow b := by
  cases flow with
  | row => rw [Layout.fillsAcross, Layout.fillsAcross, h.isAbsolute]; exact congrArg _ h.vertical
  | column =>
    rw [Layout.fillsAcross, Layout.fillsAcross, h.isAbsolute]
    exact congrArg _ h.horizontal
  | none => rw [Layout.fillsAcross, Layout.fillsAcross, h.isAbsolute]; rfl

end Attributes

/-- The same is read of the parents of two nodes, or neither has one. -/
def SameParents : Option Attributes → Option Attributes → Prop
  | none, none => True
  | some a, some b => a.SameAsParent b
  | _, _ => False

abbrev SameChildren : List Node → List Node → Prop :=
  List.Forall₂ fun n m => n.attributes.SameAsChild m.attributes

namespace Layout

theorem allFillAcross_congr {ns ms : List Node} (h : SameChildren ns ms) (flow : Flow) :
    allFillAcross flow ns = allFillAcross flow ms := by
  have hall : ns.all (fun c => fillsAcross flow c.attributes) =
      ms.all fun c => fillsAcross flow c.attributes := by
    induction h with
    | nil => rfl
    | cons hnm _ ih => rw [List.all_cons, List.all_cons, hnm.fillsAcross, ih]
  have hempty : ns.isEmpty = ms.isEmpty := by
    cases h <;> rfl
  rw [allFillAcross, allFillAcross, hall, hempty]

theorem ofFrame_congr (frame : Frame) {ns ms : List Node} (h : SameChildren ns ms) :
    ofFrame frame ns = ofFrame frame ms := by
  simp only [ofFrame, allFillAcross_congr h]

theorem place_congr (layout : Layout) (p : Placement) {parent parent' : Option Attributes}
    (h : SameParents parent parent') : layout.place p parent = layout.place p parent' := by
  have hflow : (parent.map flow).getD .none = (parent'.map flow).getD .none := by
    cases parent <;> cases parent' <;> first | rfl | exact h.elim | exact h.flow
  have hbox : parent.bind (·.box) = parent'.bind (·.box) := by
    cases parent <;> cases parent' <;> first | rfl | exact h.elim | exact h.box
  simp only [place, hflow, hbox]

theorem ofNode_congr (a : Attributes) {children children' : Option (List Node)}
    {parent parent' : Option Attributes}
    (hc : SameChildren (children.getD []) (children'.getD [])) (hp : SameParents parent parent') :
    ofNode ⟨a, children⟩ parent = ofNode ⟨a, children'⟩ parent' := by
  simp only [ofNode, Node.children?, getD_nonempty?, place_congr _ _ hp]
  cases a.frame? with
  | none => rfl
  | some frame => simp only [ofFrame_congr frame hc]

end Layout

/-- Of the tree around a node no more is told than the children and the parent are read for. -/
theorem Facets.ofNode_congr (a : Attributes) {children children' : Option (List Node)}
    {parent parent' : Option Attributes}
    (hc : SameChildren (children.getD []) (children'.getD [])) (hp : SameParents parent parent') :
    ofNode ⟨a, children⟩ parent = ofNode ⟨a, children'⟩ parent' := by
  simp only [ofNode, Layout.ofNode_congr a hc hp]

/-! ## Matching trees -/

/-- Nothing that is told changes if a node has the one attributes instead of the other. -/
structure Attributes.Exchangeable (a b : Attributes) : Prop where
  isVisible : a.isVisible = b.isVisible
  asChild : a.SameAsChild b
  asParent : a.SameAsParent b
  told : ∀ children parent, Facets.ofNode ⟨a, children⟩ parent = Facets.ofNode ⟨b, children⟩ parent

/-- Two lists of trees with hidden nodes in the same places and otherwise nodes with related
attributes. `below` says whether the nodes of the lists have a parent; then a hidden node is at
least read alike by it. Of what hangs from a hidden node nothing is asked. -/
inductive Node.Matched (R : Attributes → Attributes → Prop) :
    (below : Bool) → List Node → List Node → Prop
  | nil {below : Bool} : Matched R below [] []
  | hidden {below : Bool} {n m : Node} {ns ms : List Node}
      (hn : n.attributes.isVisible = false) (hm : m.attributes.isVisible = false)
      (read : below = true → n.attributes.SameAsChild m.attributes)
      (rest : Matched R below ns ms) : Matched R below (n :: ns) (m :: ms)
  | shown {below : Bool} {a b : Attributes} {children children' : Option (List Node)}
      {ns ms : List Node} (ha : a.isVisible = true) (hab : R a b)
      (inner : Matched R true (children.getD []) (children'.getD []))
      (rest : Matched R below ns ms) : Matched R below (⟨a, children⟩ :: ns) (⟨b, children'⟩ :: ms)

namespace Node

variable {R : Attributes → Attributes → Prop}

theorem Matched.sameChildren (hR : ∀ a b, R a b → a.Exchangeable b) {ns ms : List Node}
    (h : Matched R true ns ms) : SameChildren ns ms := by
  generalize hbelow : true = below at h
  induction h with
  | nil => exact List.Forall₂.nil
  | hidden _ _ read _ ih => exact List.Forall₂.cons (read hbelow.symm) (ih hbelow)
  | shown _ hab _ _ _ ih => exact List.Forall₂.cons (hR _ _ hab).asChild (ih hbelow)

/-- The walk without a store leaves the same forest of trees that match. -/
theorem inPlaceAll_eq_of_matched (hR : ∀ a b, R a b → a.Exchangeable b) {below : Bool}
    {ns ms : List Node} (h : Matched R below ns ms) (limit : DepthLimit)
    {parent parent' : Option Attributes} (hp : SameParents parent parent') :
    inPlaceAll limit parent ns = inPlaceAll limit parent' ms := by
  induction h generalizing limit parent parent' with
  | nil => rfl
  | hidden hn hm _ _ ih =>
    rw [inPlaceAll, inPlaceAll, hn, hm]
    exact ih limit hp
  | @shown _ a b children children' ns ms ha hab inner _ ihc ihr =>
    have hex := hR a b hab
    have hfacets : Facets.ofNode ⟨a, children⟩ parent = Facets.ofNode ⟨b, children'⟩ parent' :=
      (Facets.ofNode_congr a (inner.sameChildren hR) hp).trans (hex.told children' parent')
    have hparents : SameParents (some a) (some b) := hex.asParent
    have hbelow : inPlaceBelow limit a (children.getD []) =
        inPlaceBelow limit b (children'.getD []) := by
      rw [inPlaceBelow, inPlaceBelow]
      cases limit.below with
      | none => rfl
      | some limit => exact ihc limit hparents
    rw [inPlaceAll, inPlaceAll, inPlace_eq, inPlace_eq, hfacets, hbelow, ihr limit hp,
      ← hex.isVisible]

end Node

theorem briefTreeBy_congr (hash : TextHash) (limit : DepthLimit) {ns ms : List Node}
    (h : Node.inPlaceAll limit none ns = Node.inPlaceAll limit none ms) :
    briefTreeBy hash limit ns = briefTreeBy hash limit ms := by
  rw [briefTreeBy_eq, briefTreeBy_eq, h]

theorem briefTreeBy_eq_of_matched {R : Attributes → Attributes → Prop}
    (hR : ∀ a b, R a b → a.Exchangeable b) (hash : TextHash) (limit : DepthLimit)
    {ns ms : List Node} (h : Node.Matched R false ns ms) :
    briefTreeBy hash limit ns = briefTreeBy hash limit ms :=
  briefTreeBy_congr hash limit (Node.inPlaceAll_eq_of_matched hR h limit trivial)

/-! ## Changing the attributes all over a tree -/

mutual

def Node.mapAttributes (f : Attributes → Attributes) : Node → Node
  | ⟨a, none⟩ => ⟨f a, none⟩
  | ⟨a, some children⟩ => ⟨f a, some (Node.mapAttributesAll f children)⟩
termination_by structural n => n

def Node.mapAttributesAll (f : Attributes → Attributes) : List Node → List Node
  | [] => []
  | n :: rest => n.mapAttributes f :: Node.mapAttributesAll f rest
termination_by structural ns => ns

end

namespace Node

variable {f : Attributes → Attributes}

theorem mapAttributes_mk (a : Attributes) (children : Option (List Node)) :
    mapAttributes f ⟨a, children⟩ = ⟨f a, children.map (mapAttributesAll f)⟩ := by
  cases children <;> rfl

theorem getD_map_mapAttributesAll (children : Option (List Node)) :
    (children.map (mapAttributesAll f)).getD [] = mapAttributesAll f (children.getD []) := by
  cases children <;> rfl

theorem mapAttributesAll_eq_map (ns : List Node) :
    mapAttributesAll f ns = ns.map (mapAttributes f) := by
  induction ns with
  | nil => rfl
  | cons n ns ih => rw [mapAttributesAll, ih, List.map_cons]

theorem attributes_mapAttributes (n : Node) : (n.mapAttributes f).attributes = f n.attributes := by
  obtain ⟨a, children⟩ := n
  rw [mapAttributes_mk]

theorem sameChildren_mapAttributesAll (h : ∀ a, (f a).SameAsChild a) (ns : List Node) :
    SameChildren (mapAttributesAll f ns) ns := by
  rw [mapAttributesAll_eq_map, SameChildren, List.forall₂_map_left_iff, List.forall₂_same]
  intro n _
  rw [attributes_mapAttributes]
  exact h n.attributes

/-- If every node that the walk comes to is told alike with the other attributes, the walk leaves
the same forest. -/
theorem inPlaceAll_mapAttributesAll (hvisible : ∀ a, (f a).isVisible = a.isVisible)
    (limit : DepthLimit) (parent : Option Attributes) (ns : List Node)
    (h : ∀ v ∈ visitsAll limit parent ns,
      Facets.ofNode (v.1.mapAttributes f) (v.2.map f) = Facets.ofNode v.1 v.2) :
    inPlaceAll limit (parent.map f) (mapAttributesAll f ns) = inPlaceAll limit parent ns := by
  induction ns using Node.forest_induction generalizing limit parent with
  | nil => rfl
  | cons a children rest ihc ihr =>
    rw [mapAttributesAll, inPlaceAll, inPlaceAll, attributes_mapAttributes, hvisible]
    cases ha : a.isVisible with
    | false =>
      rw [visitsAll_cons_of_hidden rest ha] at h
      exact ihr limit parent h
    | true =>
      rw [visitsAll_cons_of_visible rest ha, List.forall_mem_cons, List.forall_mem_append] at h
      obtain ⟨hfirst, hinner, hrest⟩ := h
      have hbelow : inPlaceBelow limit (f a) (mapAttributesAll f (children.getD [])) =
          inPlaceBelow limit a (children.getD []) := by
        rw [visitsBelow] at hinner
        rw [inPlaceBelow, inPlaceBelow]
        cases hlimit : limit.below with
        | none => rfl
        | some limit =>
          rw [hlimit] at hinner
          exact ihc limit (some a) hinner
      rw [mapAttributes_mk] at hfirst
      rw [if_pos rfl, if_pos rfl, ihr limit parent hrest, mapAttributes_mk, inPlace_eq, inPlace_eq,
        getD_map_mapAttributesAll, hbelow, hfirst]

theorem sizeAll_mapAttributesAll (ns : List Node) : sizeAll (mapAttributesAll f ns) = sizeAll ns := by
  induction ns using Node.forest_induction with
  | nil => rfl
  | cons a children rest ihc ihr =>
    rw [mapAttributesAll, sizeAll, sizeAll, mapAttributes_mk, size_eq, size_eq,
      getD_map_mapAttributesAll, ihc, ihr]

/-- The walk comes to the same places. -/
theorem visitsAll_mapAttributesAll (hvisible : ∀ a, (f a).isVisible = a.isVisible)
    (limit : DepthLimit) (parent : Option Attributes) (ns : List Node) :
    visitsAll limit (parent.map f) (mapAttributesAll f ns) =
      (visitsAll limit parent ns).map fun v => (v.1.mapAttributes f, v.2.map f) := by
  induction ns using Node.forest_induction generalizing limit parent with
  | nil => rfl
  | cons a children rest ihc ihr =>
    have hbelow : visitsBelow limit (f a) (mapAttributesAll f (children.getD [])) =
        (visitsBelow limit a (children.getD [])).map fun v => (v.1.mapAttributes f, v.2.map f) := by
      rw [visitsBelow, visitsBelow]
      cases limit.below with
      | none => rfl
      | some limit => exact ihc limit (some a)
    rw [mapAttributesAll, mapAttributes_mk]
    cases ha : a.isVisible with
    | false =>
      rw [visitsAll_cons_of_hidden rest ha,
        visitsAll_cons_of_hidden _ ((hvisible a).trans ha)]
      exact ihr limit parent
    | true =>
      rw [visitsAll_cons_of_visible rest ha,
        visitsAll_cons_of_visible _ ((hvisible a).trans ha), getD_map_mapAttributesAll, hbelow,
        ihr limit parent, List.map_cons, List.map_append, mapAttributes_mk]

/-- If the change is not seen from the parent nor from the children, then of a node only its own
attributes change what is told. -/
theorem ofNode_mapAttributes (hchild : ∀ a, (f a).SameAsChild a)
    (hparent : ∀ a, (f a).SameAsParent a) (n : Node) (parent : Option Attributes) :
    Facets.ofNode (n.mapAttributes f) (parent.map f) =
      Facets.ofNode ⟨f n.attributes, n.children⟩ parent := by
  obtain ⟨a, children⟩ := n
  have hchildren : SameChildren ((children.map (mapAttributesAll f)).getD [])
      (children.getD []) := by
    rw [getD_map_mapAttributesAll]
    exact sameChildren_mapAttributesAll hchild _
  have hparents : SameParents (parent.map f) parent := by
    cases parent with
    | none => trivial
    | some p => exact hparent p
  rw [mapAttributes_mk]
  exact Facets.ofNode_congr (f a) hchildren hparents

end Node

/-- Attributes that are exchangeable may be exchanged all over a tree. -/
theorem briefTreeBy_mapAttributesAll {f : Attributes → Attributes}
    (hf : ∀ a, (f a).Exchangeable a) (hash : TextHash) (limit : DepthLimit) (roots : List Node) :
    briefTreeBy hash limit (Node.mapAttributesAll f roots) = briefTreeBy hash limit roots := by
  refine briefTreeBy_congr hash limit ?_
  refine Node.inPlaceAll_mapAttributesAll (fun a => (hf a).isVisible) limit none roots ?_
  intro v _
  rw [Node.ofNode_mapAttributes (fun a => (hf a).asChild) (fun a => (hf a).asParent)]
  exact (hf v.1.attributes).told v.1.children v.2

end DesignBrief
