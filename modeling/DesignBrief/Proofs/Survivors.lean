import DesignBrief.Proofs.InPlace
import DesignBrief.Proofs.Preorder
import DesignBrief.Proofs.Records

/-!
Which nodes of a design tree have a place in its brief. Whether a node survives is said of the node
where it stands, by the nodes above it and the nodes below it; the walk leaves those nodes, in the
order and with the depths that they have in the tree, `Node.outline_inPlaceAll`.
-/

namespace DesignBrief

/-! ## Nodes where they stand -/

def DepthLimit.allows (limit : DepthLimit) (depth : Nat) : Bool := limit.all (depth ≤ ·)

/-- A node with the nodes above it, the nearest first. -/
structure Spot where
  node : Node
  above : List Node := []

namespace Spot

/-- The depth below the root; a root has depth 0. -/
def depth (s : Spot) : Nat := s.above.length

def parent (s : Spot) : Option Attributes := s.above.head?.map (·.attributes)

def told (s : Spot) : Facets StyleValue := Facets.ofNode s.node s.parent

def children (s : Spot) : List Spot :=
  (s.node.children.getD []).map fun child => ⟨child, s.node :: s.above⟩

/-- Whether the node and all nodes above it are visible and it lies within the limit. -/
def isReached (limit : DepthLimit) (s : Spot) : Bool :=
  (s.node :: s.above).all (·.attributes.isVisible) && limit.allows s.depth

end Spot

mutual

/-- Whether a node survives: it is reached, and there is something to tell of it or a child of it
survives. -/
def Node.survives (limit : DepthLimit) (above : List Node) : Node → Bool
  | ⟨a, none⟩ =>
    Spot.isReached limit ⟨⟨a, none⟩, above⟩ && !(Spot.told ⟨⟨a, none⟩, above⟩).isBlank
  | ⟨a, some children⟩ =>
    Spot.isReached limit ⟨⟨a, some children⟩, above⟩ &&
      (!(Spot.told ⟨⟨a, some children⟩, above⟩).isBlank ||
        Node.anySurvives limit (⟨a, some children⟩ :: above) children)
termination_by structural n => n

def Node.anySurvives (limit : DepthLimit) (above : List Node) : List Node → Bool
  | [] => false
  | n :: rest => n.survives limit above || Node.anySurvives limit above rest
termination_by structural ns => ns

end

/-- The depth of the node and what there is to tell of it, save which styles it refers to. -/
def Spot.mark (s : Spot) : Nat × Facets Unit := (s.depth, s.told.shape)

def Spot.survives (limit : DepthLimit) (s : Spot) : Bool := s.node.survives limit s.above

mutual

/-- A node and all nodes below it where they stand, each before its children. -/
def Node.spots (above : List Node) : Node → List Spot
  | ⟨a, none⟩ => [⟨⟨a, none⟩, above⟩]
  | ⟨a, some children⟩ =>
    ⟨⟨a, some children⟩, above⟩ :: Node.spotsAll (⟨a, some children⟩ :: above) children
termination_by structural n => n

def Node.spotsAll (above : List Node) : List Node → List Spot
  | [] => []
  | n :: rest => n.spots above ++ Node.spotsAll above rest
termination_by structural ns => ns

end

/-- The nodes of a list and below them that survive, each before those below it. -/
def Node.survivors (limit : DepthLimit) (above ns : List Node) : List Spot :=
  (Node.spotsAll above ns).filter (·.survives limit)

/-- There is nothing to keep a node for: it has neither id nor name nor kind, tells nothing and
refers to no style, and no child of it survives. -/
structure Spot.IsNoise (limit : DepthLimit) (s : Spot) : Prop where
  id : s.node.attributes.id = ""
  name : s.node.attributes.name = ""
  kind : s.node.attributes.kind = ""
  text : s.told.text = none
  opacity : s.told.opacity = none
  borderRadius : s.told.borderRadius = none
  textStyle : s.told.textStyle = none
  fills : s.told.fills = none
  strokes : s.told.strokes = none
  effects : s.told.effects = none
  layout : s.told.layout = none
  children : ∀ child ∈ s.children, child.survives limit = false

namespace DepthLimit

theorem allows_zero (limit : DepthLimit) : limit.allows 0 = true := by
  cases limit <;> simp [allows]

theorem allows_of_le {limit : DepthLimit} {d e : Nat} (hde : d ≤ e)
    (he : limit.allows e = true) : limit.allows d = true := by
  cases limit with
  | none => rfl
  | some max =>
    simp only [allows, Option.all_some, decide_eq_true_eq] at he ⊢
    omega

theorem allows_succ_of_below {limit below : DepthLimit} (h : limit.below = some below) (d : Nat) :
    limit.allows (d + 1) = below.allows d := by
  cases limit with
  | none =>
    cases h
    rfl
  | some max =>
    cases max with
    | zero => cases h
    | succ max =>
      cases h
      simp [allows]

theorem allows_succ_of_below_eq_none {limit : DepthLimit} (h : limit.below = none) (d : Nat) :
    limit.allows (d + 1) = false := by
  cases limit with
  | none => cases h
  | some max =>
    cases max with
    | zero => simp [allows]
    | succ max => cases h

end DepthLimit

namespace Node

/-! ## Survival, node by node -/

theorem spots_eq (above : List Node) (a : Attributes) (children : Option (List Node)) :
    spots above ⟨a, children⟩ =
      ⟨⟨a, children⟩, above⟩ :: spotsAll (⟨a, children⟩ :: above) (children.getD []) := by
  cases children <;> rfl

theorem survives_eq (limit : DepthLimit) (above : List Node) (a : Attributes)
    (children : Option (List Node)) :
    survives limit above ⟨a, children⟩ =
      (Spot.isReached limit ⟨⟨a, children⟩, above⟩ &&
        (!(Spot.told ⟨⟨a, children⟩, above⟩).isBlank ||
          anySurvives limit (⟨a, children⟩ :: above) (children.getD []))) := by
  cases children with
  | none => simp [survives, anySurvives]
  | some children => rfl

theorem anySurvives_iff (limit : DepthLimit) (above ns : List Node) :
    anySurvives limit above ns = true ↔ ∃ n ∈ ns, survives limit above n = true := by
  induction ns with
  | nil => simp [anySurvives]
  | cons n ns ih => simp [anySurvives, ih]

theorem length_spotsAll (above ns : List Node) : (spotsAll above ns).length = sizeAll ns := by
  induction ns using forest_induction generalizing above with
  | nil => rfl
  | cons a children rest ihc ihr =>
    have hc := ihc (⟨a, children⟩ :: above)
    have hr := ihr above
    rw [spotsAll, List.length_append, spots_eq, List.length_cons, sizeAll, size_eq]
    omega

/-- A node stands below all that its tree stands below. -/
theorem above_suffix_of_mem_spotsAll {above ns : List Node} {s : Spot}
    (hs : s ∈ spotsAll above ns) : above <:+ s.above := by
  induction ns using forest_induction generalizing above with
  | nil => cases hs
  | cons a children rest ihc ihr =>
    rw [spotsAll, spots_eq, List.mem_append, List.mem_cons] at hs
    rcases hs with (rfl | hc) | hr
    · exact List.suffix_refl above
    · exact (List.suffix_cons _ above).trans (ihc hc)
    · exact ihr hr

end Node

namespace Spot

theorem isBlank_told_iff (s : Spot) :
    s.told.isBlank = true ↔
      s.node.attributes.id = "" ∧ s.node.attributes.name = "" ∧ s.node.attributes.kind = "" ∧
        s.told.text = none ∧ s.told.textStyle = none ∧ s.told.fills = none ∧
        s.told.strokes = none ∧ s.told.effects = none ∧ s.told.opacity = none ∧
        s.told.borderRadius = none ∧ s.told.layout = none := by
  have hkind : s.told.kind = "" ↔ s.node.attributes.kind = "" := by
    simp only [told, Facets.ofNode, Facets.kindOf]
    split
    · rename_i hvector
      simp [hvector, Facets.vectorImage]
    · exact Iff.rfl
  have hid : s.told.id = s.node.attributes.id := rfl
  have hname : s.told.name = s.node.attributes.name := rfl
  simp only [Facets.isBlank, Bool.and_eq_true, String.isEmpty_iff, Option.isNone_iff_eq_none,
    hkind, hid, hname, and_assoc]

theorem isNoise_iff (limit : DepthLimit) (s : Spot) :
    s.IsNoise limit ↔
      s.told.isBlank = true ∧
        Node.anySurvives limit (s.node :: s.above) (s.node.children.getD []) = false := by
  have hchildren : Node.anySurvives limit (s.node :: s.above) (s.node.children.getD []) = false ↔
      ∀ child ∈ s.children, child.survives limit = false := by
    rw [← Bool.not_eq_true, Node.anySurvives_iff]
    simp [children, survives]
  rw [isBlank_told_iff, hchildren]
  constructor
  · intro h
    exact ⟨⟨h.id, h.name, h.kind, h.text, h.textStyle, h.fills, h.strokes, h.effects, h.opacity,
      h.borderRadius, h.layout⟩, h.children⟩
  · rintro ⟨⟨hid, hname, hkind, htext, hstyle, hfills, hstrokes, heffects, hopacity, hradius,
      hlayout⟩, hbelow⟩
    exact ⟨hid, hname, hkind, htext, hopacity, hradius, hstyle, hfills, hstrokes, heffects,
      hlayout, hbelow⟩

/-- A node survives if it is reached and is not noise. -/
theorem survives_iff (limit : DepthLimit) (s : Spot) :
    s.survives limit = true ↔ s.isReached limit = true ∧ ¬ s.IsNoise limit := by
  rw [isNoise_iff]
  obtain ⟨⟨a, children⟩, above⟩ := s
  rw [survives, Node.survives_eq]
  cases isReached limit ⟨⟨a, children⟩, above⟩ <;>
    cases (told ⟨⟨a, children⟩, above⟩).isBlank <;> simp

theorem isReached_of_survives {limit : DepthLimit} {s : Spot} (h : s.survives limit = true) :
    s.isReached limit = true :=
  ((survives_iff limit s).mp h).1

end Spot

/-! ## What survives below a node -/

namespace Node

theorem mem_spotsAll_of_mem {above ns : List Node} {n : Node} (hn : n ∈ ns) :
    ⟨n, above⟩ ∈ spotsAll above ns := by
  induction ns with
  | nil => cases hn
  | cons m ns ih =>
    rw [spotsAll, List.mem_append]
    rcases List.mem_cons.mp hn with rfl | hn
    · obtain ⟨a, children⟩ := n
      rw [spots_eq]
      exact Or.inl List.mem_cons_self
    · exact Or.inr (ih hn)

/-- A node below which one is reached is reached itself. -/
theorem isReached_of_below {limit : DepthLimit} {n : Node} {above ns : List Node} {s : Spot}
    (hs : s ∈ spotsAll (n :: above) ns) (hr : s.isReached limit = true) :
    Spot.isReached limit ⟨n, above⟩ = true := by
  obtain ⟨nearer, habove⟩ := above_suffix_of_mem_spotsAll hs
  rw [Spot.isReached, Bool.and_eq_true, Spot.depth, ← habove] at hr
  obtain ⟨hvisible, hallowed⟩ := hr
  rw [← List.cons_append, List.all_append, Bool.and_eq_true] at hvisible
  have hdepth : above.length ≤ (nearer ++ n :: above).length := by
    rw [List.length_append, List.length_cons]
    omega
  rw [Spot.isReached, Bool.and_eq_true]
  exact ⟨hvisible.2, DepthLimit.allows_of_le hdepth hallowed⟩

theorem survivors_cons (limit : DepthLimit) (above : List Node) (a : Attributes)
    (children : Option (List Node)) (rest : List Node) :
    survivors limit above (⟨a, children⟩ :: rest) =
      (if Spot.survives limit ⟨⟨a, children⟩, above⟩ then [⟨⟨a, children⟩, above⟩] else []) ++
        (survivors limit (⟨a, children⟩ :: above) (children.getD []) ++
          survivors limit above rest) := by
  simp only [survivors, spotsAll, spots_eq, List.filter_append, List.filter_cons]
  split <;> rfl

/-- If no node of a list survives, then none below them does. -/
theorem survivors_eq_nil {limit : DepthLimit} {above ns : List Node}
    (h : anySurvives limit above ns = false) : survivors limit above ns = [] := by
  induction ns using forest_induction generalizing above with
  | nil => rfl
  | cons a children rest ihc ihr =>
    rw [anySurvives, Bool.or_eq_false_iff] at h
    obtain ⟨hfirst, hrest⟩ := h
    have hbelow : survivors limit (⟨a, children⟩ :: above) (children.getD []) = [] := by
      cases hreached : Spot.isReached limit ⟨⟨a, children⟩, above⟩ with
      | true =>
        rw [survives_eq, hreached, Bool.true_and, Bool.or_eq_false_iff] at hfirst
        exact ihc hfirst.2
      | false =>
        rw [survivors, List.filter_eq_nil_iff]
        intro s hs hsurvives
        have hcontra := isReached_of_below hs (Spot.isReached_of_survives hsurvives)
        rw [hreached] at hcontra
        cases hcontra
    rw [survivors_cons, Spot.survives, hfirst, hbelow, ihr hrest]
    rfl

theorem anySurvives_eq_false_iff {limit : DepthLimit} {above ns : List Node} :
    anySurvives limit above ns = false ↔ survivors limit above ns = [] := by
  constructor
  · exact survivors_eq_nil
  · intro h
    rw [← Bool.not_eq_true, anySurvives_iff]
    rintro ⟨n, hn, hsurvives⟩
    rw [survivors, List.filter_eq_nil_iff] at h
    exact h ⟨n, above⟩ (mem_spotsAll_of_mem hn) hsurvives

theorem survivors_below_eq_nil {limit : DepthLimit} {above : List Node} {a : Attributes}
    {children : Option (List Node)} (h : Spot.survives limit ⟨⟨a, children⟩, above⟩ = false) :
    survivors limit (⟨a, children⟩ :: above) (children.getD []) = [] := by
  have hnone : anySurvives limit above [⟨a, children⟩] = false := by
    rw [anySurvives, anySurvives, Bool.or_false]
    exact h
  have hnil := survivors_eq_nil hnone
  rw [survivors_cons, List.append_eq_nil_iff, List.append_eq_nil_iff] at hnil
  exact hnil.2.1

theorem survivors_eq_nil_of_not_allows {limit : DepthLimit} {above ns : List Node}
    (h : limit.allows above.length = false) : survivors limit above ns = [] := by
  refine survivors_eq_nil ?_
  rw [← Bool.not_eq_true, anySurvives_iff]
  rintro ⟨n, _, hsurvives⟩
  have hreached := Spot.isReached_of_survives (s := ⟨n, above⟩) hsurvives
  rw [Spot.isReached, Spot.depth, h, Bool.and_false] at hreached
  cases hreached

/-- A node that is reached survives unless it is dropped, its children being those that survive. -/
theorem survives_eq_not_isBlank {limit : DepthLimit} {above : List Node} {a : Attributes}
    {children : Option (List Node)} {kept : List (BriefNode StyleValue)}
    (hreached : Spot.isReached limit ⟨⟨a, children⟩, above⟩ = true)
    (hkept : BriefNode.outline (above.length + 1) kept =
      (survivors limit (⟨a, children⟩ :: above) (children.getD [])).map Spot.mark) :
    Spot.survives limit ⟨⟨a, children⟩, above⟩ =
      !BriefNode.isBlank ⟨Spot.told ⟨⟨a, children⟩, above⟩, kept⟩ := by
  have hempty : kept.isEmpty =
      !anySurvives limit (⟨a, children⟩ :: above) (children.getD []) := by
    cases hany : anySurvives limit (⟨a, children⟩ :: above) (children.getD []) with
    | false =>
      rw [anySurvives_eq_false_iff.mp hany, List.map_nil, BriefNode.outline_eq_nil_iff] at hkept
      rw [hkept]
      rfl
    | true =>
      cases kept with
      | nil =>
        have hnil := List.map_eq_nil_iff.mp hkept.symm
        rw [anySurvives_eq_false_iff.mpr hnil] at hany
        cases hany
      | cons n kept => rfl
  rw [Spot.survives, survives_eq, hreached, BriefNode.isBlank, hempty]
  cases (Spot.told ⟨⟨a, children⟩, above⟩).isBlank <;> simp

/-! ## What the walk leaves -/

/-- The walk leaves the nodes that survive, in their order and with their depths. The nodes above
are visible, and what is left of the limit is what the depth leaves of it. -/
theorem outline_inPlaceAll {limit left : DepthLimit} {above : List Node}
    (hvisible : above.all (·.attributes.isVisible) = true)
    (hleft : ∀ d, limit.allows (above.length + d) = left.allows d) (ns : List Node) :
    BriefNode.outline above.length (inPlaceAll left (above.head?.map (·.attributes)) ns) =
      (survivors limit above ns).map Spot.mark := by
  induction ns using forest_induction generalizing left above with
  | nil => rfl
  | cons a children rest ihc ihr =>
    rw [survivors_cons, List.map_append, List.map_append, ← ihr hvisible hleft, inPlaceAll]
    cases ha : a.isVisible with
    | false =>
      have hdead : Spot.survives limit ⟨⟨a, children⟩, above⟩ = false := by
        rw [Spot.survives, survives_eq, Spot.isReached, List.all_cons, ha]
        rfl
      rw [survivors_below_eq_nil hdead, hdead]
      rfl
    | true =>
      have hvisible' : (⟨a, children⟩ :: above : List Node).all (·.attributes.isVisible) = true := by
        rw [List.all_cons, ha, hvisible]
        rfl
      have hreached : Spot.isReached limit ⟨⟨a, children⟩, above⟩ = true := by
        rw [Spot.isReached, hvisible', Spot.depth, ← Nat.add_zero above.length, hleft,
          DepthLimit.allows_zero]
        rfl
      have hbelow : BriefNode.outline (above.length + 1) (inPlaceBelow left a (children.getD [])) =
          (survivors limit (⟨a, children⟩ :: above) (children.getD [])).map Spot.mark := by
        rw [inPlaceBelow]
        cases hlimit : left.below with
        | none =>
          have hdeep : limit.allows (⟨a, children⟩ :: above : List Node).length = false := by
            rw [List.length_cons, hleft]
            exact DepthLimit.allows_succ_of_below_eq_none hlimit 0
          rw [survivors_eq_nil_of_not_allows hdeep]
          rfl
        | some below =>
          refine ihc hvisible' fun d => ?_
          rw [← DepthLimit.allows_succ_of_below hlimit, ← hleft, List.length_cons]
          congr 1
          omega
      have hsurvives := survives_eq_not_isBlank hreached hbelow
      have htold : Facets.ofNode ⟨a, children⟩ (above.head?.map (·.attributes)) =
          Spot.told ⟨⟨a, children⟩, above⟩ := rfl
      rw [if_pos rfl, BriefNode.outline_append, inPlace_eq, BriefNode.keep, htold,
        ← List.append_assoc]
      congr 1
      cases hblank : BriefNode.isBlank ⟨Spot.told ⟨⟨a, children⟩, above⟩,
          inPlaceBelow left a (children.getD [])⟩ with
      | true =>
        rw [hblank] at hsurvives
        rw [survivors_below_eq_nil hsurvives, hsurvives]
        rfl
      | false =>
        rw [hblank] at hsurvives
        rw [hsurvives, ← hbelow, if_neg Bool.false_ne_true, Option.toList_some,
          BriefNode.outline_cons, BriefNode.outline_nil, List.append_nil]
        rfl

theorem outline_briefTreeBy (hash : TextHash) (limit : DepthLimit) (roots : List Node) :
    BriefNode.outline 0 (briefTreeBy hash limit roots).1 =
      (survivors limit [] roots).map Spot.mark := by
  have hwalk : BriefNode.outline 0 (inPlaceAll limit none roots) =
      (survivors limit [] roots).map Spot.mark := by
    have hleft : ∀ d, limit.allows (([] : List Node).length + d) = limit.allows d := by
      intro d
      rw [List.length_nil, Nat.zero_add]
    exact outline_inPlaceAll rfl hleft roots
  rw [← hwalk]
  exact BriefNode.outline_congr (shapeAll_briefTreeBy hash limit roots) 0

end Node

/-! ## The brief of a response -/

/-- A node is printed with its children only if it has any. -/
theorem BriefNode.member?_children_toJson {ρ : Type} (ref : ρ → Json) (n : BriefNode ρ) :
    (n.toJson ref).member? "children" =
      if n.children.isEmpty then none else some (.array (listToJson ref n.children)) := by
  obtain ⟨f, children⟩ := n
  cases children with
  | nil =>
    rw [toJson, Json.member?_present (by simp [members])]
    rfl
  | cons n rest =>
    rw [toJson, Json.member?_present (by simp [members])]
    rfl

/-- What it means that a forest holds just those nodes of a list of roots, and of what hangs from
them, that survive. -/
structure Pruned (limit : DepthLimit) (roots : List Node) (kept : List (BriefNode StyleId)) :
    Prop where
  survives_iff : ∀ s ∈ Node.spotsAll [] roots,
    s.survives limit = true ↔ s.isReached limit = true ∧ ¬ s.IsNoise limit
  /-- No survivor is cut off from its root. -/
  connected : ∀ s ∈ Node.spotsAll [] roots, ∀ child ∈ s.children,
    child.survives limit = true → s.survives limit = true
  outline : BriefNode.outline 0 kept = (Node.survivors limit [] roots).map Spot.mark
  /-- There is no other way to hang these nodes from each other. -/
  unique : ∀ other : List (BriefNode StyleId),
    BriefNode.outline 0 other = (Node.survivors limit [] roots).map Spot.mark →
      BriefNode.shapeAll other = BriefNode.shapeAll kept
  identified : (BriefNode.walkAll 0 kept).map (fun x =>
      (x.2.facets.id, x.2.facets.name, x.2.facets.kind)) =
    (Node.survivors limit [] roots).map fun s =>
      (s.node.attributes.id, s.node.attributes.name,
        if s.node.attributes.kind = "VECTOR" then "IMAGE-SVG" else s.node.attributes.kind)
  children_listed : ∀ x ∈ BriefNode.walkAll 0 kept,
    (x.2.toJson StyleId.toJson).member? "children" =
      if x.2.children.isEmpty then none
      else some (.array (BriefNode.listToJson StyleId.toJson x.2.children))
  size : BriefNode.sizeAll kept = (Node.survivors limit [] roots).length

theorem Spot.survives_of_child {limit : DepthLimit} {s child : Spot} (hchild : child ∈ s.children)
    (h : child.survives limit = true) : s.survives limit = true := by
  rw [survives_iff]
  constructor
  · obtain ⟨n, hn, rfl⟩ := List.mem_map.mp hchild
    exact Node.isReached_of_below (Node.mem_spotsAll_of_mem hn) (isReached_of_survives h)
  · intro hnoise
    rw [hnoise.children child hchild] at h
    cases h

theorem pruned_briefTree (limit : DepthLimit) (roots : List Node) :
    Pruned limit roots (briefTree limit roots).1 := by
  have houtline : BriefNode.outline 0 (briefTree limit roots).1 =
      (Node.survivors limit [] roots).map Spot.mark :=
    Node.outline_briefTreeBy TextHash.mixing limit roots
  constructor
  case survives_iff => exact fun s _ => s.survives_iff limit
  case connected => exact fun s _ child hchild => Spot.survives_of_child hchild
  case outline => exact houtline
  case unique =>
    intro other hother
    exact BriefNode.shapeAll_eq_of_outline (hother.trans houtline.symm)
  case identified =>
    have hnames := congrArg (List.map fun x => (x.2.id, x.2.name, x.2.kind)) houtline
    rw [BriefNode.outline, List.map_map, List.map_map] at hnames
    exact hnames
  case children_listed => exact fun x _ => BriefNode.member?_children_toJson StyleId.toJson x.2
  case size => rw [← BriefNode.length_outline 0, houtline, List.length_map]

-- A node that says nothing stays for what it holds, unless the limit cuts off all that it holds.
example :
    (BriefNode.walkAll 0 (briefTree (some 1)
        [⟨{}, some [⟨{ id := "1" }, some [⟨{ id := "2" }, none⟩]⟩,
          ⟨{}, some [⟨{ id := "3" }, none⟩]⟩]⟩]).1).map (fun x => (x.1, x.2.facets.id)) =
      [(0, ""), (1, "1")] := by decide

/-- A brief has no more nodes than the tree that it is made from. -/
theorem sizeAll_briefTree_le (limit : DepthLimit) (roots : List Node) :
    BriefNode.sizeAll (briefTree limit roots).1 ≤ Node.sizeAll roots := by
  rw [(pruned_briefTree limit roots).size, Node.survivors, ← Node.length_spotsAll [] roots]
  exact List.length_filter_le _ _

/-- The children of the document are pruned if there is a document, else the nodes that were found;
without either there is nothing to brief. -/
theorem Response.brief_pruned (r : Response) (limit : DepthLimit) :
    match r.document, r.nodes with
    | some document, _ =>
      ∃ b, r.brief limit = .ok b ∧ Pruned limit (document.children.getD []) b.nodes
    | none, some nodes =>
      ∃ b, r.brief limit = .ok b ∧
        Pruned limit ((nodes.filterMap (·.2)).map (·.document)) b.nodes
    | none, none =>
      r.brief limit =
        .error (.structural "response has neither a document root nor a nodes map") := by
  have hok : ∀ roots, r.roots = .ok roots →
      ∃ b, r.brief limit = .ok b ∧ Pruned limit roots b.nodes := by
    intro roots hroots
    rw [brief, hroots]
    exact ⟨_, rfl, pruned_briefTree limit roots⟩
  split
  · rename_i document hdocument
    refine hok _ ?_
    rw [roots, hdocument]
  · rename_i nodes hdocument hnodes
    refine hok _ ?_
    rw [roots, hdocument, hnodes, List.map_filterMap]
  · rename_i hdocument hnodes
    rw [brief, roots, hdocument, hnodes]
    rfl

end DesignBrief
