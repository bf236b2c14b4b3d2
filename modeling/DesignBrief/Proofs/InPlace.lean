import DesignBrief.Brief.Walk
import DesignBrief.Proofs.Dedup
import DesignBrief.Proofs.Forest

/-!
The walk without a store, which leaves every style in the place where it is found. The walk with a
store is a run of calls over it, one call for each style, in order: `Node.briefs_eq_mapMAll`. So
what a node shows depends on the node and its parent alone, `briefTreeBy_shows`.
-/

namespace DesignBrief

/-! ## The walk without a store -/

/-- What there is to tell of a node below a parent. A text style is told if some field of it is set
and something is made of it, fills if there are any, strokes and effects if something is made of
them, and a layout if it says more than the flow. -/
def Facets.inPlace (node : Node) (parent : Option Attributes) : Facets StyleValue where
  id := node.attributes.id
  name := node.attributes.name
  kind := if node.attributes.kind = "VECTOR" then "IMAGE-SVG" else node.attributes.kind
  text := node.attributes.characters?
  textStyle :=
    match node.attributes.typeStyle with
    | none => none
    | some style =>
      if style.isSet && !(TextStyle.ofTypeStyle style).isEmpty then
        some (.text (TextStyle.ofTypeStyle style))
      else none
  fills :=
    match node.attributes.fills with
    | none | some [] => none
    | some (paint :: paints) => some (.fills (Fill.ofPaint paint :: paints.map Fill.ofPaint))
  strokes :=
    if (Stroke.ofAttributes node.attributes).isEmpty then none
    else some (.stroke (Stroke.ofAttributes node.attributes))
  effects :=
    if (Effects.ofAttributes node.attributes).isEmpty then none
    else some (.effects (Effects.ofAttributes node.attributes))
  opacity := node.attributes.opacity?
  borderRadius := borderRadiusOf node.attributes
  layout :=
    if (Layout.ofNode node parent).isInformative then some (.layout (Layout.ofNode node parent))
    else none

theorem Facets.inPlace_eq_ofNode (node : Node) (parent : Option Attributes) :
    inPlace node parent = ofNode node parent := by
  have htext : (inPlace node parent).textStyle = (ofNode node parent).textStyle := by
    simp only [inPlace, ofNode, Attributes.textStyle?]
    cases node.attributes.typeStyle with
    | none => rfl
    | some style =>
      cases hset : style.isSet with
      | false => simp [Option.filter_some, hset]
      | true =>
        cases hempty : (TextStyle.ofTypeStyle style).isEmpty <;>
          simp [Option.filter_some, hset, hempty]
  have hfills : (inPlace node parent).fills = (ofNode node parent).fills := by
    simp only [inPlace, ofNode, Attributes.fills?]
    rcases node.attributes.fills with _ | _ | _ <;> rfl
  have hrest : inPlace node parent =
      { ofNode node parent with
        textStyle := (inPlace node parent).textStyle
        fills := (inPlace node parent).fills } := rfl
  rw [hrest, htext, hfills]

mutual

/-- What there is to tell of a node below a parent and of what hangs from it, styles in place. -/
def Node.inPlace (limit : DepthLimit) (parent : Option Attributes) : Node → BriefNode StyleValue
  | ⟨a, none⟩ => { facets := Facets.inPlace ⟨a, none⟩ parent }
  | ⟨a, some children⟩ =>
    { facets := Facets.inPlace ⟨a, some children⟩ parent
      children :=
        match limit.below with
        | some limit => Node.inPlaceAll limit (some a) children
        | none => [] }
termination_by structural n => n

/-- The same of all nodes of a list that are shown, unless there is nothing to tell. -/
def Node.inPlaceAll (limit : DepthLimit) (parent : Option Attributes) :
    List Node → List (BriefNode StyleValue)
  | [] => []
  | n :: rest =>
    if n.attributes.isVisible then
      (n.inPlace limit parent).keep.toList ++ Node.inPlaceAll limit parent rest
    else
      Node.inPlaceAll limit parent rest
termination_by structural ns => ns

end

mutual

/-- The number of nodes from this one down, shown or not. -/
def Node.size : Node → Nat
  | ⟨_, none⟩ => 1
  | ⟨_, some children⟩ => 1 + Node.sizeAll children
termination_by structural n => n

def Node.sizeAll : List Node → Nat
  | [] => 0
  | n :: rest => n.size + Node.sizeAll rest
termination_by structural ns => ns

end

/-- Induction over a forest: over the first tree's children and over the trees behind it. -/
@[elab_as_elim]
theorem Node.forest_induction {motive : List Node → Prop} (nil : motive [])
    (cons : ∀ a children rest, motive (Option.getD children []) → motive rest →
      motive (⟨a, children⟩ :: rest)) :
    ∀ ns, motive ns
  | [] => nil
  | ⟨a, none⟩ :: rest => cons a none rest nil (forest_induction nil cons rest)
  | ⟨a, some children⟩ :: rest =>
    cons a (some children) rest (forest_induction nil cons children)
      (forest_induction nil cons rest)

/-- The briefs of the children, if one may go down to them. -/
def Node.briefsBelow (hash : TextHash) (limit : DepthLimit) (parent : Attributes)
    (children : List Node) : StateM StyleStore (List (BriefNode StyleId)) :=
  match limit.below with
  | some limit => Node.briefs hash limit (some parent) children
  | none => return []

def Node.inPlaceBelow (limit : DepthLimit) (parent : Attributes) (children : List Node) :
    List (BriefNode StyleValue) :=
  match limit.below with
  | some limit => Node.inPlaceAll limit (some parent) children
  | none => []

namespace Node

theorem size_eq (a : Attributes) (children : Option (List Node)) :
    size ⟨a, children⟩ = 1 + sizeAll (children.getD []) := by
  cases children <;> simp [size, sizeAll]

/-- The walk itself leaves hidden nodes out. -/
theorem briefs_filter_isVisible (hash : TextHash) (limit : DepthLimit) (parent : Option Attributes)
    (ns : List Node) :
    briefs hash limit parent (ns.filter (·.attributes.isVisible)) =
      briefs hash limit parent ns := by
  induction ns with
  | nil => rfl
  | cons n ns ih =>
    cases hn : n.attributes.isVisible with
    | true =>
      rw [List.filter_cons, hn, if_pos rfl, briefs, briefs, ih]
    | false =>
      rw [List.filter_cons_of_neg (by simp [hn]), briefs, hn, ih]
      rfl

theorem briefsBelow_visibleChildren (hash : TextHash) (limit : DepthLimit) (n : Node) :
    briefsBelow hash limit n.attributes n.visibleChildren =
      briefsBelow hash limit n.attributes (n.children.getD []) := by
  rw [briefsBelow, briefsBelow, visibleChildren, children?, getD_nonempty?]
  cases limit.below with
  | none => rfl
  | some limit => exact briefs_filter_isVisible hash limit _ _

/-- A brief is made of what is told of the node itself and of the children that are shown. -/
theorem brief_eq (hash : TextHash) (limit : DepthLimit) (parent : Option Attributes) (n : Node) :
    n.brief hash limit parent = do
      let facets ← (Facets.ofNode n parent).mapM (StyleStore.resolve hash)
      let children ← briefsBelow hash limit n.attributes n.visibleChildren
      return BriefNode.keep ⟨facets, children⟩ := by
  obtain ⟨a, children⟩ := n
  rw [briefsBelow_visibleChildren]
  rcases limit with _ | _ | limit <;> cases children <;> rfl

theorem inPlace_eq (limit : DepthLimit) (parent : Option Attributes) (a : Attributes)
    (children : Option (List Node)) :
    inPlace limit parent ⟨a, children⟩ =
      ⟨Facets.ofNode ⟨a, children⟩ parent, inPlaceBelow limit a (children.getD [])⟩ := by
  rw [← Facets.inPlace_eq_ofNode]
  rcases limit with _ | _ | limit <;> cases children <;> rfl

end Node

/-! ## The walk as a run of calls -/

/-- A blank node refers to no style. So it makes no difference that the walk drops it only after
its styles have been exchanged. -/
theorem BriefNode.mapMAll_keep (f : StyleValue → StateM StyleStore StyleId) (t : Facets StyleValue)
    (children : List (BriefNode StyleValue)) :
    mapMAll f (keep ⟨t, children⟩).toList = do
      let facets ← t.mapM f
      let children ← mapMAll f children
      return (keep ⟨facets, children⟩).toList := by
  funext store
  have hblank : isBlank ⟨(t.mapM f store).1, (mapMAll f children (t.mapM f store).2).1⟩ =
      isBlank ⟨t, children⟩ :=
    isBlank_congr (Facets.shape_mapM f t store) (shapeAll_mapMAll f children _)
  have hrun : (do
      let facets ← t.mapM f
      let children ← mapMAll f children
      return (keep ⟨facets, children⟩).toList : StateM StyleStore _) store =
        ((keep ⟨(t.mapM f store).1, (mapMAll f children (t.mapM f store).2).1⟩).toList,
          (mapMAll f children (t.mapM f store).2).2) := rfl
  rw [hrun, keep, keep, hblank]
  cases hb : isBlank ⟨t, children⟩ with
  | false => exact mapMAll_cons_run f t children [] store
  | true =>
    obtain ⟨ht, hc⟩ : t.isBlank = true ∧ children = [] := by simpa [isBlank] using hb
    have hstore : (t.mapM f store).2 = store := by
      have hcalls := congrArg (fun run => (run store).2) (Facets.refs_mapM f t)
      rw [Facets.refs_eq_nil_of_isBlank ht] at hcalls
      exact hcalls
    subst hc
    rw [hstore]
    rfl

theorem Node.briefs_eq_mapMAll (hash : TextHash) (limit : DepthLimit)
    (parent : Option Attributes) (ns : List Node) :
    Node.briefs hash limit parent ns =
      BriefNode.mapMAll (StyleStore.resolve hash) (Node.inPlaceAll limit parent ns) := by
  induction ns using Node.forest_induction generalizing limit parent with
  | nil => rfl
  | cons a children rest ihc ihr =>
    have hbelow : briefsBelow hash limit a (children.getD []) =
        BriefNode.mapMAll (StyleStore.resolve hash) (inPlaceBelow limit a (children.getD [])) := by
      rw [briefsBelow, inPlaceBelow]
      cases limit.below with
      | none => rfl
      | some limit => exact ihc limit (some a)
    rw [Node.briefs, Node.inPlaceAll]
    split
    · rw [BriefNode.mapMAll_append, inPlace_eq, BriefNode.mapMAll_keep, ← ihr, brief_eq,
        briefsBelow_visibleChildren, hbelow]
      simp
    · exact ihr limit parent

/-! ## How many styles there can be -/

/-- Every reference is of the category that goes with its place. -/
structure Facets.Placed {ρ : Type} (category : ρ → Category) (t : Facets ρ) : Prop where
  textStyle : ∀ r ∈ t.textStyle, category r = .text
  fills : ∀ r ∈ t.fills, category r = .fill
  strokes : ∀ r ∈ t.strokes, category r = .stroke
  effects : ∀ r ∈ t.effects, category r = .effect
  layout : ∀ r ∈ t.layout, category r = .layout

theorem Facets.placed_ofNode (node : Node) (parent : Option Attributes) :
    (Facets.ofNode node parent).Placed StyleValue.category := by
  constructor <;> intro v hv <;> simp only [Facets.ofNode] at hv
  · obtain ⟨s, _, rfl⟩ := Option.map_eq_some_iff.mp hv
    rfl
  · obtain ⟨ps, _, rfl⟩ := Option.map_eq_some_iff.mp hv
    rfl
  all_goals
    split at hv <;> cases hv
    rfl

private theorem countP_toList_le {o : Option StyleValue} {c : Category}
    (h : ∀ v ∈ o, v.category = c) (k : Category) :
    o.toList.countP (fun v => v.category = k) ≤ if c = k then 1 else 0 := by
  cases o with
  | none => simp
  | some v => simp [h v rfl, List.countP_cons]

theorem Facets.Placed.countP_refs_le {t : Facets StyleValue} (h : t.Placed StyleValue.category)
    (k : Category) : t.refs.countP (fun v => v.category = k) ≤ 1 := by
  have h₁ := countP_toList_le h.textStyle k
  have h₂ := countP_toList_le h.fills k
  have h₃ := countP_toList_le h.strokes k
  have h₄ := countP_toList_le h.effects k
  have h₅ := countP_toList_le h.layout k
  simp only [refs, List.countP_append]
  cases k <;> simp only [reduceCtorEq, ↓reduceIte] at h₁ h₂ h₃ h₄ h₅ <;> omega

/-- What is dropped refers to no style. -/
theorem BriefNode.refsAll_keep {ρ : Type} (t : Facets ρ) (children : List (BriefNode ρ)) :
    refsAll (keep ⟨t, children⟩).toList = t.refs ++ refsAll children := by
  rw [keep]
  split
  · rename_i hblank
    obtain ⟨ht, hchildren⟩ : t.isBlank = true ∧ children.isEmpty = true :=
      Bool.and_eq_true_iff.mp hblank
    rw [List.isEmpty_iff.mp hchildren, Facets.refs_eq_nil_of_isBlank ht]
    rfl
  · simp

/-- A node has at most one style of each category, so there are no more of them than nodes. -/
theorem Node.countP_refsAll_le (limit : DepthLimit) (parent : Option Attributes) (ns : List Node)
    (k : Category) :
    (BriefNode.refsAll (inPlaceAll limit parent ns)).countP (fun v => v.category = k) ≤
      sizeAll ns := by
  induction ns using Node.forest_induction generalizing limit parent with
  | nil => exact Nat.le_refl 0
  | cons a children rest ihc ihr =>
    have hbelow : (BriefNode.refsAll (inPlaceBelow limit a (children.getD []))).countP
        (fun v => v.category = k) ≤ sizeAll (children.getD []) := by
      rw [inPlaceBelow]
      cases limit.below with
      | none => simp
      | some limit => exact ihc limit (some a)
    have hfacets := (Facets.placed_ofNode ⟨a, children⟩ parent).countP_refs_le k
    have hrest := ihr limit parent
    rw [inPlaceAll, sizeAll, size_eq]
    split
    · rw [BriefNode.refsAll_append, inPlace_eq, BriefNode.refsAll_keep, List.countP_append,
        List.countP_append]
      omega
    · omega

/-! ## Looking the ids up again -/

theorem briefTreeBy_eq (hash : TextHash) (limit : DepthLimit) (roots : List Node) :
    briefTreeBy hash limit roots =
      ((BriefNode.mapMAll (m := StateM StyleStore) (StyleStore.resolve hash)
          (Node.inPlaceAll limit none roots) {}).1,
        (BriefNode.mapMAll (m := StateM StyleStore) (StyleStore.resolve hash)
          (Node.inPlaceAll limit none roots) {}).2.table) := by
  rw [briefTreeBy, Node.briefs_eq_mapMAll]
  rfl

theorem shapeAll_briefTreeBy (hash : TextHash) (limit : DepthLimit) (roots : List Node) :
    BriefNode.shapeAll (briefTreeBy hash limit roots).1 =
      BriefNode.shapeAll (Node.inPlaceAll limit none roots) := by
  rw [briefTreeBy_eq]
  exact BriefNode.shapeAll_mapMAll (StyleStore.resolve hash) (Node.inPlaceAll limit none roots) {}

theorem refsAll_briefTreeBy (hash : TextHash) (limit : DepthLimit) (roots : List Node) :
    BriefNode.refsAll (briefTreeBy hash limit roots).1 =
      (StyleStore.resolveAll hash
        (BriefNode.refsAll (Node.inPlaceAll limit none roots)) {}).1 := by
  rw [briefTreeBy_eq, StyleStore.resolveAll, BriefNode.run_refsAll]

theorem table_briefTreeBy (hash : TextHash) (limit : DepthLimit) (roots : List Node) :
    (briefTreeBy hash limit roots).2 =
      (StyleStore.after hash (BriefNode.refsAll (Node.inPlaceAll limit none roots))).table := by
  rw [briefTreeBy_eq, StyleStore.after, StyleStore.resolveAll, BriefNode.run_refsAll]

/-- The hash decides how fast a style is found, and nothing else. -/
theorem briefTreeBy_eq_briefTree (hash : TextHash) (limit : DepthLimit) (roots : List Node) :
    briefTreeBy hash limit roots = briefTree limit roots := by
  have hrun := StyleStore.linear_after hash
    (BriefNode.refsAll (Node.inPlaceAll limit none roots))
  rw [StyleStore.linear_after TextHash.mixing] at hrun
  obtain ⟨hids, hstore⟩ := Prod.mk.inj hrun
  refine Prod.ext ?_ ?_
  · refine BriefNode.eq_of_shapeAll_refsAll ?_ ?_
    · rw [briefTree, shapeAll_briefTreeBy, shapeAll_briefTreeBy]
    · rw [briefTree, refsAll_briefTreeBy, refsAll_briefTreeBy, hids]
  · rw [briefTree, table_briefTreeBy, table_briefTreeBy]
    exact (congrArg LinearStore.table hstore).symm

/-- A tree is too small for a counter to run over, so no id comes twice. -/
theorem nodup_ids_briefTreeBy (hash : TextHash) (limit : DepthLimit) {roots : List Node}
    (hsize : Node.sizeAll roots < 2 ^ 32) : (briefTreeBy hash limit roots).2.ids.Nodup := by
  rw [table_briefTreeBy]
  exact StyleStore.nodup_ids_after fun k =>
    Nat.lt_of_le_of_lt ((StyleValue.length_textsIn_le k _).trans
      (Node.countP_refsAll_le limit none roots k)) hsize

/-- Whatever the hash, looking up the ids of a brief in its table always succeeds, and the styles
that are found say what the styles say that the walk without a store leaves in place. -/
theorem briefTreeBy_shows (hash : TextHash) (limit : DepthLimit) (roots : List Node)
    (hsize : Node.sizeAll roots < 2 ^ 32) :
    ∃ shown : List (BriefNode StyleValue),
      BriefNode.mapAll (briefTreeBy hash limit roots).2.get? (briefTreeBy hash limit roots).1 =
        BriefNode.mapAll some shown ∧
      BriefNode.mapAll StyleValue.key shown =
        BriefNode.mapAll StyleValue.key (Node.inPlaceAll limit none roots) := by
  have hnd := nodup_ids_briefTreeBy hash limit hsize
  rw [table_briefTreeBy] at hnd
  have hkeys := StyleStore.map_get?_resolveAll hnd
  rw [← refsAll_briefTreeBy, ← table_briefTreeBy] at hkeys
  have : Inhabited StyleValue := ⟨.fills []⟩
  exact BriefNode.exists_mapAll_some (shapeAll_briefTreeBy hash limit roots) hkeys

/-- A node far behind the first one of its look still shows it, although both share one id and the
hash tells no style from another. -/
theorem briefTreeBy_shows_shared :
    let roots : List Node :=
      [⟨{ id := "1", fills := some [{ kind := .solid }] },
          some [⟨{ id := "2", fills := some [{ kind := .image }] }, none⟩]⟩,
        ⟨{ id := "3", fills := some [{ kind := .solid }] }, none⟩]
    let shown : List (BriefNode StyleValue) :=
      [⟨{ id := "1", name := "", kind := "", fills := some (.fills [.plain .solid]) },
          [⟨{ id := "2", name := "", kind := "", fills := some (.fills [.image none none]) }, []⟩]⟩,
        ⟨{ id := "3", name := "", kind := "", fills := some (.fills [.plain .solid]) }, []⟩]
    Node.sizeAll roots < 2 ^ 32 ∧
      BriefNode.refsAll (briefTreeBy (fun _ => 0) none roots).1 =
        [⟨.fill, 1⟩, ⟨.fill, 2⟩, ⟨.fill, 1⟩] ∧
      BriefNode.mapAll (briefTreeBy (fun _ => 0) none roots).2.get?
          (briefTreeBy (fun _ => 0) none roots).1 =
        BriefNode.mapAll some shown ∧
      BriefNode.mapAll StyleValue.key shown =
        BriefNode.mapAll StyleValue.key (Node.inPlaceAll none none roots) := by
  intro roots shown
  have hsize : Node.sizeAll roots < 2 ^ 32 := by decide
  have hbrief : briefTreeBy (fun _ => 0) none roots =
      ([⟨{ id := "1", name := "", kind := "", fills := some ⟨.fill, 1⟩ },
          [⟨{ id := "2", name := "", kind := "", fills := some ⟨.fill, 2⟩ }, []⟩]⟩,
        ⟨{ id := "3", name := "", kind := "", fills := some ⟨.fill, 1⟩ }, []⟩],
        ⟨#[(⟨.fill, 1⟩, .fills [.plain .solid]), (⟨.fill, 2⟩, .fills [.image none none])]⟩) := by
    cbv
  have hids : BriefNode.refsAll (briefTreeBy (fun _ => 0) none roots).1 =
      [⟨.fill, 1⟩, ⟨.fill, 2⟩, ⟨.fill, 1⟩] := by
    rw [hbrief]
    rfl
  have hfound : BriefNode.mapAll (briefTreeBy (fun _ => 0) none roots).2.get?
      (briefTreeBy (fun _ => 0) none roots).1 = BriefNode.mapAll some shown := by
    rw [hbrief]
    rfl
  obtain ⟨found, hshown, hkeys⟩ := briefTreeBy_shows (fun _ => 0) none roots hsize
  let keyOf (v : Option StyleValue) : Category × String := (v.getD (.fills [])).key
  have hsame := congrArg (BriefNode.mapAll keyOf) (hfound.symm.trans hshown)
  rw [BriefNode.mapAll_mapAll, BriefNode.mapAll_mapAll] at hsame
  exact ⟨hsize, hids, hfound, hsame.trans hkeys⟩

end DesignBrief
