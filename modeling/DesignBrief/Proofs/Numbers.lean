import DesignBrief.Proofs.Reading
import DesignBrief.Proofs.Visits

/-!
The numbers of a design file. Whoever reads one from a text gets finite numbers only,
`Response.allFinite_of_ofText`, since every field of every record does, and what is absent is 0
or 1.
-/

namespace DesignBrief

/-! ## What is finite -/

structure Point.IsFinite (p : Point) : Prop where
  x : p.x.isFinite = true
  y : p.y.isFinite = true

structure Box.IsFinite (b : Box) : Prop where
  x : b.x.isFinite = true
  y : b.y.isFinite = true
  width : b.width.isFinite = true
  height : b.height.isFinite = true

structure Edges.IsFinite (e : Edges) : Prop where
  top : e.top.isFinite = true
  right : e.right.isFinite = true
  bottom : e.bottom.isFinite = true
  left : e.left.isFinite = true

structure Color.IsFinite (c : Color) : Prop where
  r : c.r.isFinite = true
  g : c.g.isFinite = true
  b : c.b.isFinite = true
  a : c.a.isFinite = true

structure ColorStop.IsFinite (s : ColorStop) : Prop where
  position : s.position.isFinite = true
  color : s.color.IsFinite

structure Paint.IsFinite (p : Paint) : Prop where
  opacity : ∀ x ∈ p.opacity, x.isFinite = true
  color : ∀ c ∈ p.color, c.IsFinite
  handles : ∀ hs ∈ p.handles, ∀ h ∈ hs, h.IsFinite
  stops : ∀ ss ∈ p.stops, ∀ s ∈ ss, s.IsFinite

structure Effect.IsFinite (e : Effect) : Prop where
  radius : e.radius.isFinite = true
  color : ∀ c ∈ e.color, c.IsFinite
  offset : ∀ o ∈ e.offset, o.IsFinite
  spread : ∀ x ∈ e.spread, x.isFinite = true

structure TypeStyle.IsFinite (s : TypeStyle) : Prop where
  fontWeight : ∀ x ∈ s.fontWeight, x.isFinite = true
  fontSize : ∀ x ∈ s.fontSize, x.isFinite = true
  lineHeight : ∀ x ∈ s.lineHeight, x.isFinite = true
  letterSpacing : ∀ x ∈ s.letterSpacing, x.isFinite = true

structure Attributes.IsFinite (a : Attributes) : Prop where
  box : ∀ b ∈ a.box, b.IsFinite
  fills : ∀ ps ∈ a.fills, ∀ p ∈ ps, p.IsFinite
  strokes : ∀ ps ∈ a.strokes, ∀ p ∈ ps, p.IsFinite
  strokeWeight : ∀ x ∈ a.strokeWeight, x.isFinite = true
  edgeWeights : ∀ e ∈ a.edgeWeights, e.IsFinite
  strokeDashes : ∀ xs ∈ a.strokeDashes, ∀ x ∈ xs, x.isFinite = true
  effects : ∀ es ∈ a.effects, ∀ e ∈ es, e.IsFinite
  typeStyle : ∀ s ∈ a.typeStyle, s.IsFinite
  opacity : ∀ x ∈ a.opacity, x.isFinite = true
  cornerRadius : ∀ x ∈ a.cornerRadius, x.isFinite = true
  cornerRadii : ∀ xs ∈ a.cornerRadii, ∀ x ∈ xs, x.isFinite = true
  itemSpacing : ∀ x ∈ a.itemSpacing, x.isFinite = true
  paddingTop : ∀ x ∈ a.paddingTop, x.isFinite = true
  paddingRight : ∀ x ∈ a.paddingRight, x.isFinite = true
  paddingBottom : ∀ x ∈ a.paddingBottom, x.isFinite = true
  paddingLeft : ∀ x ∈ a.paddingLeft, x.isFinite = true
  grow : ∀ x ∈ a.grow, x.isFinite = true

/-- What holds of the attributes of all nodes of a tree. -/
inductive Node.All (P : Attributes → Prop) : Node → Prop
  | mk {a : Attributes} {children : Option (List Node)} (here : P a)
      (below : ∀ n ∈ children.getD [], Node.All P n) : Node.All P ⟨a, children⟩

/-! ## What is read -/

open Reader Slot Double

theorem isFinite_zero : (0 : Float).isFinite = true := by decide

theorem isFinite_one : (1 : Float).isFinite = true := by decide

theorem Point.gives_isFinite : record.reader.Gives IsFinite := by
  refine Record.gives_reader ⟨isFinite_zero, isFinite_zero⟩ ?_
  simp only [record, List.forall_mem_cons, List.not_mem_nil, false_implies, implies_true, and_true]
  refine ⟨?_, ?_⟩
  · exact keeps_required "x" gives_double fun _ _ hv h => { h with x := hv }
  · exact keeps_required "y" gives_double fun _ _ hv h => { h with y := hv }

theorem Box.gives_isFinite : record.reader.Gives IsFinite := by
  refine Record.gives_reader ⟨isFinite_zero, isFinite_zero, isFinite_zero, isFinite_zero⟩ ?_
  simp only [record, List.forall_mem_cons, List.not_mem_nil, false_implies, implies_true, and_true]
  refine ⟨?_, ?_, ?_, ?_⟩
  · exact keeps_optional "x" gives_double fun _ _ hv h => { h with x := hv }
  · exact keeps_optional "y" gives_double fun _ _ hv h => { h with y := hv }
  · exact keeps_optional "width" gives_double fun _ _ hv h => { h with width := hv }
  · exact keeps_optional "height" gives_double fun _ _ hv h => { h with height := hv }

theorem Edges.gives_isFinite : record.reader.Gives IsFinite := by
  refine Record.gives_reader ⟨isFinite_zero, isFinite_zero, isFinite_zero, isFinite_zero⟩ ?_
  simp only [record, List.forall_mem_cons, List.not_mem_nil, false_implies, implies_true, and_true]
  refine ⟨?_, ?_, ?_, ?_⟩
  · exact keeps_optional "top" gives_double fun _ _ hv h => { h with top := hv }
  · exact keeps_optional "right" gives_double fun _ _ hv h => { h with right := hv }
  · exact keeps_optional "bottom" gives_double fun _ _ hv h => { h with bottom := hv }
  · exact keeps_optional "left" gives_double fun _ _ hv h => { h with left := hv }

theorem Color.gives_isFinite : record.reader.Gives IsFinite := by
  refine Record.gives_reader ⟨isFinite_zero, isFinite_zero, isFinite_zero, isFinite_one⟩ ?_
  simp only [record, List.forall_mem_cons, List.not_mem_nil, false_implies, implies_true, and_true]
  refine ⟨?_, ?_, ?_, ?_⟩
  · exact keeps_optional "r" gives_double fun _ _ hv h => { h with r := hv }
  · exact keeps_optional "g" gives_double fun _ _ hv h => { h with g := hv }
  · exact keeps_optional "b" gives_double fun _ _ hv h => { h with b := hv }
  · exact keeps_optional "a" gives_double fun _ _ hv h => { h with a := hv }

theorem ColorStop.gives_isFinite : record.reader.Gives IsFinite := by
  refine Record.gives_reader
    ⟨isFinite_zero, isFinite_zero, isFinite_zero, isFinite_zero, isFinite_one⟩ ?_
  simp only [record, List.forall_mem_cons, List.not_mem_nil, false_implies, implies_true, and_true]
  refine ⟨?_, ?_⟩
  · exact keeps_required "position" gives_double fun _ _ hv h => { h with position := hv }
  · exact keeps_required "color" Color.gives_isFinite fun _ _ hv h => { h with color := hv }

theorem Paint.gives_isFinite : record.reader.Gives IsFinite := by
  refine Record.gives_reader ⟨nofun, nofun, nofun, nofun⟩ ?_
  simp only [record, List.forall_mem_cons, List.not_mem_nil, false_implies, implies_true, and_true]
  and_intros
  -- First the fields that hold no numbers.
  all_goals first
    | exact keeps_optional _ (gives_true _) fun _ _ _ h => { h with }
    | exact keeps_required _ (gives_true _) fun _ _ _ h => { h with }
    | skip
  · exact keeps_optional "opacity" (gives_optional gives_double)
      fun _ _ hv h => { h with opacity := hv }
  · exact keeps_optional "color" (gives_optional Color.gives_isFinite)
      fun _ _ hv h => { h with color := hv }
  · exact keeps_optional "gradientHandlePositions"
      (gives_optional (gives_list Point.gives_isFinite))
      fun _ _ hv h => { h with handles := hv }
  · exact keeps_optional "gradientStops" (gives_optional (gives_list ColorStop.gives_isFinite))
      fun _ _ hv h => { h with stops := hv }

theorem Effect.gives_isFinite : record.reader.Gives IsFinite := by
  refine Record.gives_reader ⟨isFinite_zero, nofun, nofun, nofun⟩ ?_
  simp only [record, List.forall_mem_cons, List.not_mem_nil, false_implies, implies_true, and_true]
  and_intros
  -- First the fields that hold no numbers.
  all_goals first
    | exact keeps_optional _ (gives_true _) fun _ _ _ h => { h with }
    | exact keeps_required _ (gives_true _) fun _ _ _ h => { h with }
    | skip
  · exact keeps_optional "radius" gives_double fun _ _ hv h => { h with radius := hv }
  · exact keeps_optional "color" (gives_optional Color.gives_isFinite)
      fun _ _ hv h => { h with color := hv }
  · exact keeps_optional "offset" (gives_optional Point.gives_isFinite)
      fun _ _ hv h => { h with offset := hv }
  · exact keeps_optional "spread" (gives_optional gives_double)
      fun _ _ hv h => { h with spread := hv }

theorem TypeStyle.gives_isFinite : record.reader.Gives IsFinite := by
  refine Record.gives_reader ⟨nofun, nofun, nofun, nofun⟩ ?_
  simp only [record, List.forall_mem_cons, List.not_mem_nil, false_implies, implies_true, and_true]
  and_intros
  -- First the fields that hold no numbers.
  all_goals first
    | exact keeps_optional _ (gives_true _) fun _ _ _ h => { h with }
    | exact keeps_required _ (gives_true _) fun _ _ _ h => { h with }
    | skip
  · exact keeps_optional "fontWeight" (gives_optional gives_double)
      fun _ _ hv h => { h with fontWeight := hv }
  · exact keeps_optional "fontSize" (gives_optional gives_double)
      fun _ _ hv h => { h with fontSize := hv }
  · exact keeps_optional "lineHeightPx" (gives_optional gives_double)
      fun _ _ hv h => { h with lineHeight := hv }
  · exact keeps_optional "letterSpacing" (gives_optional gives_double)
      fun _ _ hv h => { h with letterSpacing := hv }

namespace Node

theorem keeps_own {α : Type} {P : Attributes → Prop} {Q : α → Prop} (key : String)
    {r : Reader α} {put : α → Attributes → Attributes} (hr : r.Gives Q)
    (hput : ∀ v a, Q v → P a → P (put v a)) : (own key r put).Keeps (All P) := by
  refine keeps_optional key hr fun v n hv hn => ?_
  cases hn with
  | mk here below => exact .mk (hput v _ hv here) below

theorem gives_allFinite_record {child : Reader Node} (hchild : child.Gives (All (·.IsFinite))) :
    (record child).reader.Gives (All (·.IsFinite)) := by
  have hblank : (record child).blank.All (·.IsFinite) := by
    refine .mk ?_ nofun
    constructor <;> nofun
  refine Record.gives_reader hblank ?_
  simp only [record, List.forall_mem_cons, List.not_mem_nil, false_implies, implies_true, and_true]
  and_intros
  -- First the fields that hold no numbers.
  all_goals first
    | exact keeps_own _ (gives_true _) fun _ _ _ h => { h with }
    | skip
  · refine keeps_optional "children" (gives_optional (gives_list hchild)) fun children n hc hn => ?_
    cases hn with
    | mk here below =>
      refine .mk here fun n hn => ?_
      cases children with
      | none => cases hn
      | some ns => exact hc ns rfl n hn
  · exact keeps_own "absoluteBoundingBox" (gives_optional Box.gives_isFinite)
      fun _ _ hv h => { h with box := hv }
  · exact keeps_own "fills" (gives_optional (gives_list Paint.gives_isFinite))
      fun _ _ hv h => { h with fills := hv }
  · exact keeps_own "strokes" (gives_optional (gives_list Paint.gives_isFinite))
      fun _ _ hv h => { h with strokes := hv }
  · exact keeps_own "strokeWeight" (gives_optional gives_double)
      fun _ _ hv h => { h with strokeWeight := hv }
  · exact keeps_own "individualStrokeWeights" (gives_optional Edges.gives_isFinite)
      fun _ _ hv h => { h with edgeWeights := hv }
  · exact keeps_own "strokeDashes" (gives_optional (gives_list gives_double))
      fun _ _ hv h => { h with strokeDashes := hv }
  · exact keeps_own "effects" (gives_optional (gives_list Effect.gives_isFinite))
      fun _ _ hv h => { h with effects := hv }
  · exact keeps_own "style" (gives_optional TypeStyle.gives_isFinite)
      fun _ _ hv h => { h with typeStyle := hv }
  · exact keeps_own "opacity" (gives_optional gives_double) fun _ _ hv h => { h with opacity := hv }
  · exact keeps_own "cornerRadius" (gives_optional gives_double)
      fun _ _ hv h => { h with cornerRadius := hv }
  · exact keeps_own "rectangleCornerRadii" (gives_optional (gives_list gives_double))
      fun _ _ hv h => { h with cornerRadii := hv }
  · exact keeps_own "itemSpacing" (gives_optional gives_double)
      fun _ _ hv h => { h with itemSpacing := hv }
  · exact keeps_own "paddingTop" (gives_optional gives_double)
      fun _ _ hv h => { h with paddingTop := hv }
  · exact keeps_own "paddingRight" (gives_optional gives_double)
      fun _ _ hv h => { h with paddingRight := hv }
  · exact keeps_own "paddingBottom" (gives_optional gives_double)
      fun _ _ hv h => { h with paddingBottom := hv }
  · exact keeps_own "paddingLeft" (gives_optional gives_double)
      fun _ _ hv h => { h with paddingLeft := hv }
  · exact keeps_own "layoutGrow" (gives_optional gives_double) fun _ _ hv h => { h with grow := hv }

theorem gives_allFinite_readerTo (generations : Nat) :
    (readerTo generations).Gives (All (·.IsFinite)) := by
  induction generations with
  | zero => exact gives_allFinite_record (gives_refuse .tooDeep)
  | succ generations ih => exact gives_allFinite_record ih

theorem gives_allFinite : reader.Gives (All (·.IsFinite)) := gives_allFinite_readerTo depthLimit

end Node

structure Response.AllFinite (r : Response) : Prop where
  document : ∀ d ∈ r.document, d.All (·.IsFinite)
  nodes : ∀ ms ∈ r.nodes, ∀ m ∈ ms, ∀ e ∈ m.2, e.document.All (·.IsFinite)

theorem NodeEntry.gives_allFinite : record.reader.Gives fun e => e.document.All (·.IsFinite) := by
  have hblank : record.blank.document.All (·.IsFinite) := by
    refine .mk ?_ nofun
    constructor <;> nofun
  refine Record.gives_reader hblank ?_
  simp only [record, List.forall_mem_cons, List.not_mem_nil, false_implies, implies_true, and_true]
  exact keeps_required "document" Node.gives_allFinite fun _ _ hv _ => hv

namespace Response

theorem gives_allFinite : record.reader.Gives AllFinite := by
  refine Record.gives_reader ⟨nofun, nofun⟩ ?_
  simp only [record, List.forall_mem_cons, List.not_mem_nil, false_implies, implies_true, and_true]
  and_intros
  all_goals first
    | exact keeps_optional _ (gives_true _) fun _ _ _ h => { h with }
    | skip
  · exact keeps_optional "document" (gives_optional Node.gives_allFinite)
      fun _ _ hv h => { h with document := hv }
  · exact keeps_optional "nodes" (gives_optional (gives_keyed _ (gives_optional
      NodeEntry.gives_allFinite))) fun _ _ hv h => { h with nodes := hv }

/-- Whatever stands in a text, the numbers that are read from it are finite. -/
theorem allFinite_of_ofText {s : String} {r : Response} (h : ofText s = .ok r) : r.AllFinite := by
  unfold ofText at h
  cases hread : record.reader.ofText s with
  | error fault =>
    rw [hread] at h
    cases h
  | ok r' =>
    rw [hread] at h
    cases h
    exact gives_allFinite.ofText hread

theorem AllFinite.roots {r : Response} (h : r.AllFinite) {ns : List Node}
    (hns : r.roots = .ok ns) : ∀ n ∈ ns, n.All (·.IsFinite) := by
  obtain ⟨name, lastModified, thumbnailUrl, document, nodes⟩ := r
  cases document with
  | some d =>
    cases hns
    obtain ⟨_, below⟩ := h.document d rfl
    exact below
  | none =>
    cases nodes with
    | none => cases hns
    | some ms =>
      cases hns
      intro n hn
      obtain ⟨m, hm, hn⟩ := List.mem_filterMap.mp hn
      obtain ⟨e, he, rfl⟩ := Option.map_eq_some_iff.mp hn
      exact h.nodes ms rfl m hm e he

end Response

/-- What holds of all nodes of a forest holds of all that the walk comes to. -/
theorem Node.forall_visitsAll {P : Attributes → Prop} {limit : DepthLimit}
    {parent : Option Attributes} {ns : List Node} (h : ∀ n ∈ ns, n.All P) :
    ∀ v ∈ visitsAll limit parent ns, P v.1.attributes := by
  induction ns using Node.forest_induction generalizing limit parent with
  | nil => exact fun v hv => absurd hv List.not_mem_nil
  | cons a children rest ihc ihr =>
    obtain ⟨hfirst, hrest⟩ := List.forall_mem_cons.mp h
    obtain ⟨here, below⟩ := hfirst
    cases ha : a.isVisible with
    | false =>
      rw [visitsAll_cons_of_hidden rest ha]
      exact ihr hrest
    | true =>
      rw [visitsAll_cons_of_visible rest ha, List.forall_mem_cons, List.forall_mem_append]
      refine ⟨here, ?_, ihr hrest⟩
      rw [visitsBelow]
      cases limit.below with
      | none => exact fun v hv => absurd hv List.not_mem_nil
      | some limit => exact ihc below

end DesignBrief
