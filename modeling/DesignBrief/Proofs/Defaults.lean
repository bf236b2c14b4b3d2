import DesignBrief.Proofs.Matched
import DesignBrief.Proofs.Told

/-!
Defaults may be left out. A value that holds anyway tells as much as none, so whichever of them are
left out of a forest, and wherever, its brief stays the same: `briefTreeBy_eq_of_reduced`. A default
may be all that makes a node a frame or a child that is placed; what is put in then is nothing.
-/

namespace DesignBrief

/-! ## Defaults -/

/-- Where a value is silent it may have been left out; else there are related values on both
sides. -/
inductive LeavesOut {α : Type} (R : α → α → Prop) (silent : α → Prop) : Option α → Option α → Prop
  | absent : LeavesOut R silent none none
  | kept {x y : α} (h : R x y) : LeavesOut R silent (some x) (some y)
  | left {x : α} (h : silent x) : LeavesOut R silent (some x) none

namespace LeavesOut

variable {α β : Type} {R : α → α → Prop} {silent : α → Prop} {x y : Option α}

/-- What treats related values alike and silent ones like none cannot tell what was left out. -/
theorem congr (h : LeavesOut R silent x y) (g : Option α → β)
    (hR : ∀ u v, R u v → g (some u) = g (some v)) (hsilent : ∀ v, silent v → g (some v) = g none) :
    g x = g y := by
  cases h with
  | absent => rfl
  | kept h => exact hR _ _ h
  | left h => exact hsilent _ h

theorem congr_eq (h : LeavesOut Eq silent x y) (g : Option α → β)
    (hsilent : ∀ v, silent v → g (some v) = g none) : g x = g y :=
  h.congr g (fun _ _ huv => congrArg (fun v => g (some v)) huv) hsilent

theorem filter_eq {p : α → Bool} (h : LeavesOut Eq silent x y)
    (hsilent : ∀ v, silent v → p v = false) : x.filter p = y.filter p :=
  h.congr_eq (Option.filter p) fun v hv => by
    rw [Option.filter_some, hsilent v hv]
    rfl

theorem forall₂_getD {xs ys : Option (List α)} (h : LeavesOut (List.Forall₂ R) (· = []) xs ys) :
    List.Forall₂ R (xs.getD []) (ys.getD []) := by
  cases h with
  | absent => exact .nil
  | kept h => exact h
  | left h => cases h; exact .nil

end LeavesOut

/-- The second paint is the first one with defaults left out. -/
structure Paint.ReducesTo (p q : Paint) : Prop where
  visible : LeavesOut Eq (· = true) p.visible q.visible
  opacity : LeavesOut Eq (· = 1) p.opacity q.opacity
  -- What has no default stays as it is.
  kind : p.kind = q.kind
  color : p.color = q.color
  handles : p.handles = q.handles
  stops : p.stops = q.stops
  imageRef : p.imageRef = q.imageRef
  scaleMode : p.scaleMode = q.scaleMode

structure Effect.ReducesTo (e f : Effect) : Prop where
  visible : LeavesOut Eq (· = true) e.visible f.visible
  offset : LeavesOut Eq (· = ⟨0, 0⟩) e.offset f.offset
  spread : LeavesOut Eq (· = 0) e.spread f.spread
  kind : e.kind = f.kind
  radius : e.radius = f.radius
  color : e.color = f.color

/-- The second style is the first one, perhaps without a letter spacing that was zero. -/
structure TypeStyle.ReducesTo (s t : TypeStyle) : Prop where
  letterSpacing : LeavesOut Eq (fun x => (x == 0) = true) s.letterSpacing t.letterSpacing
  others : { s with letterSpacing := none } = { t with letterSpacing := none }

/-- The second attributes are the first ones with defaults left out. -/
structure Attributes.ReducesTo (a b : Attributes) : Prop where
  visible : LeavesOut Eq (· = true) a.visible b.visible
  characters : LeavesOut Eq (· = "") a.characters b.characters
  typeStyle : LeavesOut TypeStyle.ReducesTo (·.ReducesTo {}) a.typeStyle b.typeStyle
  fills : LeavesOut (List.Forall₂ Paint.ReducesTo) (· = []) a.fills b.fills
  strokes : LeavesOut (List.Forall₂ Paint.ReducesTo) (· = []) a.strokes b.strokes
  strokeWeight : LeavesOut Eq (· ≤ 0) a.strokeWeight b.strokeWeight
  strokeDashes : LeavesOut Eq (· = []) a.strokeDashes b.strokeDashes
  effects : LeavesOut (List.Forall₂ Effect.ReducesTo) (· = []) a.effects b.effects
  opacity : LeavesOut Eq (· = 1) a.opacity b.opacity
  cornerRadius : LeavesOut Eq (· ≤ 0) a.cornerRadius b.cornerRadius
  cornerRadii : LeavesOut Eq (fun rs => rs.length ≠ 4 ∨ ∀ r ∈ rs, (r == 0) = true)
    a.cornerRadii b.cornerRadii
  primaryAlign : LeavesOut Eq (· = .min) a.primaryAlign b.primaryAlign
  counterAlign : LeavesOut Eq (· = .min) a.counterAlign b.counterAlign
  wrap : LeavesOut Eq (· = .noWrap) a.wrap b.wrap
  itemSpacing : LeavesOut Eq (fun x => (x == 0) = true) a.itemSpacing b.itemSpacing
  paddingTop : LeavesOut Eq (· = 0) a.paddingTop b.paddingTop
  paddingRight : LeavesOut Eq (· = 0) a.paddingRight b.paddingRight
  paddingBottom : LeavesOut Eq (· = 0) a.paddingBottom b.paddingBottom
  paddingLeft : LeavesOut Eq (· = 0) a.paddingLeft b.paddingLeft
  overflow : LeavesOut Eq (· = .none) a.overflow b.overflow
  selfAlign : LeavesOut Eq (fun k => k = .inherit ∨ k = .min) a.selfAlign b.selfAlign
  grow : LeavesOut Eq (fun x => (x == 0) = true) a.grow b.grow
  positioning : LeavesOut Eq (· = .auto) a.positioning b.positioning
  preserveRatio : LeavesOut Eq (· = false) a.preserveRatio b.preserveRatio
  id : a.id = b.id
  name : a.name = b.name
  kind : a.kind = b.kind
  box : a.box = b.box
  edgeWeights : a.edgeWeights = b.edgeWeights
  clipsContent : a.clipsContent = b.clipsContent
  layoutMode : a.layoutMode = b.layoutMode
  sizeHorizontal : a.sizeHorizontal = b.sizeHorizontal
  sizeVertical : a.sizeVertical = b.sizeVertical

/-- The second forest is the first one with defaults left out of any of its nodes, hidden ones
among them. A missing list of children is no different from an empty one. -/
inductive Node.Reduced : List Node → List Node → Prop
  | nil : Reduced [] []
  | cons {a b : Attributes} {children children' : Option (List Node)} {ns ms : List Node}
      (hab : a.ReducesTo b) (inner : Reduced (children.getD []) (children'.getD []))
      (rest : Reduced ns ms) : Reduced (⟨a, children⟩ :: ns) (⟨b, children'⟩ :: ms)

/-! ## What is told of them -/

theorem Double.not_pos_of_le_zero {x : Float} (h : x ≤ 0) : ¬ 0 < x := by
  intro hpos
  have hzero : (0 : Float).toModel.unpack = .zero .positive := by rfl
  replace h : x.toModel.unpack.le (.zero .positive) = true := hzero ▸ of_decide_eq_true h
  replace hpos : (Float.Model.UnpackedFloat.zero .positive).lt x.toModel.unpack = true :=
    hzero ▸ of_decide_eq_true hpos
  generalize x.toModel.unpack = u at h hpos
  cases u with
  | notANumber => cases h
  | zero s => cases hpos
  | infinity s =>
    cases s with
    | positive => cases h
    | negative => cases hpos
  | finite s m e hm =>
    cases s with
    | positive => cases h
    | negative => cases hpos

/-! ### Paints and effects -/

theorem map_eq_of_forall₂ {α β : Type} {R : α → α → Prop} {xs ys : List α} {f : α → β}
    (hf : ∀ x y, R x y → f x = f y) (h : List.Forall₂ R xs ys) : xs.map f = ys.map f := by
  rw [← List.forall₂_eq_eq_eq, List.forall₂_map_left_iff, List.forall₂_map_right_iff]
  exact h.imp fun x y hxy => hf x y hxy

theorem forall₂_filter {α : Type} {R : α → α → Prop} {xs ys : List α} {p : α → Bool}
    (hp : ∀ x y, R x y → p x = p y) (h : List.Forall₂ R xs ys) :
    List.Forall₂ R (xs.filter p) (ys.filter p) :=
  List.rel_filter (fun x y hxy => iff_of_eq (congrArg (· = true) (hp x y hxy))) h

namespace Paint.ReducesTo

variable {p q : Paint}

theorem shown_eq (h : p.ReducesTo q) : isShown p.visible = isShown q.visible :=
  h.visible.congr_eq isShown (by rintro _ rfl; rfl)

theorem ofPaint_eq (h : p.ReducesTo q) : Fill.ofPaint p = Fill.ofPaint q := by
  have hopacity : p.opacity.getD 1 = q.opacity.getD 1 :=
    h.opacity.congr_eq (·.getD 1) (by rintro _ rfl; rfl)
  simp only [Fill.ofPaint, h.kind, h.color, h.handles, h.stops, h.imageRef, h.scaleMode, hopacity]

end Paint.ReducesTo

namespace Effect.ReducesTo

variable {e f : Effect}

theorem shown_eq (h : e.ReducesTo f) : isShown e.visible = isShown f.visible :=
  h.visible.congr_eq isShown (by rintro _ rfl; rfl)

theorem blur_eq (h : e.ReducesTo f) : Effects.blur e = Effects.blur f := by
  rw [Effects.blur, Effects.blur, h.radius]

theorem shadow_eq (h : e.ReducesTo f) : Effects.shadow e = Effects.shadow f := by
  have hoffset : e.offset.getD ⟨0, 0⟩ = f.offset.getD ⟨0, 0⟩ :=
    h.offset.congr_eq (·.getD ⟨0, 0⟩) (by rintro _ rfl; rfl)
  have hspread : e.spread.getD 0 = f.spread.getD 0 :=
    h.spread.congr_eq (·.getD 0) (by rintro _ rfl; rfl)
  simp only [Effects.shadow, h.kind, h.radius, h.color, hoffset, hspread]

end Effect.ReducesTo

/-- What is shown of two lists is related, if related items are shown alike. -/
theorem forall₂_shownOf {α : Type} {R : α → α → Prop} {visible : α → Option Bool}
    (hR : ∀ x y, R x y → isShown (visible x) = isShown (visible y)) {xs ys : Option (List α)}
    (h : LeavesOut (List.Forall₂ R) (· = []) xs ys) :
    List.Forall₂ R (shownOf visible xs) (shownOf visible ys) :=
  forall₂_filter hR h.forall₂_getD

theorem Effects.ofAttributes_eq_of_reducesTo {a b : Attributes} (hkind : a.kind = b.kind)
    (h : LeavesOut (List.Forall₂ Effect.ReducesTo) (· = []) a.effects b.effects) :
    ofAttributes a = ofAttributes b := by
  have hshown : List.Forall₂ Effect.ReducesTo (shownOf (·.visible) a.effects)
      (shownOf (·.visible) b.effects) := forall₂_shownOf (fun _ _ h => h.shown_eq) h
  have hkinds (kind : EffectKind) := forall₂_filter (p := (·.kind = kind))
    (fun _ _ h => by rw [h.kind]) hshown
  have hshadow (kind : EffectKind) := map_eq_of_forall₂ (fun _ _ h => h.shadow_eq) (hkinds kind)
  have hblur (kind : EffectKind) := map_eq_of_forall₂ (fun _ _ h => h.blur_eq) (hkinds kind)
  simp only [shownOf] at hshadow hblur
  simp only [ofAttributes, ofKind, Attributes.effects?, getD_nonempty?, List.map_append, hkind,
    hshadow, hblur]

theorem Stroke.ofAttributes_eq_of_reducesTo {a b : Attributes} (h : a.ReducesTo b) :
    ofAttributes a = ofAttributes b := by
  have hshown : List.Forall₂ Paint.ReducesTo (shownOf (·.visible) a.strokes)
      (shownOf (·.visible) b.strokes) := forall₂_shownOf (fun _ _ h => h.shown_eq) h.strokes
  have hcolors := map_eq_of_forall₂ (fun _ _ h => h.ofPaint_eq) hshown
  have hweight : a.strokeWeight? = b.strokeWeight? := h.strokeWeight.filter_eq fun w hw => by
    simp [Double.not_pos_of_le_zero hw]
  have hdashes : a.strokeDashes? = b.strokeDashes? :=
    h.strokeDashes.filter_eq (by rintro _ rfl; rfl)
  rw [ofAttributes_eq, ofAttributes_eq, hcolors, weightOf, weightOf, h.edgeWeights, hweight,
    hdashes]

theorem fills_eq_of_reducesTo {xs ys : Option (List Paint)}
    (h : LeavesOut (List.Forall₂ Paint.ReducesTo) (· = []) xs ys) :
    (nonempty? xs).map (·.map Fill.ofPaint) = (nonempty? ys).map (·.map Fill.ofPaint) := by
  rw [← nonempty?_map, ← nonempty?_map]
  refine h.congr (fun xs => nonempty? (xs.map (·.map Fill.ofPaint))) (fun ps qs hpq => ?_)
    (by rintro _ rfl; rfl)
  simp only [Option.map_some, map_eq_of_forall₂ (fun _ _ h => h.ofPaint_eq) hpq]

/-! ### Texts -/

namespace TextStyle

theorem ofTypeStyle_eq_of_reducesTo {s t : TypeStyle} (h : s.ReducesTo t) :
    ofTypeStyle s = ofTypeStyle t := by
  have hspacing : s.letterSpacing.filter (· != 0) = t.letterSpacing.filter (· != 0) :=
    h.letterSpacing.filter_eq fun x hx => by simp [bne, hx]
  have hothers := h.others
  cases s
  cases t
  injection hothers with hfamily hweight hsize hline _ hcase halign halign'
  subst hfamily hweight hsize hline hcase halign halign'
  simp only [ofTypeStyle, hspacing]

theorem told_eq_of_reducesTo {x y : Option TypeStyle}
    (h : LeavesOut TypeStyle.ReducesTo (·.ReducesTo {}) x y) : told x = told y := by
  refine h.congr told (fun s t hst => ?_) fun s hs => ?_
  · rw [told_some, told_some, ofTypeStyle_eq_of_reducesTo hst]
  · rw [told_some, ofTypeStyle_eq_of_reducesTo hs]
    rfl

end TextStyle

/-! ### Layouts -/

namespace Attributes.ReducesTo

variable {a b : Attributes}

theorem isVisible_eq (h : a.ReducesTo b) : a.isVisible = b.isVisible :=
  h.visible.congr_eq isShown (by rintro _ rfl; rfl)

theorem isAbsolute_eq (h : a.ReducesTo b) : a.isAbsolute = b.isAbsolute :=
  h.positioning.congr_eq (· == some .absolute) (by rintro _ rfl; rfl)

theorem padding_eq (h : a.ReducesTo b) : a.padding? = b.padding? := by
  have htop := h.paddingTop.congr_eq (·.getD 0) (by rintro _ rfl; rfl)
  have hright := h.paddingRight.congr_eq (·.getD 0) (by rintro _ rfl; rfl)
  have hbottom := h.paddingBottom.congr_eq (·.getD 0) (by rintro _ rfl; rfl)
  have hleft := h.paddingLeft.congr_eq (·.getD 0) (by rintro _ rfl; rfl)
  simp only [padding?, htop, hright, hbottom, hleft]

theorem alike (h : a.ReducesTo b) : Layout.Alike a.frame b.frame where
  mode := congrArg _ h.layoutMode
  primaryAlign := h.primaryAlign.congr_eq Layout.justify (by rintro _ rfl; rfl)
  counterAlign := h.counterAlign.congr_eq Layout.align (by rintro _ rfl; rfl)
  selfAlign := h.selfAlign.congr_eq Layout.alignSelf? (by rintro _ (rfl | rfl) <;> rfl)
  wraps := h.wrap.congr_eq (· == some .wrap) (by rintro _ rfl; rfl)
  itemSpacing := h.itemSpacing.filter_eq fun x hx => by simp [bne, hx]
  padding := h.padding_eq
  scroll := h.overflow.congr_eq (fun o => Layout.scrollOf (frame { overflow := o }))
    (by rintro _ rfl; rfl)

theorem placement_eq (h : a.ReducesTo b) : a.placement = b.placement := by
  have hgrow : a.grow.any (· != 0) = b.grow.any (· != 0) :=
    h.grow.congr_eq (·.any (· != 0)) fun x hx => by simp [bne, hx]
  have hself : (a.selfAlign == some .stretch) = (b.selfAlign == some .stretch) :=
    h.selfAlign.congr_eq (· == some .stretch) (by rintro _ (rfl | rfl) <;> rfl)
  have hratio : (a.preserveRatio == some true) = (b.preserveRatio == some true) :=
    h.preserveRatio.congr_eq (· == some true) (by rintro _ rfl; rfl)
  simp only [placement, h.sizeHorizontal, h.sizeVertical, h.isAbsolute_eq, hgrow, hself, hratio,
    h.box]

theorem layout_eq (h : a.ReducesTo b) (children : Option (List Node))
    (parent : Option Attributes) :
    Layout.ofNode ⟨a, children⟩ parent = Layout.ofNode ⟨b, children⟩ parent := by
  have hframe : a.isFrame = b.isFrame := by rw [isFrame, isFrame, h.clipsContent, h.layoutMode]
  rw [Layout.ofNode_eq_place, Layout.ofNode_eq_place, h.placement_eq, Layout.own, Layout.own,
    hframe, Layout.ofFrame_eq_of_alike h.alike]

/-! ### Nodes -/

theorem cornerRadii?_of_silent {rs : List Float} (h : rs.length ≠ 4 ∨ ∀ r ∈ rs, (r == 0) = true) :
    cornerRadii? { cornerRadii := some rs } = none := by
  unfold cornerRadii?
  split
  · rename_i r₁ r₂ r₃ r₄ hrs
    cases hrs
    have hzero := h.resolve_left fun hlength => hlength rfl
    refine if_neg fun hradii => ?_
    obtain ⟨-, hany⟩ := Bool.and_eq_true_iff.mp hradii
    obtain ⟨r, hr, hne⟩ := List.any_eq_true.mp hany
    simp [bne, hzero r hr] at hne
  · rfl

theorem borderRadius_eq (h : a.ReducesTo b) :
    Facets.borderRadiusOf a = Facets.borderRadiusOf b := by
  have hradius : a.cornerRadius? = b.cornerRadius? := h.cornerRadius.filter_eq fun r hr => by
    simp [Double.not_pos_of_le_zero hr]
  have hradii : a.cornerRadii? = b.cornerRadii? :=
    h.cornerRadii.congr_eq (fun rs => cornerRadii? { cornerRadii := rs })
      fun rs hrs => cornerRadii?_of_silent hrs
  rw [Facets.borderRadiusOf, Facets.borderRadiusOf, hradius, hradii]

theorem told (h : a.ReducesTo b) (children : Option (List Node)) (parent : Option Attributes) :
    Facets.ofNode ⟨a, children⟩ parent = Facets.ofNode ⟨b, children⟩ parent := by
  have htext : a.characters? = b.characters? := h.characters.filter_eq (by rintro _ rfl; rfl)
  have hstyle := congrArg (·.map StyleValue.text) (TextStyle.told_eq_of_reducesTo h.typeStyle)
  have hfills := congrArg (·.map StyleValue.fills) (fills_eq_of_reducesTo h.fills)
  have hopacity : a.opacity? = b.opacity? := h.opacity.filter_eq (by rintro _ rfl; rfl)
  simp only [TextStyle.told] at hstyle
  simp only [Option.map_map] at hfills
  simp only [Facets.ofNode, htext, hopacity, h.id, h.name, h.kind, h.borderRadius_eq, h.layout_eq,
    Stroke.ofAttributes_eq_of_reducesTo h, Effects.ofAttributes_eq_of_reducesTo h.kind h.effects]
  congr 1

theorem exchangeable (h : a.ReducesTo b) : a.Exchangeable b where
  isVisible := h.isVisible_eq
  asChild := ⟨h.isAbsolute_eq, by rw [h.sizeHorizontal], by rw [h.sizeVertical]⟩
  asParent := ⟨by rw [Layout.flow_eq, Layout.flow_eq, h.layoutMode], h.box⟩
  told := h.told

end Attributes.ReducesTo

/-! ## Forests -/

namespace Node

/-- Of a hidden node with defaults left out its parent reads what it read before. -/
theorem Reduced.matched {ns ms : List Node} (h : Reduced ns ms) (below : Bool) :
    Matched Attributes.ReducesTo below ns ms := by
  induction h generalizing below with
  | nil => exact .nil
  | @cons a b children children' _ _ hab _ _ ihinner ihrest =>
    cases ha : a.isVisible with
    | true => exact .shown ha hab (ihinner true) (ihrest below)
    | false =>
      exact .hidden ha (hab.isVisible_eq.symm.trans ha) (fun _ => hab.exchangeable.asChild)
        (ihrest below)

end Node

/-- Whatever defaults are left out of a forest, its brief has the same nodes and the same table. -/
theorem briefTreeBy_eq_of_reduced (hash : TextHash) (limit : DepthLimit) {ns ms : List Node}
    (h : Node.Reduced ns ms) : briefTreeBy hash limit ns = briefTreeBy hash limit ms :=
  briefTreeBy_eq_of_matched (fun _ _ hab => hab.exchangeable) hash limit (h.matched false)

/-- Defaults of all kinds left out of a row, of a hidden child in it and of a text. Only in the
first forest the text says anything about its place. -/
theorem briefTreeBy_eq_of_reduced_row :
    let ns : List Node :=
      [⟨{ id := "1", visible := some true, layoutMode := some .horizontal, opacity := some 1
          primaryAlign := some .min, counterAlign := some .min, wrap := some .noWrap
          itemSpacing := some (-0), paddingTop := some 0, paddingLeft := some 4
          overflow := some .none, strokeWeight := some (-2), strokeDashes := some []
          strokes := some [{ kind := .solid, visible := some true, opacity := some 1 }]
          effects := some [{ kind := .dropShadow, visible := some true, spread := some 0
                             offset := some ⟨0, 0⟩ }] },
          some [⟨{ id := "2", visible := some false, positioning := some .auto }, some []⟩,
            ⟨{ id := "3", kind := "TEXT", selfAlign := some .inherit, grow := some 0
               preserveRatio := some false, characters := some "", fills := some []
               cornerRadius := some 0, cornerRadii := some [1, 2, 3]
               typeStyle := some { letterSpacing := some 0 } }, none⟩]⟩]
    let ms : List Node :=
      [⟨{ id := "1", layoutMode := some .horizontal, paddingLeft := some 4
          strokes := some [{ kind := .solid }], effects := some [{ kind := .dropShadow }] },
          some [⟨{ id := "2", visible := some false }, none⟩,
            ⟨{ id := "3", kind := "TEXT" }, none⟩]⟩]
    Node.Reduced ns ms ∧
      briefTreeBy (fun _ => 0) (some 2) ns = briefTreeBy (fun _ => 0) (some 2) ms := by
  intro ns ms
  have hreduced : Node.Reduced ns ms := by
    refine .cons ?_ (.cons ?_ .nil (.cons ?_ .nil .nil)) .nil
    · constructor
      case strokes =>
        exact .kept (.cons (by constructor <;> first | rfl | exact .absent | exact .left rfl) .nil)
      case effects =>
        exact .kept (.cons (by constructor <;> first | rfl | exact .absent | exact .left rfl) .nil)
      all_goals first | rfl | exact .absent | exact .kept rfl | exact .left (by decide)
    · constructor <;> first | rfl | exact .absent | exact .kept rfl | exact .left rfl
    · constructor
      case typeStyle => exact .left ⟨.left (by decide), rfl⟩
      case selfAlign => exact .left (.inl rfl)
      case cornerRadii => exact .left (.inl (by decide))
      all_goals first | rfl | exact .absent | exact .left (by decide)
  exact ⟨hreduced, briefTreeBy_eq_of_reduced (fun _ => 0) (some 2) hreduced⟩

end DesignBrief
