import DesignBrief.Proofs.Placement

/-!
How a flow aligns what is in it. Along the flow a frame has the alignment that it asks for; across
it, children that leave no room stretch the items whatever the frame asks for. So of the children
no more counts than which of them stand outside or fill their parent across the flow, in any order:
`Layout.ofNode_aligned`.
-/

namespace DesignBrief.Layout

/-! ## Children that leave no room -/

/-- The size of a node is to fill its parent across a flow. -/
def Fills (m : Flow) (a : Attributes) : Prop :=
  m = .row ∧ a.sizeVertical = some .fill ∨ m = .column ∧ a.sizeHorizontal = some .fill

/-- There are children, shown or not, and each stands outside the flow or fills it across. -/
def NoRoom (m : Flow) (children : List Node) : Prop :=
  children ≠ [] ∧
    ∀ c ∈ children, c.attributes.positioning = some .absolute ∨ Fills m c.attributes

theorem fillsAcross_iff (m : Flow) (a : Attributes) :
    fillsAcross m a = true ↔ a.positioning = some .absolute ∨ Fills m a := by
  rw [fillsAcross, Bool.or_eq_true, isAbsolute_iff, beq_iff_eq]
  cases m <;> simp [crossSize, Fills]

theorem allFillAcross_iff (m : Flow) (children : List Node) :
    allFillAcross m children = true ↔ NoRoom m children := by
  simp only [allFillAcross, NoRoom, Bool.and_eq_true, Bool.not_eq_true', List.isEmpty_eq_false_iff,
    List.all_eq_true, fillsAcross_iff]

/-- Two nodes are the same to a flow if both stand outside it, or neither, and both fill it across,
or neither. -/
structure SameAcross (m : Flow) (a b : Attributes) : Prop where
  outside : a.positioning = some .absolute ↔ b.positioning = some .absolute
  fills : Fills m a ↔ Fills m b

/-- The children are put in another order, and changed in what is not looked at across a flow. -/
def Rearranged (m : Flow) (ns ms : List Node) : Prop :=
  ∃ between, ns.Perm between ∧
    List.Forall₂ (fun n n' => SameAcross m n.attributes n'.attributes) between ms

theorem noRoom_iff_of_perm {m : Flow} {ns ms : List Node} (h : ns.Perm ms) :
    NoRoom m ns ↔ NoRoom m ms := by
  have hnil : ns = [] ↔ ms = [] := by
    rw [← List.length_eq_zero_iff, ← List.length_eq_zero_iff, h.length_eq]
  simp only [NoRoom, ne_eq, hnil, h.mem_iff]

theorem noRoom_iff_of_sameAcross {m : Flow} {ns ms : List Node}
    (h : List.Forall₂ (fun n n' => SameAcross m n.attributes n'.attributes) ns ms) :
    NoRoom m ns ↔ NoRoom m ms := by
  refine and_congr (by cases h <;> simp) ?_
  induction h with
  | nil => exact Iff.rfl
  | cons hnm _ ih =>
    rw [List.forall_mem_cons, List.forall_mem_cons, hnm.outside, hnm.fills, ih]

theorem noRoom_iff_of_rearranged {m : Flow} {ns ms : List Node} (h : Rearranged m ns ms) :
    NoRoom m ns ↔ NoRoom m ms := by
  obtain ⟨between, hperm, hsame⟩ := h
  exact (noRoom_iff_of_perm hperm).trans (noRoom_iff_of_sameAcross hsame)

/-! ## Alignments of a frame -/

/-- The alignments along a flow that are told; all others are at the start. -/
def contentTable : List (AxisAlign × Alignment) :=
  [(.max, .flexEnd), (.center, .center), (.spaceBetween, .spaceBetween)]

/-- The alignments across a flow that are told. -/
def itemTable : List (AxisAlign × Alignment) :=
  [(.max, .flexEnd), (.center, .center), (.baseline, .baseline)]

theorem justify_eq_lookup (k : Option AxisAlign) :
    justify k = k.bind fun k => contentTable.lookup k := by
  cases k with
  | none => rfl
  | some k => cases k <;> rfl

theorem align_eq_lookup (k : Option AxisAlign) :
    align k = k.bind fun k => itemTable.lookup k := by
  cases k with
  | none => rfl
  | some k => cases k <;> rfl

theorem isFrame_of_flow {a : Attributes} (h : flow a ≠ .none) : a.isFrame = true := by
  cases hframe : a.isFrame with
  | true => rfl
  | false => exact absurd (by rw [← mode_own a [], own_eq_blank hframe]) h

theorem justifyContent_own {a : Attributes} (h : flow a ≠ .none) (children : List Node) :
    (own a children).justifyContent = justify a.primaryAlign := by
  have hmode : flowOfMode a.frame.mode ≠ .none := flow_eq a ▸ h
  rw [own_eq_ofFrame (isFrame_of_flow h)]
  simp only [ofFrame, hmode, if_false]
  rfl

theorem alignItems_own {a : Attributes} (h : flow a ≠ .none) (children : List Node) :
    (own a children).alignItems =
      if allFillAcross (flow a) children then some .stretch else align a.counterAlign := by
  have hmode : flowOfMode a.frame.mode ≠ .none := flow_eq a ▸ h
  rw [own_eq_ofFrame (isFrame_of_flow h), flow_eq]
  simp only [ofFrame, hmode, if_false]
  rfl

/-- A layout aligns what is in the flow of a node as it should. -/
structure Aligned (a : Attributes) (children : List Node) (l : Layout) : Prop where
  stretch : l.alignItems = some .stretch ↔ NoRoom (flow a) children
  items : ¬ NoRoom (flow a) children →
    l.alignItems = a.counterAlign.bind fun k => itemTable.lookup k
  content : l.justifyContent = a.primaryAlign.bind fun k => contentTable.lookup k

theorem align_ne_stretch (k : Option AxisAlign) : align k ≠ some .stretch := by
  rcases k with _ | k
  · exact nofun
  · cases k <;> simp [align]

theorem aligned_own {a : Attributes} (h : flow a ≠ .none) (children : List Node) :
    Aligned a children (own a children) := by
  have hitems := alignItems_own h children
  constructor
  case stretch =>
    rw [hitems, ← allFillAcross_iff]
    split <;> simp_all [align_ne_stretch]
  case items =>
    intro hroom
    rw [hitems, if_neg (mt (allFillAcross_iff _ _).mp hroom), align_eq_lookup]
  case content => rw [justifyContent_own h, justify_eq_lookup]

/-- The layout of a node with a flow aligns what is in it. Other children, put in another order or
changed in what is not looked at across the flow, are aligned in the same way, and along the flow
any children are, below any parents. -/
theorem ofNode_aligned {a : Attributes} (hflow : flow a ≠ .none) (children : Option (List Node))
    (parent : Option Attributes) :
    Aligned a (children.getD []) (ofNode ⟨a, children⟩ parent) ∧
      ∀ (others : Option (List Node)) (parent' : Option Attributes),
        (ofNode ⟨a, others⟩ parent').justifyContent =
            (ofNode ⟨a, children⟩ parent).justifyContent ∧
          (Rearranged (flow a) (children.getD []) (others.getD []) →
            (ofNode ⟨a, others⟩ parent').alignItems = (ofNode ⟨a, children⟩ parent).alignItems) := by
  have haligned (cs : List Node) := aligned_own hflow cs
  simp only [ofNode_eq]
  refine ⟨{ haligned (children.getD []) with }, fun others parent' => ⟨?_, fun hothers => ?_⟩⟩
  · rw [(haligned _).content, (haligned _).content]
  · have hroom := noRoom_iff_of_rearranged hothers
    by_cases h : NoRoom (flow a) (children.getD [])
    · rw [(haligned _).stretch.mpr h, (haligned _).stretch.mpr (hroom.mp h)]
    · rw [(haligned _).items h, (haligned _).items (mt hroom.mpr h)]

/-- A row with a hidden child that fills it and one that stands outside; then with the two exchanged
and other sizes along the row. -/
theorem ofNode_aligned_row :
    let a : Attributes :=
      { layoutMode := some .horizontal, primaryAlign := some .center, counterAlign := some .max }
    let outside : Attributes := { positioning := some .absolute }
    let filling : Attributes := { visible := some false, sizeVertical := some .fill }
    let children : List Node := [⟨filling, none⟩, ⟨outside, none⟩]
    let others : List Node :=
      [⟨{ outside with sizeHorizontal := some .hug }, some []⟩,
        ⟨{ filling with visible := none, sizeHorizontal := some .fixed }, none⟩]
    flow a ≠ .none ∧ Rearranged (flow a) children others ∧
      (ofNode ⟨a, some others⟩ (some a)).alignItems =
        (ofNode ⟨a, some children⟩ none).alignItems := by
  intro a outside filling children others
  have hflow : flow a ≠ .none := by decide
  have hothers : Rearranged (flow a) children others := by
    refine ⟨[⟨outside, none⟩, ⟨filling, none⟩], .swap _ _ _, .cons ?_ (.cons ?_ .nil)⟩ <;>
      exact ⟨by decide, by simp [Fills, flow]⟩
  exact ⟨hflow, hothers, ((ofNode_aligned hflow (some children) none).2 (some others) (some a)).2
    hothers⟩

end DesignBrief.Layout
