import DesignBrief.Proofs.Forest

/-!
Forests written down in the order of the walk: every node with its depth, before its children. Two
forests of which the same is written down are the same, `BriefNode.shapeAll_eq_of_outline`.
-/

namespace DesignBrief
namespace BriefNode

variable {ρ σ : Type}

mutual

/-- The nodes of a tree with their depths, each before its children. -/
def walk (depth : Nat) : BriefNode ρ → List (Nat × BriefNode ρ)
  | ⟨t, children⟩ => (depth, ⟨t, children⟩) :: walkAll (depth + 1) children
termination_by structural n => n

def walkAll (depth : Nat) : List (BriefNode ρ) → List (Nat × BriefNode ρ)
  | [] => []
  | n :: rest => n.walk depth ++ walkAll depth rest
termination_by structural ns => ns

end

theorem walkAll_append (depth : Nat) (ns ms : List (BriefNode ρ)) :
    walkAll depth (ns ++ ms) = walkAll depth ns ++ walkAll depth ms := by
  induction ns with
  | nil => rfl
  | cons n ns ih => simp only [List.cons_append, walkAll, ih, List.append_assoc]

theorem forall_walkAll_cons {P : Facets ρ → Prop} {depth : Nat} {t : Facets ρ}
    {children rest : List (BriefNode ρ)} :
    (∀ x ∈ walkAll depth (⟨t, children⟩ :: rest), P x.2.facets) ↔
      P t ∧ (∀ x ∈ walkAll (depth + 1) children, P x.2.facets) ∧
        ∀ x ∈ walkAll depth rest, P x.2.facets := by
  simp only [walkAll, walk, List.cons_append, List.forall_mem_cons, List.forall_mem_append]

/-- What holds of all nodes of a forest once its references are exchanged. -/
theorem forall_walkAll_mapAll {P : Facets σ → Prop} {f : ρ → σ} {depth : Nat}
    {ns : List (BriefNode ρ)} :
    (∀ x ∈ walkAll depth (mapAll f ns), P x.2.facets) ↔
      ∀ x ∈ walkAll depth ns, P (x.2.facets.map f) := by
  induction ns using forest_induction generalizing depth with
  | nil => simp [walkAll]
  | cons t children rest ihc ihr =>
    rw [mapAll_cons, forall_walkAll_cons, ihc, ihr,
      forall_walkAll_cons (P := fun t => P (t.map f))]

/-- The references of a forest are those of its nodes, in the order of the walk. -/
theorem refsAll_eq_flatMap_walkAll (depth : Nat) (ns : List (BriefNode ρ)) :
    refsAll ns = (walkAll depth ns).flatMap fun x => x.2.facets.refs := by
  induction ns using forest_induction generalizing depth with
  | nil => rfl
  | cons t children rest ihc ihr =>
    rw [refsAll_cons, ihc (depth + 1), ihr depth]
    simp [walkAll, walk]

/-- What the nodes of a forest tell, with their depths, save which styles they refer to. -/
def outline (depth : Nat) (ns : List (BriefNode ρ)) : List (Nat × Facets Unit) :=
  (walkAll depth ns).map fun x => (x.1, x.2.facets.shape)

@[simp] theorem outline_nil (depth : Nat) : outline depth ([] : List (BriefNode ρ)) = [] := rfl

@[simp] theorem outline_cons (depth : Nat) (t : Facets ρ) (children rest : List (BriefNode ρ)) :
    outline depth (⟨t, children⟩ :: rest) =
      (depth, t.shape) :: (outline (depth + 1) children ++ outline depth rest) := by
  simp [outline, walkAll, walk]

theorem outline_eq_nil_iff {depth : Nat} {ns : List (BriefNode ρ)} :
    outline depth ns = [] ↔ ns = [] := by
  cases ns with
  | nil => simp
  | cons n rest =>
    obtain ⟨t, children⟩ := n
    simp

theorem outline_append (depth : Nat) (ns ms : List (BriefNode ρ)) :
    outline depth (ns ++ ms) = outline depth ns ++ outline depth ms := by
  induction ns with
  | nil => rfl
  | cons n ns ih =>
    obtain ⟨t, children⟩ := n
    simp [ih]

theorem length_walkAll (depth : Nat) (ns : List (BriefNode ρ)) :
    (walkAll depth ns).length = sizeAll ns := by
  induction ns using forest_induction generalizing depth with
  | nil => rfl
  | cons t children rest ihc ihr =>
    have hc := ihc (depth + 1)
    have hr := ihr depth
    simp only [walkAll, walk, sizeAll, size, List.length_append, List.length_cons]
    omega

theorem length_outline (depth : Nat) (ns : List (BriefNode ρ)) :
    (outline depth ns).length = sizeAll ns := by
  rw [outline, List.length_map, length_walkAll]

theorem outline_shapeAll (depth : Nat) (ns : List (BriefNode ρ)) :
    outline depth (shapeAll ns) = outline depth ns := by
  induction ns using forest_induction generalizing depth with
  | nil => rfl
  | cons t children rest ihc ihr =>
    have hc := ihc (depth + 1)
    have hr := ihr depth
    rw [shapeAll] at hc hr ⊢
    rw [mapAll_cons, outline_cons, outline_cons, hc, hr, Facets.shape_map]

theorem outline_congr {ns : List (BriefNode ρ)} {ms : List (BriefNode σ)}
    (h : shapeAll ns = shapeAll ms) (depth : Nat) : outline depth ns = outline depth ms := by
  rw [← outline_shapeAll depth ns, h, outline_shapeAll]

/-! ## Reading a forest off its outline -/

theorem le_depth_of_mem_outline {depth : Nat} {ns : List (BriefNode ρ)} {x : Nat × Facets Unit}
    (hx : x ∈ outline depth ns) : depth ≤ x.1 := by
  induction ns using forest_induction generalizing depth with
  | nil => cases hx
  | cons t children rest ihc ihr =>
    rw [outline_cons, List.mem_cons, List.mem_append] at hx
    rcases hx with rfl | hc | hr
    · exact Nat.le_refl depth
    · have hle := ihc hc
      omega
    · exact ihr hr

/-- The children of a node are written down as far as the depth stays greater. -/
theorem takeWhile_outline (depth : Nat) (children rest : List (BriefNode ρ)) :
    (outline (depth + 1) children ++ outline depth rest).takeWhile (fun x => depth < x.1) =
      outline (depth + 1) children := by
  have hrest : (outline depth rest).takeWhile (fun x => depth < x.1) = [] := by
    cases rest with
    | nil => rfl
    | cons n rest =>
      obtain ⟨t, grandchildren⟩ := n
      simp
  rw [List.takeWhile_append_of_pos, hrest, List.append_nil]
  intro x hx
  have hle := le_depth_of_mem_outline hx
  simp only [decide_eq_true_eq]
  omega

theorem shapeAll_eq_of_outline {depth : Nat} {ns : List (BriefNode ρ)} {ms : List (BriefNode σ)}
    (h : outline depth ns = outline depth ms) : shapeAll ns = shapeAll ms := by
  induction ns using forest_induction generalizing depth ms with
  | nil =>
    cases ms with
    | nil => rfl
    | cons m ms => cases outline_eq_nil_iff.mp h.symm
  | cons t children rest ihc ihr =>
    cases ms with
    | nil => cases outline_eq_nil_iff.mp h
    | cons m ms =>
      obtain ⟨u, children'⟩ := m
      rw [outline_cons, outline_cons] at h
      obtain ⟨hfirst, h⟩ := List.cons.inj h
      have hbelow : outline (depth + 1) children = outline (depth + 1) children' := by
        rw [← takeWhile_outline depth children rest, h, takeWhile_outline]
      rw [hbelow] at h
      have hbehind : outline depth rest = outline depth ms := List.append_cancel_left h
      have hfacets : t.shape = u.shape := (Prod.mk.inj hfirst).2
      have hchildren := ihc hbelow
      have hrest := ihr hbehind
      rw [shapeAll] at hchildren hrest ⊢
      rw [mapAll_cons, hchildren, hrest, ← Facets.shape, hfacets]
      rfl

end BriefNode
end DesignBrief
