import DesignBrief.Brief.Node
import DesignBrief.Proofs.Calls

/-!
Forests of brief nodes as containers of references. A forest is its shape and the list of its
references in the order of the walk, `BriefNode.eq_of_shapeAll_refsAll`; exchanging the references
in a run with a state keeps the shape and makes one call for each reference, in that order.
-/

namespace DesignBrief

theorem forall_mem_toList {α : Type} {P : α → Prop} {o : Option α} :
    (∀ a ∈ o.toList, P a) ↔ ∀ a ∈ o, P a := by
  cases o <;> simp

/-! ## One record -/

namespace Facets

variable {ρ σ τ : Type}

/-- Exchanges the references. -/
def map (f : ρ → σ) (t : Facets ρ) : Facets σ :=
  { t with
    textStyle := t.textStyle.map f
    fills := t.fills.map f
    strokes := t.strokes.map f
    effects := t.effects.map f
    layout := t.layout.map f }

/-- The references, in the order text style, fills, strokes, effects, layout. -/
def refs (t : Facets ρ) : List ρ :=
  t.textStyle.toList ++ (t.fills.toList ++ (t.strokes.toList ++
    (t.effects.toList ++ t.layout.toList)))

/-- What is left if it does not matter which styles are referred to. -/
def shape (t : Facets ρ) : Facets Unit := t.map fun _ => ()

theorem map_map (g : σ → τ) (f : ρ → σ) (t : Facets ρ) : (t.map f).map g = t.map (g ∘ f) := by
  simp [map]

@[simp] theorem shape_map (f : ρ → σ) (t : Facets ρ) : (t.map f).shape = t.shape := by
  rw [shape, map_map]
  rfl

@[simp] theorem refs_map (f : ρ → σ) (t : Facets ρ) : (t.map f).refs = t.refs.map f := by
  simp [refs, map, Option.toList_map]

theorem forall_mem_refs {P : ρ → Prop} {t : Facets ρ} :
    (∀ r ∈ t.refs, P r) ↔ (∀ r ∈ t.textStyle, P r) ∧ (∀ r ∈ t.fills, P r) ∧
      (∀ r ∈ t.strokes, P r) ∧ (∀ r ∈ t.effects, P r) ∧ ∀ r ∈ t.layout, P r := by
  simp only [refs, List.forall_mem_append, forall_mem_toList]

theorem isBlank_shape (t : Facets ρ) : t.shape.isBlank = t.isBlank := by
  simp [shape, map, isBlank]

theorem isBlank_congr {t : Facets ρ} {u : Facets σ} (h : t.shape = u.shape) :
    t.isBlank = u.isBlank := by
  rw [← isBlank_shape t, h, isBlank_shape]

theorem refs_eq_nil_of_isBlank {t : Facets ρ} (h : t.isBlank = true) : t.refs = [] := by
  simp_all [isBlank, refs]

private theorem toList_append_inj {a b : Option ρ} {xs ys : List ρ}
    (hs : a.map (fun _ => ()) = b.map fun _ => ()) (he : a.toList ++ xs = b.toList ++ ys) :
    a = b ∧ xs = ys := by
  cases a <;> cases b <;> simp_all

theorem eq_of_shape_refs {t u : Facets ρ} (hs : t.shape = u.shape) (hr : t.refs = u.refs) :
    t = u := by
  cases t
  cases u
  simp only [shape, map, mk.injEq] at hs
  obtain ⟨hid, hname, hkind, htext, hs₁, hs₂, hs₃, hs₄, hopacity, hradius, hs₅⟩ := hs
  obtain ⟨h₁, hr⟩ := toList_append_inj hs₁ hr
  obtain ⟨h₂, hr⟩ := toList_append_inj hs₂ hr
  obtain ⟨h₃, hr⟩ := toList_append_inj hs₃ hr
  obtain ⟨h₄, hr⟩ := toList_append_inj hs₄ hr
  have h₅ := (toList_append_inj hs₅ (congrArg (· ++ []) hr)).1
  simp only [mk.injEq]
  exact ⟨hid, hname, hkind, htext, h₁, h₂, h₃, h₄, hopacity, hradius, h₅⟩

theorem toList_mapM {m : Type → Type} [Monad m] [LawfulMonad m] (f : ρ → m σ) (o : Option ρ) :
    Option.toList <$> o.mapM f = o.toList.mapM f := by
  cases o <;> simp

theorem refs_mapM {m : Type → Type} [Monad m] [LawfulMonad m] (f : ρ → m σ) (t : Facets ρ) :
    refs <$> t.mapM f = t.refs.mapM f := by
  simp [mapM, refs, List.mapM_append, ← toList_mapM]

theorem shape_mapM {s : Type} (f : ρ → StateM s σ) (t : Facets ρ) (state : s) :
    (t.mapM f state).1.shape = t.shape := by
  obtain ⟨id, name, kind, text, textStyle, fills, strokes, effects, opacity, radius, layout⟩ := t
  cases textStyle <;> cases fills <;> cases strokes <;> cases effects <;> cases layout <;> rfl

end Facets

/-! ## Forests -/

namespace BriefNode

variable {ρ σ τ : Type}

/-- Induction over a forest: over the first tree's children and over the trees behind it. -/
@[elab_as_elim]
theorem forest_induction {motive : List (BriefNode ρ) → Prop} (nil : motive [])
    (cons : ∀ t children rest, motive children → motive rest → motive (⟨t, children⟩ :: rest)) :
    ∀ ns, motive ns
  | [] => nil
  | ⟨t, children⟩ :: rest =>
    cons t children rest (forest_induction nil cons children) (forest_induction nil cons rest)

mutual

def map (f : ρ → σ) : BriefNode ρ → BriefNode σ
  | ⟨t, children⟩ => ⟨t.map f, mapAll f children⟩
termination_by structural n => n

def mapAll (f : ρ → σ) : List (BriefNode ρ) → List (BriefNode σ)
  | [] => []
  | n :: rest => n.map f :: mapAll f rest
termination_by structural ns => ns

end

mutual

/-- The references in a tree, those of a node before those of its children. -/
def refs : BriefNode ρ → List ρ
  | ⟨t, children⟩ => t.refs ++ refsAll children
termination_by structural n => n

def refsAll : List (BriefNode ρ) → List ρ
  | [] => []
  | n :: rest => n.refs ++ refsAll rest
termination_by structural ns => ns

end

mutual

def mapM {m : Type → Type} [Monad m] (f : ρ → m σ) : BriefNode ρ → m (BriefNode σ)
  | ⟨t, children⟩ => do
    let facets ← t.mapM f
    let children ← mapMAll f children
    return ⟨facets, children⟩
termination_by structural n => n

def mapMAll {m : Type → Type} [Monad m] (f : ρ → m σ) :
    List (BriefNode ρ) → m (List (BriefNode σ))
  | [] => return []
  | n :: rest => do
    let first ← n.mapM f
    let others ← mapMAll f rest
    return first :: others
termination_by structural ns => ns

end

/-- The forest without saying which styles it refers to. -/
def shapeAll (ns : List (BriefNode ρ)) : List (BriefNode Unit) := mapAll (fun _ => ()) ns

@[simp] theorem mapAll_nil (f : ρ → σ) : mapAll f [] = [] := rfl

@[simp] theorem mapAll_cons (f : ρ → σ) (t : Facets ρ) (children rest : List (BriefNode ρ)) :
    mapAll f (⟨t, children⟩ :: rest) = ⟨t.map f, mapAll f children⟩ :: mapAll f rest := rfl

@[simp] theorem refsAll_nil : refsAll ([] : List (BriefNode ρ)) = [] := rfl

@[simp] theorem refsAll_cons (t : Facets ρ) (children rest : List (BriefNode ρ)) :
    refsAll (⟨t, children⟩ :: rest) = t.refs ++ (refsAll children ++ refsAll rest) := by
  simp [refsAll, refs]

theorem refsAll_append (ns ms : List (BriefNode ρ)) :
    refsAll (ns ++ ms) = refsAll ns ++ refsAll ms := by
  induction ns with
  | nil => rfl
  | cons n ns ih => simp [refsAll, ih]

theorem mapAll_append (f : ρ → σ) (ns ms : List (BriefNode ρ)) :
    mapAll f (ns ++ ms) = mapAll f ns ++ mapAll f ms := by
  induction ns with
  | nil => rfl
  | cons n ns ih => simp only [List.cons_append, mapAll, ih]

theorem mapMAll_cons {m : Type → Type} [Monad m] [LawfulMonad m] (f : ρ → m σ) (t : Facets ρ)
    (children rest : List (BriefNode ρ)) :
    mapMAll f (⟨t, children⟩ :: rest) = do
      let facets ← t.mapM f
      let children ← mapMAll f children
      let others ← mapMAll f rest
      return ⟨facets, children⟩ :: others := by
  simp [mapMAll, mapM]

/-! ### Exchanging references by a function -/

theorem mapAll_mapAll (g : σ → τ) (f : ρ → σ) (ns : List (BriefNode ρ)) :
    mapAll g (mapAll f ns) = mapAll (g ∘ f) ns := by
  induction ns using forest_induction with
  | nil => rfl
  | cons t children rest ihc ihr => simp [Facets.map_map, ihc, ihr]

@[simp] theorem shapeAll_mapAll (f : ρ → σ) (ns : List (BriefNode ρ)) :
    shapeAll (mapAll f ns) = shapeAll ns := by
  rw [shapeAll, mapAll_mapAll]
  rfl

@[simp] theorem refsAll_mapAll (f : ρ → σ) (ns : List (BriefNode ρ)) :
    refsAll (mapAll f ns) = (refsAll ns).map f := by
  induction ns using forest_induction with
  | nil => rfl
  | cons t children rest ihc ihr => simp [ihc, ihr]

theorem length_refs_eq_of_shape {t : Facets ρ} {u : Facets σ} (h : t.shape = u.shape) :
    t.refs.length = u.refs.length := by
  have hlen (w : Facets ρ) : w.shape.refs.length = w.refs.length := by simp [Facets.shape]
  have hlen' (w : Facets σ) : w.shape.refs.length = w.refs.length := by simp [Facets.shape]
  rw [← hlen t, h, hlen' u]

theorem length_refsAll_eq_of_shapeAll {ns : List (BriefNode ρ)} {ms : List (BriefNode σ)}
    (h : shapeAll ns = shapeAll ms) : (refsAll ns).length = (refsAll ms).length := by
  have hlen (ks : List (BriefNode ρ)) : (refsAll (shapeAll ks)).length = (refsAll ks).length := by
    simp [shapeAll]
  have hlen' (ks : List (BriefNode σ)) :
      (refsAll (shapeAll ks)).length = (refsAll ks).length := by
    simp [shapeAll]
  rw [← hlen ns, h, hlen' ms]

/-- A forest is its shape and its references. -/
theorem eq_of_shapeAll_refsAll {ns ms : List (BriefNode ρ)} (hs : shapeAll ns = shapeAll ms)
    (hr : refsAll ns = refsAll ms) : ns = ms := by
  induction ns using forest_induction generalizing ms with
  | nil =>
    cases ms with
    | nil => rfl
    | cons m ms => cases hs
  | cons t children rest ihc ihr =>
    cases ms with
    | nil => cases hs
    | cons m ms =>
      obtain ⟨u, children'⟩ := m
      simp only [shapeAll, mapAll_cons, List.cons.injEq, mk.injEq] at hs
      obtain ⟨⟨hfacets, hchildren⟩, hrest⟩ := hs
      simp only [refsAll_cons] at hr
      obtain ⟨hr₁, hr⟩ := List.append_inj hr (length_refs_eq_of_shape hfacets)
      obtain ⟨hr₂, hr₃⟩ := List.append_inj hr (length_refsAll_eq_of_shapeAll hchildren)
      rw [Facets.eq_of_shape_refs hfacets hr₁, ihc hchildren hr₂, ihr hrest hr₃]

/-- If every reference of a forest leads to something that has the key of what stands in the same
place of another forest, then there is a forest of the things that they lead to. -/
theorem exists_mapAll_some [Inhabited σ] {look : ρ → Option σ} {key : σ → τ}
    {ns : List (BriefNode ρ)} {ms : List (BriefNode σ)} (hshape : shapeAll ns = shapeAll ms)
    (hkeys : (refsAll ns).map (fun r => (look r).map key) = ((refsAll ms).map key).map some) :
    ∃ shown, mapAll look ns = mapAll some shown ∧ mapAll key shown = mapAll key ms := by
  have hfound : ∀ r ∈ refsAll ns, look r = some (look r).get! := by
    intro r hr
    have hmem := List.mem_map_of_mem (f := fun r => (look r).map key) hr
    rw [hkeys] at hmem
    obtain ⟨k, _, hk⟩ := List.mem_map.mp hmem
    obtain ⟨w, hw, _⟩ := Option.map_eq_some_iff.mp hk.symm
    rw [hw, Option.get!_some]
  refine ⟨mapAll (fun r => (look r).get!) ns, ?_, ?_⟩
  · refine eq_of_shapeAll_refsAll (by simp) ?_
    simp only [refsAll_mapAll, List.map_map]
    exact List.map_congr_left hfound
  · refine eq_of_shapeAll_refsAll (by simp [hshape]) ?_
    have hsome : (refsAll ns).map (fun r => (look r).map key) =
        ((refsAll ns).map fun r => key (look r).get!).map some := by
      rw [List.map_map]
      refine List.map_congr_left fun r hr => ?_
      rw [hfound r hr]
      rfl
    rw [hsome] at hkeys
    simp only [refsAll_mapAll, List.map_map]
    exact List.map_injective_iff.mpr (fun _ _ h => Option.some.inj h) hkeys

/-! ### Exchanging references in a run -/

/-- One call is made for each reference, in their order. -/
theorem refsAll_mapMAll {m : Type → Type} [Monad m] [LawfulMonad m] (f : ρ → m σ)
    (ns : List (BriefNode ρ)) : refsAll <$> mapMAll f ns = (refsAll ns).mapM f := by
  induction ns using forest_induction with
  | nil => simp [mapMAll]
  | cons t children rest ihc ihr =>
    simp [mapMAll_cons, List.mapM_append, ← Facets.refs_mapM, ← ihc, ← ihr]

theorem run_refsAll {s : Type} (f : ρ → StateM s σ) (ns : List (BriefNode ρ)) (state : s) :
    Calls.run f (refsAll ns) state =
      (refsAll (mapMAll f ns state).1, (mapMAll f ns state).2) := by
  rw [Calls.run, ← refsAll_mapMAll]
  rfl

theorem mapMAll_cons_run {s : Type} (f : ρ → StateM s σ) (t : Facets ρ)
    (children rest : List (BriefNode ρ)) (state : s) :
    mapMAll f (⟨t, children⟩ :: rest) state =
      (⟨(t.mapM f state).1, (mapMAll f children (t.mapM f state).2).1⟩ ::
          (mapMAll f rest (mapMAll f children (t.mapM f state).2).2).1,
        (mapMAll f rest (mapMAll f children (t.mapM f state).2).2).2) := by
  rw [mapMAll_cons]
  rfl

theorem shapeAll_mapMAll {s : Type} (f : ρ → StateM s σ) (ns : List (BriefNode ρ)) (state : s) :
    shapeAll (mapMAll f ns state).1 = shapeAll ns := by
  induction ns using forest_induction generalizing state with
  | nil => rfl
  | cons t children rest ihc ihr =>
    have hfacets := Facets.shape_mapM f t state
    have hchildren := ihc (t.mapM f state).2
    have hrest := ihr (mapMAll f children (t.mapM f state).2).2
    rw [mapMAll_cons_run]
    simp only [shapeAll, mapAll_cons] at hchildren hrest ⊢
    rw [hchildren, hrest, ← Facets.shape, hfacets]
    rfl

theorem mapMAll_append {m : Type → Type} [Monad m] [LawfulMonad m] (f : ρ → m σ)
    (ns ms : List (BriefNode ρ)) :
    mapMAll f (ns ++ ms) = do
      let first ← mapMAll f ns
      let others ← mapMAll f ms
      return first ++ others := by
  induction ns with
  | nil => simp [mapMAll]
  | cons n ns ih => simp [mapMAll, ih]

/-! ### Blank nodes -/

theorem isEmpty_congr {ns : List (BriefNode ρ)} {ms : List (BriefNode σ)}
    (h : shapeAll ns = shapeAll ms) : ns.isEmpty = ms.isEmpty := by
  cases ns <;> cases ms <;> first | rfl | cases h

theorem isBlank_congr {t : Facets ρ} {u : Facets σ} {ns : List (BriefNode ρ)}
    {ms : List (BriefNode σ)} (ht : t.shape = u.shape) (hn : shapeAll ns = shapeAll ms) :
    isBlank ⟨t, ns⟩ = isBlank ⟨u, ms⟩ := by
  simp only [isBlank, Facets.isBlank_congr ht, isEmpty_congr hn]

end BriefNode
end DesignBrief
