import DesignBrief.Proofs.Outlines
import DesignBrief.Proofs.Reading
import DesignBrief.Proofs.Regular

/-!
Readers that undo what was written. A value is legible if its text opens no more brackets than may
be opened and every double in it is read back as it was. A reader undoes a way of writing if it
gives back whatever was written so and is legible. That is shown once for each way to build readers;
a record is undone if its members stand in the order of its fields and their readers undo them,
`Record.undoes`.
-/

namespace DesignBrief

mutual

/-- How many brackets are open at once in the text of a value, at most. -/
def Json.nesting : Json → Nat
  | .array items => Json.nestingOfItems items + 1
  | .object members => Json.nestingOfMembers members + 1
  | .null => 0
  | .bool _ => 0
  | .number _ => 0
  | .string _ => 0
termination_by structural j => j

def Json.nestingOfItems : List Json → Nat
  | [] => 0
  | j :: rest => max j.nesting (Json.nestingOfItems rest)
termination_by structural items => items

def Json.nestingOfMembers : List (String × Json) → Nat
  | [] => 0
  | (_, j) :: rest => max j.nesting (Json.nestingOfMembers rest)
termination_by structural members => members

end

/-- A double is read back from its written text as it was. -/
def Double.ReadsBack (x : Float) : Prop := Reader.double.ofText (Json.real x).compact = .ok x
deriving Decidable

/-! ## Legible values -/

namespace Json

/-- A value whose text opens at most so many brackets and tells all its doubles exactly. -/
structure Legible (depth : Nat) (j : Json) : Prop where
  shallow : j.nesting ≤ depth
  exact : ∀ x ∈ j.reals, Double.ReadsBack x

variable {depth : Nat}

theorem Legible.readsBack {x : Float} (h : (real x).Legible depth) : Double.ReadsBack x :=
  h.exact x (List.mem_singleton_self x)

theorem nestingOfItems_le_iff {items : List Json} :
    nestingOfItems items ≤ depth ↔ ∀ j ∈ items, j.nesting ≤ depth := by
  induction items with
  | nil => simp [nestingOfItems]
  | cons j rest ih => rw [nestingOfItems, Nat.max_le, ih, List.forall_mem_cons]

theorem nestingOfMembers_le_iff {members : List (String × Json)} :
    nestingOfMembers members ≤ depth ↔ ∀ m ∈ members, m.2.nesting ≤ depth := by
  induction members with
  | nil => simp [nestingOfMembers]
  | cons m rest ih => rw [nestingOfMembers, Nat.max_le, ih, List.forall_mem_cons]

theorem mem_reals_array {items : List Json} {j : Json} (hj : j ∈ items) :
    ∀ x ∈ j.reals, x ∈ (array items).reals := by
  rw [reals]
  induction items with
  | nil => cases hj
  | cons i rest ih =>
    intro x hx
    rw [realsOfItems, List.mem_append]
    rcases List.mem_cons.mp hj with rfl | hrest
    · exact .inl hx
    · exact .inr (ih hrest x hx)

theorem mem_reals_object {members : List (String × Json)} {m : String × Json} (hm : m ∈ members) :
    ∀ x ∈ m.2.reals, x ∈ (object members).reals := by
  rw [reals]
  induction members with
  | nil => cases hm
  | cons n rest ih =>
    intro x hx
    rw [realsOfMembers, List.mem_append]
    rcases List.mem_cons.mp hm with rfl | hrest
    · exact .inl hx
    · exact .inr (ih hrest x hx)

/-- An array opens a bracket, and what is in it opens the others. -/
theorem Legible.items {items : List Json} (h : (array items).Legible depth) :
    ∃ e, depth = e + 1 ∧ ∀ j ∈ items, j.Legible e := by
  have hshallow : nestingOfItems items + 1 ≤ depth := h.shallow
  obtain ⟨e, rfl⟩ := Nat.exists_eq_add_of_le' (Nat.le_of_add_left_le hshallow)
  have hitems := nestingOfItems_le_iff.mp (Nat.le_of_succ_le_succ hshallow)
  exact ⟨e, rfl, fun j hj => ⟨hitems j hj, fun x hx => h.exact x (mem_reals_array hj x hx)⟩⟩

/-- An object opens a bracket, and what is in it opens the others. -/
theorem Legible.members {members : List (String × Json)} (h : (object members).Legible depth) :
    ∃ e, depth = e + 1 ∧ ∀ m ∈ members, m.2.Legible e := by
  have hshallow : nestingOfMembers members + 1 ≤ depth := h.shallow
  obtain ⟨e, rfl⟩ := Nat.exists_eq_add_of_le' (Nat.le_of_add_left_le hshallow)
  have hmembers := nestingOfMembers_le_iff.mp (Nat.le_of_succ_le_succ hshallow)
  exact ⟨e, rfl, fun m hm => ⟨hmembers m hm, fun x hx => h.exact x (mem_reals_object hm x hx)⟩⟩

end Json

/-! ## Readers -/

/-- Whatever is written so and is legible, the reader gives it back. -/
def Reader.Undoes {α : Type} (depth : Nat) (r : Reader α) (write : α → Json) : Prop :=
  ∀ a, (write a).Legible depth → r.fromText depth (write a).outline = .ok a

theorem mapM_eq_ok_map {α β γ : Type} {f : β → Except Fault γ} {g : α → β} {h : α → γ} {xs : List α}
    (hfg : ∀ x ∈ xs, f (g x) = .ok (h x)) : (xs.map g).mapM f = .ok (xs.map h) := by
  induction xs with
  | nil => rfl
  | cons x xs ih =>
    obtain ⟨hx, hxs⟩ := List.forall_mem_cons.mp hfg
    rw [List.map_cons, List.mapM_cons, hx, ih hxs]
    rfl

theorem Json.outlineItems_eq_map (items : List Json) :
    outlineItems items = items.map outline := by
  induction items with
  | nil => rfl
  | cons j rest ih => rw [outlineItems, ih, List.map_cons]

theorem Json.outlineMembers_eq_map (members : List (String × Json)) :
    outlineMembers members = members.map fun m => (.text (.ofString m.1), m.2.outline) := by
  induction members with
  | nil => rfl
  | cons m rest ih => rw [outlineMembers, ih, List.map_cons]

theorem Json.outline_ne_badWord (j : Json) (w : Word) (ended : Bool) :
    j.outline ≠ .badWord w ended := by
  cases j with
  | null => exact nofun
  | bool b => cases b <;> exact nofun
  | number n =>
    rcases n.written_cases with ⟨-, hn⟩ | ⟨-, hn⟩ <;> rw [outline, hn] <;> exact nofun
  | string s => exact nofun
  | array items => exact nofun
  | object members => exact nofun

namespace Reader

variable {depth : Nat} {α : Type} {r : Reader α} {write : α → Json}

/-- A reader that undoes what was written gives it back from the whole text. -/
theorem Undoes.ofText (h : r.Undoes depthLimit write) {sp : Spacing} (hsp : sp.IsBlank) {a : α}
    (ha : (write a).Legible depthLimit) : r.ofText (Json.write sp 0 (write a)) = .ok a := by
  rw [Reader.ofText, Outline.scan_write hsp]
  show (do let value ← r.fromText depthLimit (write a).outline; _) = _
  rw [h a ha]
  rfl

theorem undoes_text : text.Undoes depth .string := by
  intro s _
  exact Quoted.decode_ofString s

theorem undoes_flag : flag.Undoes depth .bool := by
  intro b _
  cases b <;> rfl

theorem undoes_double : double.Undoes depth Json.real := by
  intro x hx
  have hread := hx.readsBack
  rw [Double.ReadsBack, Json.compact, Reader.ofText, Outline.scan_write Spacing.isBlank_compact]
    at hread
  obtain ⟨y, hy, hxy⟩ := bind_eq_ok_iff.mp hread
  cases hxy
  exact hy

theorem undoes_keyword [Keyword α] : (keyword α).Undoes depth Json.keyword := by
  intro k _
  have hname : name.fromText depth (Json.keyword k).outline = .ok (Keyword.name k) :=
    Quoted.decode_ofString _
  simp only [keyword, map, hname]
  exact congrArg Except.ok (Keyword.ofName_name k)

/-- Of what is not written `null` it makes no difference that it might have been. -/
theorem Undoes.optional (h : r.Undoes depth write)
    (hnull : ∀ a, r.fromText depth (.word .null) ≠ .ok a) :
    r.optional.Undoes depth (Json.ofOption write) := by
  intro o ho
  cases o with
  | none => rfl
  | some a =>
    have hread := h a ho
    have hbad := Json.outline_ne_badWord (write a) .null
    simp only [Reader.optional, Json.ofOption]
    generalize (write a).outline = written at hread hbad
    split
    · exact absurd hread (hnull a)
    · exact absurd rfl (hbad _)
    · rw [hread]
      rfl

theorem Undoes.list (h : ∀ e < depth, r.Undoes e write) :
    r.list.Undoes depth (Json.ofList write) := by
  intro as has
  obtain ⟨e, rfl, hitems⟩ := has.items
  have hread : (as.map fun a => (write a).outline).mapM (r.fromText e) = .ok (as.map id) :=
    mapM_eq_ok_map fun a ha => h e (Nat.lt_succ_self e) a (hitems _ (List.mem_map_of_mem ha))
  rw [List.map_id] at hread
  simp only [Reader.list, Json.ofList, Json.outline, Json.outlineItems_eq_map, List.map_map]
  show (do let xs ← (as.map fun a => (write a).outline).mapM (r.fromText e); _) = _
  rw [hread]
  rfl

theorem Undoes.keyed (what : String) (h : ∀ e < depth, r.Undoes e write) :
    (r.keyed what).Undoes depth fun ms => .object (ms.map fun m => (m.1, write m.2)) := by
  intro ms hms
  obtain ⟨e, rfl, hmembers⟩ := hms.members
  let read (m : Outline × Outline) : Except Fault (String × α) := do
    let key ← m.1.key
    let value ← r.fromText e m.2
    return (key, value)
  let written (m : String × α) : Outline × Outline := (.text (.ofString m.1), (write m.2).outline)
  have hread : (ms.map written).mapM read = .ok (ms.map id) := by
    refine mapM_eq_ok_map fun m hm => ?_
    have hmember := List.mem_map_of_mem (f := fun m => (m.1, write m.2)) hm
    have hvalue := h e (Nat.lt_succ_self e) m.2 (hmembers _ hmember)
    have hkey : (Outline.text (.ofString m.1)).key = .ok m.1 := Quoted.decode_ofString m.1
    simp only [read, written, hkey, hvalue]
    rfl
  rw [List.map_id] at hread
  simp only [Reader.keyed, Json.outline, Json.outlineMembers_eq_map, List.map_map]
  show (do let xs ← (ms.map written).mapM read; _) = _
  rw [hread]
  rfl

end Reader

/-! ## Records -/

namespace Record

variable {σ α : Type}

/-- Members that stand in the order of fields and put a value into them, one after the other. -/
inductive Restores (depth : Nat) : List (Slot σ) → List (String × Json) → σ → σ → Prop
  | nil {s : σ} : Restores depth [] [] s s
  | cons {f : Slot σ} {j : Json} {put : σ → σ} {fs : List (Slot σ)} {ms : List (String × Json)}
      {acc s : σ} (hread : j.Legible depth → f.fromText depth j.outline = .ok put)
      (rest : Restores depth fs ms (put acc) s) :
      Restores depth (f :: fs) ((f.key, j) :: ms) acc s

section Fields

variable {depth : Nat} {key : String} {r : Reader α} {write : α → Json} {put : α → σ → σ} {a : α}
  {fs : List (Slot σ)} {ms : List (String × Json)} {acc s : σ}

theorem Restores.optional (h : r.Undoes depth write) (rest : Restores depth fs ms (put a acc) s) :
    Restores depth (.optional key r put :: fs) ((key, write a) :: ms) acc s := by
  have hread (ha : (write a).Legible depth) :
      (Slot.optional key r put).fromText depth (write a).outline = .ok (put a) := by
    simp only [Slot.optional, h a ha]
    rfl
  exact .cons hread rest

theorem Restores.required (h : r.Undoes depth write) (rest : Restores depth fs ms (put a acc) s) :
    Restores depth (.required key r put :: fs) ((key, write a) :: ms) acc s := by
  have hread (ha : (write a).Legible depth) :
      (Slot.required key r put).fromText depth (write a).outline = .ok (put a) := by
    simp only [Slot.required, Slot.optional, h a ha]
    rfl
  exact .cons hread rest

end Fields

def keys (r : Record σ) : List String := r.fields.map (·.key)

variable {r : Record σ}

theorem find?_key {fs : List (Slot σ)} (hnd : (fs.map (·.key)).Nodup) {f : Slot σ} (hf : f ∈ fs) :
    fs.find? (·.key == f.key) = some f := by
  induction fs with
  | nil => cases hf
  | cons g rest ih =>
    obtain ⟨hg, hrest⟩ := List.nodup_cons.mp hnd
    rcases List.mem_cons.mp hf with rfl | hf
    · rw [List.find?_cons, beq_self_eq_true]
    · have hne : g.key ≠ f.key := fun h => hg (List.mem_map.mpr ⟨f, hf, h.symm⟩)
      rw [List.find?_cons, beq_false_of_ne hne]
      exact ih hrest hf

/-- The members of an object are read one after the other, as each key is new. -/
theorem readMembers_of_restores {depth : Nat} {fs : List (Slot σ)} {ms : List (String × Json)}
    {acc s : σ} (h : Restores depth fs ms acc s) {seen : List String}
    (hfields : ∀ f ∈ fs, r.field? f.key = some f)
    (hnew : (fs.map (·.key)).Nodup ∧ ∀ f ∈ fs, f.key ∉ seen)
    (hms : ∀ m ∈ ms, m.2.Legible depth) :
    r.readMembers depth seen acc (Json.outlineMembers ms) =
      .ok ((fs.map (·.key)).reverse ++ seen, s) := by
  induction h generalizing seen with
  | nil => rfl
  | @cons f j put fs ms acc s hread _ ih =>
    obtain ⟨hf, hfs⟩ := List.forall_mem_cons.mp hfields
    obtain ⟨hj, hms⟩ := List.forall_mem_cons.mp hms
    obtain ⟨hnd, hnew⟩ := hnew
    obtain ⟨hfresh, hlater⟩ := List.forall_mem_cons.mp hnew
    obtain ⟨hkey, hnd⟩ := List.nodup_cons.mp hnd
    have hseen (g : Slot _) (hg : g ∈ fs) : g.key ∉ f.key :: seen :=
      List.not_mem_cons_of_ne_of_not_mem (fun h => hkey (List.mem_map.mpr ⟨g, hg, h⟩)) (hlater g hg)
    have hrest := ih hfs ⟨hnd, hseen⟩ hms
    have hdecode : (Outline.text (.ofString f.key)).key = .ok f.key := Quoted.decode_ofString _
    have hunseen : seen.contains f.key = false := by simpa using hfresh
    rw [Json.outlineMembers, readMembers]
    simp only [hdecode, bind, Except.bind, hf, hunseen, hread hj, hrest]
    simp

/-- A record is undone if its members put into its fields what it was. -/
theorem undoes {members : σ → List (String × Json)} {depth : Nat} (hnd : r.keys.Nodup)
    (h : ∀ e < depth, ∀ s, Restores e r.fields (members s) r.blank s) :
    r.reader.Undoes depth fun s => .object (members s) := by
  intro s hs
  obtain ⟨e, rfl, hmembers⟩ := hs.members
  have hread : r.readMembers e [] r.blank (Json.outlineMembers (members s)) =
      .ok (r.keys.reverse ++ [], s) :=
    readMembers_of_restores (h e (Nat.lt_succ_self e) s) (fun f hf => find?_key hnd hf)
      ⟨hnd, fun _ _ => List.not_mem_nil⟩ hmembers
  have hseen : r.checkSeen r.keys.reverse = .ok () := by
    have hnone :
        r.fields.find? (fun f => f.mandatory && !r.keys.reverse.contains f.key) = none := by
      refine List.find?_eq_none.mpr fun f hf => ?_
      have hmem : f.key ∈ r.keys := List.mem_map_of_mem hf
      simp [hmem]
    rw [checkSeen, hnone]
  rw [List.append_nil] at hread
  show (do let read ← r.readMembers e [] r.blank (Json.outlineMembers (members s)); _) = _
  rw [hread]
  simp only [bind, Except.bind, Stop.inObject, hseen]
  rfl

end Record

end DesignBrief
