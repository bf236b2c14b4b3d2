import DesignBrief.Proofs.Reading
import DesignBrief.Scene.Reader

/-!
How the readers of a design file are put together: from those of strings, truth values, numbers and
keywords, by making them optional, by lists and by records. What holds of the simple readers, and is
kept by each way to build readers, holds of those of nodes and entries, `Reader.Closed.nodeEntry`.
-/

namespace DesignBrief

open Reader

/-! ## Fields -/

namespace Slot

variable {σ α : Type}

theorem reads_optional (key : String) (r : Reader α) (put : α → σ → σ) :
    (optional key r put).Reads r put :=
  ⟨fun _ _ => rfl, fun _ => rfl⟩

theorem reads_required (key : String) (r : Reader α) (put : α → σ → σ) :
    (required key r put).Reads r put :=
  ⟨fun _ _ => rfl, fun _ => rfl⟩

end Slot

theorem Record.mem_of_field? {σ : Type} {R : Record σ} {key : String} {f : Slot σ}
    (h : R.field? key = some f) : f ∈ R.fields ∧ f.key = key :=
  ⟨List.mem_of_find?_eq_some h, by simpa using List.find?_some h⟩

theorem Record.readMembers_unknown {σ : Type} {R : Record σ} {depth : Nat} {k : Outline}
    {key : String} (hkey : k.key = .ok key)
    (hf : R.field? key = none) (seen : List String) (acc : σ) (v : Outline)
    (rest : List (Outline × Outline)) :
    R.readMembers depth seen acc ((k, v) :: rest) =
      v.skip >>= fun _ => R.readMembers depth seen acc rest := by
  simp only [readMembers, hkey, hf, bind, Except.bind]

theorem Record.readMembers_known {σ : Type} {R : Record σ} {depth : Nat} {k : Outline}
    {key : String} (hkey : k.key = .ok key) {f : Slot σ}
    (hf : R.field? key = some f) (seen : List String) (acc : σ) (v : Outline)
    (rest : List (Outline × Outline)) :
    R.readMembers depth seen acc ((k, v) :: rest) =
      if seen.contains key then .error (.repeatedField key)
      else f.fromText depth v >>= fun put => R.readMembers depth (key :: seen) (put acc) rest := by
  simp only [readMembers, hkey, hf, bind, Except.bind]

theorem Record.commute {σ : Type} (R : Record σ) {f g : Slot σ} (hf : f ∈ R.fields)
    (hg : g ∈ R.fields) (hne : f.key ≠ g.key) : f.Commute g :=
  have : Std.Symm (Slot.Commute (σ := σ)) := ⟨fun _ _ => Slot.Commute.symm⟩
  List.Pairwise.forall R.independent hf hg fun hfg => hne (congrArg Slot.key hfg)

/-! ## Ways to build readers -/

namespace Reader

variable {α : Type}

theorem fromText_list (r : Reader α) (depth : Nat) (items : List Outline) :
    r.list.fromText (depth + 1) (.list items .closed) = items.mapM (r.fromText depth) := by
  show (do let xs ← items.mapM (r.fromText depth); Stop.closed.inList; return xs) = _
  cases items.mapM (r.fromText depth) <;> rfl

theorem fromText_keyed (what : String) (r : Reader α) (depth : Nat)
    (members : List (Outline × Outline)) :
    (r.keyed what).fromText (depth + 1) (.object members .closed) =
      members.mapM fun m => do
        let key ← m.1.key
        let value ← r.fromText depth m.2
        return (key, value) := by
  simp only [keyed, Stop.inObject]
  generalize members.mapM (m := Except Fault) _ = read
  cases read <;> rfl

end Reader

/-- A field whose content is read by a reader with a property. -/
def Slot.Holds {σ : Type} (f : Slot σ) (P : ∀ {α : Type}, Reader α → Prop) : Prop :=
  ∃ (α : Type) (r : Reader α) (put : α → σ → σ), f.Reads r put ∧ P r

/-- The simple readers have a property, and each way to build readers keeps it. -/
structure Reader.Closed (P : ∀ {α : Type}, Reader α → Prop) : Prop where
  text : P text
  flag : P flag
  double : P double
  keyword : ∀ {α : Type} [Keyword α], P (keyword α)
  refuse : ∀ {α : Type} (why : Fault), P (refuse why : Reader α)
  optional : ∀ {α : Type} {r : Reader α}, P r → P r.optional
  list : ∀ {α : Type} {r : Reader α}, P r → P r.list
  record : ∀ {σ : Type} {R : Record σ}, (∀ f ∈ R.fields, f.Holds @P) → P R.reader

namespace Reader.Closed

variable {P : ∀ {α : Type}, Reader α → Prop}

theorem holds_optional {σ α : Type} {r : Reader α} (h : P r) (key : String) (put : α → σ → σ) :
    (Slot.optional key r put).Holds @P :=
  ⟨α, r, put, Slot.reads_optional key r put, h⟩

theorem holds_required {σ α : Type} {r : Reader α} (h : P r) (key : String) (put : α → σ → σ) :
    (Slot.required key r put).Holds @P :=
  ⟨α, r, put, Slot.reads_required key r put, h⟩

theorem holds_own {α : Type} {r : Reader α} (h : P r) (key : String)
    (put : α → Attributes → Attributes) : (Node.own key r put).Holds @P :=
  holds_optional h key fun v (n : Node) => { n with attributes := put v n.attributes }

variable (h : Reader.Closed @P)
include h

theorem point : P Point.record.reader := by
  refine h.record ?_
  simp only [Point.record, List.forall_mem_cons, List.not_mem_nil, false_implies, implies_true,
    and_true]
  exact ⟨holds_required h.double .., holds_required h.double ..⟩

theorem box : P Box.record.reader := by
  refine h.record ?_
  simp only [Box.record, List.forall_mem_cons, List.not_mem_nil, false_implies, implies_true,
    and_true]
  exact ⟨holds_optional h.double .., holds_optional h.double .., holds_optional h.double ..,
    holds_optional h.double ..⟩

theorem edges : P Edges.record.reader := by
  refine h.record ?_
  simp only [Edges.record, List.forall_mem_cons, List.not_mem_nil, false_implies, implies_true,
    and_true]
  exact ⟨holds_optional h.double .., holds_optional h.double .., holds_optional h.double ..,
    holds_optional h.double ..⟩

theorem color : P Color.record.reader := by
  refine h.record ?_
  simp only [Color.record, List.forall_mem_cons, List.not_mem_nil, false_implies, implies_true,
    and_true]
  exact ⟨holds_optional h.double .., holds_optional h.double .., holds_optional h.double ..,
    holds_optional h.double ..⟩

theorem colorStop : P ColorStop.record.reader := by
  refine h.record ?_
  simp only [ColorStop.record, List.forall_mem_cons, List.not_mem_nil, false_implies, implies_true,
    and_true]
  exact ⟨holds_required h.double .., holds_required h.color ..⟩

theorem paint : P Paint.record.reader := by
  refine h.record ?_
  simp only [Paint.record, List.forall_mem_cons, List.not_mem_nil, false_implies, implies_true,
    and_true]
  exact ⟨holds_required h.keyword .., holds_optional (h.optional h.flag) ..,
    holds_optional (h.optional h.double) .., holds_optional (h.optional h.color) ..,
    holds_optional (h.optional (h.list h.point)) ..,
    holds_optional (h.optional (h.list h.colorStop)) .., holds_optional (h.optional h.text) ..,
    holds_optional (h.optional h.keyword) ..⟩

theorem effect : P Effect.record.reader := by
  refine h.record ?_
  simp only [Effect.record, List.forall_mem_cons, List.not_mem_nil, false_implies, implies_true,
    and_true]
  exact ⟨holds_required h.keyword .., holds_optional (h.optional h.flag) ..,
    holds_optional h.double .., holds_optional (h.optional h.color) ..,
    holds_optional (h.optional h.point) .., holds_optional (h.optional h.double) ..⟩

theorem typeStyle : P TypeStyle.record.reader := by
  refine h.record ?_
  simp only [TypeStyle.record, List.forall_mem_cons, List.not_mem_nil, false_implies, implies_true,
    and_true]
  exact ⟨holds_optional (h.optional h.text) .., holds_optional (h.optional h.double) ..,
    holds_optional (h.optional h.double) .., holds_optional (h.optional h.double) ..,
    holds_optional (h.optional h.double) .., holds_optional (h.optional h.text) ..,
    holds_optional (h.optional h.text) .., holds_optional (h.optional h.text) ..⟩

theorem node {child : Reader Node} (hchild : P child) : P (Node.record child).reader := by
  refine h.record ?_
  simp only [Node.record, List.forall_mem_cons, List.not_mem_nil, false_implies, implies_true,
    and_true]
  exact ⟨holds_own h.text .., holds_own h.text .., holds_own h.text ..,
    holds_own (h.optional h.flag) .., holds_optional (h.optional (h.list hchild)) ..,
    holds_own (h.optional h.box) .., holds_own (h.optional (h.list h.paint)) ..,
    holds_own (h.optional (h.list h.paint)) .., holds_own (h.optional h.double) ..,
    holds_own (h.optional h.edges) .., holds_own (h.optional (h.list h.double)) ..,
    holds_own (h.optional (h.list h.effect)) .., holds_own (h.optional h.typeStyle) ..,
    holds_own (h.optional h.text) .., holds_own (h.optional h.double) ..,
    holds_own (h.optional h.double) .., holds_own (h.optional (h.list h.double)) ..,
    holds_own (h.optional h.flag) .., holds_own (h.optional h.keyword) ..,
    holds_own (h.optional h.keyword) .., holds_own (h.optional h.keyword) ..,
    holds_own (h.optional h.keyword) .., holds_own (h.optional h.double) ..,
    holds_own (h.optional h.double) .., holds_own (h.optional h.double) ..,
    holds_own (h.optional h.double) .., holds_own (h.optional h.double) ..,
    holds_own (h.optional h.keyword) .., holds_own (h.optional h.keyword) ..,
    holds_own (h.optional h.double) .., holds_own (h.optional h.keyword) ..,
    holds_own (h.optional h.keyword) .., holds_own (h.optional h.keyword) ..,
    holds_own (h.optional h.flag) ..⟩

/-- The property goes down the generations, whatever may be said at the last. -/
theorem readerTo (generations : Nat) : P (Node.readerTo generations) := by
  induction generations with
  | zero => exact h.node (h.refuse .tooDeep)
  | succ generations ih => exact h.node ih

theorem nodeEntry : P NodeEntry.record.reader := by
  refine h.record ?_
  rw [NodeEntry.record, List.forall_mem_singleton]
  exact holds_required (h.readerTo depthLimit) ..

end Reader.Closed

end DesignBrief
