import DesignBrief.Proofs.Doubles.Division
import DesignBrief.Scene.Reader

/-!
What readers accept. A property of what a reader gives is shown once for each way to build readers:
a record has it if its blank value has it and no field destroys it, `Record.gives_reader`. The first
use is that all numbers in a design file that is read from a text are finite,
`Response.allFinite_of_ofText`.
-/

namespace DesignBrief

/-! ## Steps that succeed -/

section Steps

variable {α β : Type}

theorem bind_eq_ok_iff {ε : Type} {x : Except ε α} {f : α → Except ε β} {b : β} :
    x >>= f = .ok b ↔ ∃ a, x = .ok a ∧ f a = .ok b := by
  cases x <;> simp [bind, Except.bind]

theorem map_eq_ok_iff {ε : Type} {x : Except ε α} {f : α → β} {b : β} :
    x.map f = .ok b ↔ ∃ a, x = .ok a ∧ f a = b := by
  cases x <;> simp [Except.map]

theorem mapError_eq_ok_iff {ε δ : Type} {x : Except ε α} {f : ε → δ} {a : α} :
    x.mapError f = .ok a ↔ x = .ok a := by
  cases x <;> simp [Except.mapError]

theorem exists_eq_ok_of_isSome {ε : Type} {x : Except ε α} (h : x.toOption.isSome = true) :
    ∃ a, x = .ok a := by
  cases x with
  | ok a => exact ⟨a, rfl⟩
  | error e => cases h

theorem forall_of_mapM_eq_ok {f : α → Except Fault β} {P : β → Prop} {xs : List α} {ys : List β}
    (h : xs.mapM f = .ok ys) (hf : ∀ x y, f x = .ok y → P y) : ∀ y ∈ ys, P y := by
  induction xs generalizing ys with
  | nil =>
    cases h
    exact fun y hy => absurd hy List.not_mem_nil
  | cons x xs ih =>
    rw [List.mapM_cons, bind_eq_ok_iff] at h
    obtain ⟨y, hy, h⟩ := h
    obtain ⟨ys, hys, h⟩ := bind_eq_ok_iff.mp h
    cases h
    exact List.forall_mem_cons.mpr ⟨hf x y hy, ih hys⟩

end Steps

/-! ## Readers and fields -/

/-- Whatever the reader accepts in a text has the property. -/
def Reader.Gives {α : Type} (r : Reader α) (P : α → Prop) : Prop :=
  ∀ depth o a, r.fromText depth o = .ok a → P a

/-- Whatever is put into the field, the property is kept. -/
def Slot.Keeps {σ : Type} (f : Slot σ) (P : σ → Prop) : Prop :=
  ∀ depth o put, f.fromText depth o = .ok put → ∀ s, P s → P (put s)

namespace Reader

variable {α β : Type} {r : Reader α} {P : α → Prop}

theorem gives_true (r : Reader α) : r.Gives fun _ => True := fun _ _ _ _ => trivial

theorem gives_refuse (why : Fault) : (refuse why : Reader α).Gives P := by
  intro depth o a h
  cases h

theorem gives_optional (h : r.Gives P) : r.optional.Gives fun o => ∀ a ∈ o, P a := by
  intro depth o a ha
  simp only [optional] at ha
  split at ha
  · cases ha
    exact fun a ha => absurd ha (Option.not_mem_none a)
  · cases ha
  · obtain ⟨b, hb, rfl⟩ := map_eq_ok_iff.mp ha
    intro a ha
    cases ha
    exact h depth o b hb

theorem gives_list (h : r.Gives P) : r.list.Gives fun as => ∀ a ∈ as, P a := by
  intro depth o as has
  simp only [list] at has
  split at has
  · cases has
  · obtain ⟨bs, hbs, has⟩ := bind_eq_ok_iff.mp has
    obtain ⟨_, _, has⟩ := bind_eq_ok_iff.mp has
    cases has
    exact forall_of_mapM_eq_ok hbs fun x y hy => h _ x y hy
  · cases has

theorem gives_keyed (what : String) (h : r.Gives P) :
    (r.keyed what).Gives fun ms => ∀ m ∈ ms, P m.2 := by
  intro depth o ms hms
  simp only [keyed] at hms
  split at hms
  · cases hms
  · obtain ⟨bs, hbs, hms⟩ := bind_eq_ok_iff.mp hms
    obtain ⟨_, _, hms⟩ := bind_eq_ok_iff.mp hms
    cases hms
    refine forall_of_mapM_eq_ok hbs fun m y hy => ?_
    obtain ⟨key, _, hy⟩ := bind_eq_ok_iff.mp hy
    obtain ⟨a, ha, hy⟩ := bind_eq_ok_iff.mp hy
    cases hy
    exact h _ m.2 a ha
  · cases hms

/-- What is read from a whole text is what is read from its outline, if nothing is left. -/
theorem ofText_eq_ok_iff {s : String} {a : α} :
    r.ofText s = .ok a ↔ r.fromText depthLimit (Outline.scan s.toList).1 = .ok a ∧
      Scanner.trim (Outline.scan s.toList).2 = [] := by
  unfold Reader.ofText
  generalize Outline.scan s.toList = found
  obtain ⟨o, rest⟩ := found
  simp only [bind_eq_ok_iff, List.isEmpty_iff]
  constructor
  · rintro ⟨b, hb, h⟩
    split at h
    · cases h
      exact ⟨hb, ‹_›⟩
    · cases h
  · rintro ⟨ha, hrest⟩
    exact ⟨a, ha, if_pos hrest⟩

theorem Gives.ofText (h : r.Gives P) {s : String} {a : α} (ha : r.ofText s = .ok a) : P a :=
  h _ _ _ (ofText_eq_ok_iff.mp ha).1

end Reader

namespace Slot

variable {σ α : Type} {P : σ → Prop} {Q : α → Prop} {r : Reader α} {put : α → σ → σ}

theorem keeps_optional (key : String) (hr : r.Gives Q)
    (hput : ∀ a s, Q a → P s → P (put a s)) : (optional key r put).Keeps P := by
  intro depth o put' hput' s hs
  obtain ⟨a, ha, rfl⟩ := map_eq_ok_iff.mp hput'
  exact hput a s (hr depth o a ha) hs

theorem keeps_required (key : String) (hr : r.Gives Q)
    (hput : ∀ a s, Q a → P s → P (put a s)) : (required key r put).Keeps P :=
  keeps_optional key hr hput

end Slot

namespace Record

variable {σ : Type} {r : Record σ} {P : σ → Prop}

theorem keeps_of_field? (hfields : ∀ f ∈ r.fields, f.Keeps P) {key : String} {f : Slot σ}
    (hf : r.field? key = some f) : f.Keeps P :=
  hfields f (List.mem_of_find?_eq_some hf)

theorem readMembers_keeps (hfields : ∀ f ∈ r.fields, f.Keeps P) {depth : Nat}
    {seen seen' : List String} {acc s : σ} {ms : List (Outline × Outline)} (hacc : P acc)
    (h : r.readMembers depth seen acc ms = .ok (seen', s)) : P s := by
  induction ms generalizing seen acc with
  | nil =>
    cases h
    exact hacc
  | cons m ms ih =>
    obtain ⟨k, v⟩ := m
    rw [readMembers] at h
    obtain ⟨key, _, h⟩ := bind_eq_ok_iff.mp h
    cases hf : r.field? key with
    | none =>
      rw [hf] at h
      obtain ⟨_, _, h⟩ := bind_eq_ok_iff.mp h
      exact ih hacc h
    | some f =>
      rw [hf] at h
      simp only at h
      split at h
      · cases h
      · obtain ⟨put, hput, h⟩ := bind_eq_ok_iff.mp h
        exact ih (keeps_of_field? hfields hf depth v put hput acc hacc) h

theorem readItems_keeps {depth : Nat} {stop : Stop} {index : Nat} {fs : List (Slot σ)}
    (hfields : ∀ f ∈ fs, f.Keeps P) {acc s : σ} {items : List Outline} (hacc : P acc)
    (h : r.readItems depth stop index fs acc items = .ok s) : P s := by
  induction fs generalizing index acc items with
  | nil =>
    cases items with
    | nil =>
      obtain ⟨_, _, h⟩ := bind_eq_ok_iff.mp h
      cases h
      exact hacc
    | cons o rest => cases h
  | cons f fs ih =>
    cases items with
    | nil =>
      obtain ⟨_, _, h⟩ := bind_eq_ok_iff.mp h
      obtain ⟨_, _, h⟩ := bind_eq_ok_iff.mp h
      cases h
      exact hacc
    | cons o rest =>
      obtain ⟨hf, hfs⟩ := List.forall_mem_cons.mp hfields
      obtain ⟨put, hput, h⟩ := bind_eq_ok_iff.mp h
      exact ih hfs (hf depth o put hput acc hacc) h

/-- A record has a property if its blank value has it and no field destroys it. -/
theorem gives_reader (hblank : P r.blank) (hfields : ∀ f ∈ r.fields, f.Keeps P) :
    r.reader.Gives P := by
  intro depth o s h
  simp only [reader] at h
  split at h
  · cases h
  · cases h
  · exact readItems_keeps hfields hblank h
  · obtain ⟨⟨seen, value⟩, hread, h⟩ := bind_eq_ok_iff.mp h
    obtain ⟨_, _, h⟩ := bind_eq_ok_iff.mp h
    obtain ⟨_, _, h⟩ := bind_eq_ok_iff.mp h
    cases h
    exact readMembers_keeps hfields hblank hread
  · cases h

end Record

/-! ## Numbers -/

namespace Numeral

open Double

theorem isFinite_power {k : Nat} (hk : k ≤ 308) : (power k).isFinite = true :=
  isFinite_powerOfTen hk

theorem isFinite_div_power {x : Float} (hx : x.isFinite = true) {k : Nat} (hpos : 0 < k)
    (hk : k ≤ 308) : (x / power k).isFinite = true :=
  isFinite_div hx (large_powerOfTen hpos hk)

theorem isFinite_of_scale {m : Nat} {e : Int} {x : Float} (h : scale m e = .ok x) :
    x.isFinite = true := by
  have hm : m.toUInt64.toFloat.isFinite = true := isFinite_ofUInt64 _
  simp only [scale] at h
  split at h
  · split at h
    · rename_i hk
      split at h
      · cases h
      · rename_i hinf
        cases h
        exact (isFinite_or_isInf_mul hm (isFinite_power hk)).resolve_right hinf
    · split at h
      · cases h
        exact hm
      · cases h
  · split at h
    · rename_i hneg hk
      cases h
      exact isFinite_div_power hm (by omega) hk
    · split at h
      · rename_i hneg hk hk'
        cases h
        exact isFinite_div_power (isFinite_div_power hm (by decide) (by decide)) (by omega)
          (by omega)
      · cases h
        decide

theorem isFinite_of_magnitude {n : Numeral} {x : Float} (h : n.magnitude = .ok x) :
    x.isFinite = true := by
  simp only [magnitude] at h
  split at h
  · exact isFinite_of_scale h
  · split at h
    · exact isFinite_of_scale h
    · split at h
      · cases h
        decide
      · cases h

/-- Every numeral that is read as a number is read as a finite one. -/
theorem isFinite_of_value {n : Numeral} {v : Number} (h : n.value = .ok v) :
    v.toFloat.isFinite = true := by
  have hinteger (i : Int) : (Number.integer i).toFloat.isFinite = true := by
    cases i with
    | ofNat k => exact isFinite_ofUInt64 _
    | negSucc k => exact isFinite_neg (isFinite_ofUInt64 _)
  have hreal (hr : n.real = .ok v) : v.toFloat.isFinite = true := by
    obtain ⟨x, hx, rfl⟩ := map_eq_ok_iff.mp hr
    have hfinite := isFinite_of_magnitude hx
    cases n.negative with
    | true => exact isFinite_neg hfinite
    | false => exact hfinite
  unfold value at h
  split at h
  · simp only at h
    split at h
    · split at h
      · cases h
        exact hinteger _
      · exact hreal h
    · split at h
      · cases h
        exact hinteger _
      · exact hreal h
  · exact hreal h

end Numeral

theorem Reader.gives_double : double.Gives fun x => x.isFinite = true := by
  intro depth o x h
  simp only [double] at h
  split at h
  · obtain ⟨v, hv, rfl⟩ := map_eq_ok_iff.mp h
    exact Numeral.isFinite_of_value hv
  · cases h

end DesignBrief
