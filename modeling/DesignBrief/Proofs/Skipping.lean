import DesignBrief.Proofs.Composition
import DesignBrief.Proofs.ParsedValues

/-!
Whatever a reader accepts could be skipped as well: reading asks for more than skipping. It is shown
for each way to build readers, and so of the reader of design files, `Response.skips_reader`.
-/

namespace DesignBrief

open Reader

/-! ## Outlines -/

theorem Outline.skip_list {items : List Outline} (h : ∀ o ∈ items, o.skip = .ok ()) :
    (Outline.list items .closed).skip = .ok () := by
  have hitems : skipItems items = .ok () := by
    induction items with
    | nil => rfl
    | cons o rest ih =>
      rw [List.forall_mem_cons] at h
      rw [skipItems, h.1]
      exact ih h.2
  rw [skip, hitems]
  rfl

theorem Outline.skip_of_key {k : Outline} {key : String} (h : k.key = .ok key) :
    ∃ q, k = .text q ∧ q.skip = .ok () := by
  cases k with
  | text q => exact ⟨q, rfl, Quoted.skip_of_decode h⟩
  | _ => cases h

theorem Outline.skipMembers_eq_ok {members : List (Outline × Outline)}
    (h : ∀ m ∈ members, (∃ key, m.1.key = .ok key) ∧ m.2.skip = .ok ()) :
    skipMembers members = .ok () := by
  induction members with
  | nil => rfl
  | cons m rest ih =>
    rw [List.forall_mem_cons] at h
    obtain ⟨⟨⟨key, hkey⟩, hvalue⟩, hrest⟩ := h
    obtain ⟨k, v⟩ := m
    obtain ⟨q, rfl, hq⟩ := skip_of_key hkey
    rw [skipMembers, hq, hvalue]
    exact ih hrest

theorem Outline.skip_object {members : List (Outline × Outline)}
    (h : ∀ m ∈ members, (∃ key, m.1.key = .ok key) ∧ m.2.skip = .ok ()) :
    (Outline.object members .closed).skip = .ok () := by
  rw [skip, skipMembers_eq_ok h]
  rfl

theorem Stop.closed_of_inList {stop : Stop} (h : stop.inList = .ok ()) : stop = .closed := by
  cases stop <;> first | rfl | cases h

theorem Stop.closed_of_inObject {stop : Stop} (h : stop.inObject = .ok ()) : stop = .closed := by
  cases stop <;> first | rfl | cases h

theorem Stop.closed_of_afterLast {stop : Stop} (h : stop.afterLast = .ok ()) : stop = .closed := by
  cases stop <;> first | rfl | cases h

/-! ## Readers -/

/-- Whatever the reader accepts could be skipped as well. -/
def Reader.Skips {α : Type} (r : Reader α) : Prop :=
  ∀ depth o a, r.fromText depth o = .ok a → o.skip = .ok ()

/-- What a row of steps accepts, each step accepts of its part. -/
theorem exists_of_mapM_eq_ok {α β : Type} {f : α → Except Fault β} {xs : List α} {ys : List β}
    (h : xs.mapM f = .ok ys) : ∀ x ∈ xs, ∃ y, f x = .ok y := by
  induction xs generalizing ys with
  | nil => exact nofun
  | cons x xs ih =>
    rw [List.mapM_cons] at h
    obtain ⟨y, hy, h⟩ := bind_eq_ok_iff.mp h
    obtain ⟨ys, hys, -⟩ := bind_eq_ok_iff.mp h
    exact List.forall_mem_cons.mpr ⟨⟨y, hy⟩, ih hys⟩

namespace Reader

variable {α : Type} {r : Reader α}

theorem skips_text : text.Skips := by
  intro depth o a h
  cases o with
  | text q => exact Quoted.skip_of_decode h
  | _ => cases h

theorem skips_flag : flag.Skips := by
  intro depth o a h
  cases o with
  | word w => rfl
  | _ => cases h

theorem skips_double : double.Skips := by
  intro depth o a h
  cases o with
  | number n => rfl
  | _ => cases h

theorem skips_refuse (why : Fault) : (refuse why : Reader α).Skips := by
  intro depth o a h
  cases h

theorem skips_optional (h : r.Skips) : r.optional.Skips := by
  intro depth o a ha
  simp only [optional] at ha
  split at ha
  · rfl
  · cases ha
  · obtain ⟨b, hb, -⟩ := map_eq_ok_iff.mp ha
    exact h depth o b hb

theorem skips_list (h : r.Skips) : r.list.Skips := by
  intro depth o as has
  simp only [list] at has
  split at has
  · cases has
  · rename_i depth items stop
    obtain ⟨bs, hbs, has⟩ := bind_eq_ok_iff.mp has
    obtain ⟨_, hstop, -⟩ := bind_eq_ok_iff.mp has
    rw [Stop.closed_of_inList hstop]
    refine Outline.skip_list fun o ho => ?_
    obtain ⟨a, ha⟩ := exists_of_mapM_eq_ok hbs o ho
    exact h depth o a ha
  · cases has

theorem skips_keyed (what : String) (h : r.Skips) : (r.keyed what).Skips := by
  intro depth o ms hms
  simp only [keyed] at hms
  split at hms
  · cases hms
  · rename_i depth members stop
    obtain ⟨bs, hbs, hms⟩ := bind_eq_ok_iff.mp hms
    obtain ⟨_, hstop, -⟩ := bind_eq_ok_iff.mp hms
    rw [Stop.closed_of_inObject hstop]
    refine Outline.skip_object fun m hm => ?_
    obtain ⟨b, hb⟩ := exists_of_mapM_eq_ok hbs m hm
    obtain ⟨key, hkey, hb⟩ := bind_eq_ok_iff.mp hb
    obtain ⟨a, ha, -⟩ := bind_eq_ok_iff.mp hb
    exact ⟨⟨key, hkey⟩, h depth m.2 a ha⟩
  · cases hms

theorem skips_keyword [Keyword α] : (keyword α).Skips := by
  intro depth o a h
  obtain ⟨s, hs, -⟩ := map_eq_ok_iff.mp h
  simp only [name] at hs
  split at hs
  · exact Quoted.skip_of_decode hs
  · cases hs
  · cases hs
  · rename_i depth k v rest stop
    obtain ⟨key, hkey, hs⟩ := bind_eq_ok_iff.mp hs
    obtain ⟨_, hv, hs⟩ := bind_eq_ok_iff.mp hs
    have hskip : v.skip = .ok () := by
      cases v with
      | word w => rfl
      | _ => cases hv
    split at hs
    · exact Outline.skip_object (List.forall_mem_singleton.mpr ⟨⟨key, hkey⟩, hskip⟩)
    · cases hs
    · cases hs
  · cases hs
  · cases hs

end Reader

/-! ## Records -/

namespace Record

variable {σ : Type} {R : Record σ}

theorem skip_of_readMembers (hfields : ∀ f ∈ R.fields, f.Holds @Skips) {depth : Nat}
    {seen : List String} {acc : σ} {members : List (Outline × Outline)} {result : List String × σ}
    (h : R.readMembers depth seen acc members = .ok result) :
    ∀ m ∈ members, (∃ key, m.1.key = .ok key) ∧ m.2.skip = .ok () := by
  induction members generalizing seen acc with
  | nil => exact nofun
  | cons m rest ih =>
    obtain ⟨k, v⟩ := m
    obtain ⟨key, hkey, -⟩ := bind_eq_ok_iff.mp h
    cases hf : R.field? key with
    | none =>
      rw [readMembers_unknown hkey hf] at h
      obtain ⟨_, hv, h⟩ := bind_eq_ok_iff.mp h
      exact List.forall_mem_cons.mpr ⟨⟨⟨key, hkey⟩, hv⟩, ih h⟩
    | some f =>
      rw [readMembers_known hkey hf] at h
      split at h
      · cases h
      · obtain ⟨put, hput, h⟩ := bind_eq_ok_iff.mp h
        obtain ⟨α, r, p, hreads, hr⟩ := hfields f (List.mem_of_find?_eq_some hf)
        rw [hreads.fromText] at hput
        obtain ⟨a, ha, -⟩ := map_eq_ok_iff.mp hput
        exact List.forall_mem_cons.mpr ⟨⟨⟨key, hkey⟩, hr depth v a ha⟩, ih h⟩

theorem skip_of_readItems {depth : Nat} {stop : Stop} {index : Nat} {fs : List (Slot σ)}
    (hfields : ∀ f ∈ fs, f.Holds @Skips) {acc s : σ} {items : List Outline}
    (h : R.readItems depth stop index fs acc items = .ok s) :
    stop = .closed ∧ ∀ o ∈ items, o.skip = .ok () := by
  induction items generalizing index fs acc with
  | nil =>
    cases fs with
    | nil =>
      obtain ⟨_, hstop, -⟩ := bind_eq_ok_iff.mp h
      exact ⟨Stop.closed_of_afterLast hstop, nofun⟩
    | cons f fs =>
      obtain ⟨_, hstop, -⟩ := bind_eq_ok_iff.mp h
      exact ⟨Stop.closed_of_inList hstop, nofun⟩
  | cons o rest ih =>
    cases fs with
    | nil => cases h
    | cons f fs =>
      obtain ⟨put, hput, h⟩ := bind_eq_ok_iff.mp h
      rw [List.forall_mem_cons] at hfields
      obtain ⟨α, r, p, hreads, hr⟩ := hfields.1
      rw [hreads.fromText] at hput
      obtain ⟨a, ha, -⟩ := map_eq_ok_iff.mp hput
      obtain ⟨hstop, hrest⟩ := ih hfields.2 h
      exact ⟨hstop, List.forall_mem_cons.mpr ⟨hr depth o a ha, hrest⟩⟩

theorem skips_reader (hfields : ∀ f ∈ R.fields, f.Holds @Skips) : R.reader.Skips := by
  intro depth o s h
  simp only [reader] at h
  split at h
  · cases h
  · cases h
  · obtain ⟨hstop, hitems⟩ := skip_of_readItems hfields h
    rw [hstop]
    exact Outline.skip_list hitems
  · obtain ⟨result, hmembers, h⟩ := bind_eq_ok_iff.mp h
    obtain ⟨_, hstop, -⟩ := bind_eq_ok_iff.mp h
    rw [Stop.closed_of_inObject hstop]
    exact Outline.skip_object (skip_of_readMembers hfields hmembers)
  · cases h

end Record

/-! ## Design files -/

theorem Reader.closed_skips : Reader.Closed @Reader.Skips where
  text := skips_text
  flag := skips_flag
  double := skips_double
  keyword := skips_keyword
  refuse := skips_refuse
  optional := skips_optional
  list := skips_list
  record hfields := Record.skips_reader hfields

theorem Response.skips_reader : record.reader.Skips := by
  have hentries := skips_keyed "a map of node id to node entry or null"
    (skips_optional closed_skips.nodeEntry)
  refine Record.skips_reader ?_
  simp only [record, List.forall_mem_cons, List.not_mem_nil, false_implies, implies_true, and_true]
  exact ⟨Closed.holds_optional skips_text .., Closed.holds_optional skips_text ..,
    Closed.holds_optional (skips_optional skips_text) ..,
    Closed.holds_optional (skips_optional (closed_skips.readerTo depthLimit)) ..,
    Closed.holds_optional (skips_optional hentries) ..⟩

end DesignBrief
