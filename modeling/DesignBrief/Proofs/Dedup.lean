import DesignBrief.Proofs.LinearStore
import Mathlib

/-!
What a table of styles looks like after any list of calls from the empty store on: no two styles
say the same, and the ids of a category are numbered from 1 in the order in which they were given
out. So a store does what one would do by hand over a bare list of entries,
`StyleStore.resolveAll_eq_scan`, and as long as no counter runs over, equal ids are the same as
equal styles, and an id leads to its style for good.
-/

namespace DesignBrief

/-! ## Numbered ids -/

/-- The first ids of a category. -/
def StyleId.upTo (k : Category) (n : Nat) : List StyleId :=
  (List.range n).map fun i => ⟨k, UInt32.ofNat (i + 1)⟩

theorem StyleId.upTo_succ (k : Category) (n : Nat) :
    upTo k (n + 1) = upTo k n ++ [⟨k, UInt32.ofNat (n + 1)⟩] := by
  simp [upTo, List.range_succ]

theorem StyleId.category_of_mem_upTo {k : Category} {n : Nat} {id : StyleId}
    (h : id ∈ upTo k n) : id.category = k := by
  obtain ⟨i, _, rfl⟩ := List.mem_map.mp h
  rfl

theorem StyleId.toNat_ofNat_succ {n i : Nat} (hn : n < 2 ^ 32) (hi : i < n) :
    (UInt32.ofNat (i + 1)).toNat = i + 1 := by
  rw [UInt32.toNat_ofNat']
  exact Nat.mod_eq_of_lt (by omega)

theorem StyleId.nodup_upTo (k : Category) {n : Nat} (hn : n < 2 ^ 32) : (upTo k n).Nodup := by
  refine List.Nodup.map_on ?_ List.nodup_range
  intro i hi j hj hij
  have hnum : UInt32.ofNat (i + 1) = UInt32.ofNat (j + 1) := congrArg StyleId.number hij
  have hnat := congrArg UInt32.toNat hnum
  rw [toNat_ofNat_succ hn (List.mem_range.mp hi), toNat_ofNat_succ hn (List.mem_range.mp hj)]
    at hnat
  omega

theorem StyleId.map_text_upTo (k : Category) {n : Nat} (hn : n < 2 ^ 32) :
    (upTo k n).map text = (List.range n).map fun i => k.label ++ "_" ++ toString (i + 1) := by
  rw [upTo, List.map_map]
  refine List.map_congr_left fun i hi => ?_
  have hnum := toNat_ofNat_succ hn (List.mem_range.mp hi)
  simp only [Function.comp_apply, text, hnum]

/-! ## Tables without gaps and repetitions -/

namespace StyleTable

def ofCategory (t : StyleTable) (k : Category) : List (StyleId × StyleValue) :=
  t.toList.filter fun e => e.2.category = k

def count (t : StyleTable) (k : Category) : Nat := (t.ofCategory k).length

theorem category_of_mem_ofCategory {t : StyleTable} {k : Category} {e : StyleId × StyleValue}
    (h : e ∈ t.ofCategory k) : e.2.category = k := by
  simpa using (List.mem_filter.mp h).2

theorem ofCategory_push_self (t : StyleTable) (id : StyleId) (v : StyleValue) :
    (t.push id v).ofCategory v.category = t.ofCategory v.category ++ [(id, v)] := by
  simp [ofCategory]

theorem ofCategory_push_of_ne (t : StyleTable) (id : StyleId) {v : StyleValue} {k : Category}
    (h : v.category ≠ k) : (t.push id v).ofCategory k = t.ofCategory k := by
  simp [ofCategory, h]

theorem count_push_self (t : StyleTable) (id : StyleId) (v : StyleValue) :
    (t.push id v).count v.category = t.count v.category + 1 := by
  simp [count, ofCategory_push_self]

theorem count_push_of_ne (t : StyleTable) (id : StyleId) {v : StyleValue} {k : Category}
    (h : v.category ≠ k) : (t.push id v).count k = t.count k := by
  rw [count, count, ofCategory_push_of_ne t id h]

/-- No two styles say the same, and the ids of each category are its first ones, in order. -/
structure Tidy (t : StyleTable) : Prop where
  numbered : ∀ k, (t.ofCategory k).map (·.1) = StyleId.upTo k (t.count k)
  distinct : (t.toList.map (·.2.key)).Nodup

theorem tidy_empty : Tidy {} := ⟨fun _ => rfl, List.nodup_nil⟩

theorem Tidy.push {t : StyleTable} (h : t.Tidy) {v : StyleValue} (hv : t.entryOf? v = none) :
    (t.push ⟨v.category, UInt32.ofNat (t.count v.category + 1)⟩ v).Tidy := by
  constructor
  · intro k
    by_cases hk : v.category = k
    · subst hk
      rw [count_push_self, ofCategory_push_self, List.map_append, h.numbered, StyleId.upTo_succ]
      rfl
    · rw [count_push_of_ne t _ hk, ofCategory_push_of_ne t _ hk]
      exact h.numbered k
  · rw [toList_push, List.map_append]
    refine h.distinct.append (List.nodup_singleton _) ?_
    rw [List.map_singleton, List.disjoint_singleton]
    exact entryOf?_eq_none_iff.mp hv

theorem Tidy.category_eq {t : StyleTable} (h : t.Tidy) {e : StyleId × StyleValue}
    (he : e ∈ t.toList) : e.1.category = e.2.category := by
  have hmem : e.1 ∈ (t.ofCategory e.2.category).map (·.1) :=
    List.mem_map_of_mem (List.mem_filter.mpr ⟨he, by simp⟩)
  rw [h.numbered] at hmem
  exact StyleId.category_of_mem_upTo hmem

/-- An id comes up as often as it does among those of its own category, which are numbered. -/
theorem Tidy.nodup_ids {t : StyleTable} (h : t.Tidy) (hb : ∀ k, t.count k < 2 ^ 32) :
    t.ids.Nodup := by
  rw [List.nodup_iff_count_le_one]
  intro id
  have hcat : (t.ids.filter fun j => j.category = id.category) =
      StyleId.upTo id.category (t.count id.category) := by
    rw [← h.numbered, ids_eq_map, List.filter_map, ofCategory]
    congr 1
    refine List.filter_congr fun e he => ?_
    simp [h.category_eq he]
  have hcount : t.ids.count id = (StyleId.upTo id.category (t.count id.category)).count id := by
    rw [← hcat, List.count_filter (by simp)]
  rw [hcount]
  exact List.nodup_iff_count_le_one.mp (StyleId.nodup_upTo _ (hb _)) id

end StyleTable

/-! ## Runs of the linear store -/

namespace LinearStore

/-- The table is tidy, and the counters tell how many ids were given out. -/
structure Tidy (store : LinearStore) : Prop where
  table : store.table.Tidy
  counted : ∀ k, store.counters.get k = UInt32.ofNat (store.table.count k)

theorem tidy_empty : Tidy {} := ⟨StyleTable.tidy_empty, fun k => by cases k <;> rfl⟩

theorem Tidy.nextId_eq {store : LinearStore} (h : store.Tidy) (k : Category) :
    store.counters.nextId k = ⟨k, UInt32.ofNat (store.table.count k + 1)⟩ := by
  rw [Counters.nextId, h.counted, UInt32.ofNat_add]
  rfl

theorem Tidy.resolve {store : LinearStore} (h : store.Tidy) (v : StyleValue) :
    (store.resolve v).2.Tidy := by
  cases hv : store.table.entryOf? v with
  | some e =>
    rw [resolve_of_some hv]
    exact h
  | none =>
    rw [resolve_of_none hv, h.nextId_eq]
    refine ⟨h.table.push hv, fun k => ?_⟩
    by_cases hk : v.category = k
    · subst hk
      rw [Counters.get_bump_self, h.counted, StyleTable.count_push_self, UInt32.ofNat_add]
      rfl
    · rw [Counters.get_bump_of_ne _ hk, h.counted, StyleTable.count_push_of_ne _ _ hk]

theorem tidy_resolveAll (vs : List StyleValue) : (resolveAll vs {}).2.Tidy :=
  Calls.run_preserves (P := Tidy) (fun v _ hs => hs.resolve v) vs {} tidy_empty

/-! ### A bare list of entries -/

/-- The id of the first entry of the same category with the same text or, if there is none, one more
than there are entries of the category; then the style is written behind all others. -/
def scan (v : StyleValue) (entries : List (StyleId × StyleValue)) :
    StyleId × List (StyleId × StyleValue) :=
  match entries.find? fun e => e.2.category = v.category ∧ e.2.canonical = v.canonical with
  | some e => (e.1, entries)
  | none =>
    let sooner := entries.filter fun e => e.2.category = v.category
    let id : StyleId := ⟨v.category, UInt32.ofNat (sooner.length + 1)⟩
    (id, entries ++ [(id, v)])

theorem Tidy.scan_eq {store : LinearStore} (h : store.Tidy) (v : StyleValue) :
    scan v store.table.toList = ((store.resolve v).1, (store.resolve v).2.table.toList) := by
  have hfind : (store.table.toList.find? fun e =>
      e.2.category = v.category ∧ e.2.canonical = v.canonical) = store.table.entryOf? v := by
    simp only [StyleTable.entryOf?, StyleValue.key_eq_iff]
  rw [scan, hfind]
  cases hv : store.table.entryOf? v with
  | some e => rw [resolve_of_some hv]
  | none =>
    rw [resolve_of_none hv, h.nextId_eq, StyleTable.toList_push]
    rfl

theorem run_scan (vs : List StyleValue) :
    Calls.run scan vs [] = ((resolveAll vs {}).1, (resolveAll vs {}).2.table.toList) :=
  Calls.run_simulates (P := Tidy) (fun store => store.table.toList) (fun v _ hs => hs.resolve v)
    (fun v _ hs => hs.scan_eq v) vs {} tidy_empty

/-! ### Entries stay -/

theorem prefix_resolve (v : StyleValue) (store : LinearStore) :
    store.table.toList <+: (store.resolve v).2.table.toList := by
  cases hv : store.table.entryOf? v with
  | some e => rw [resolve_of_some hv]
  | none =>
    rw [resolve_of_none hv, StyleTable.toList_push]
    exact List.prefix_append _ _

theorem prefix_resolveAll (vs : List StyleValue) (store : LinearStore) :
    store.table.toList <+: (resolveAll vs store).2.table.toList :=
  Calls.run_preserves (P := fun s => store.table.toList <+: s.table.toList)
    (fun v s hs => hs.trans (prefix_resolve v s)) vs store (List.prefix_refl _)

theorem entryOf?_resolveAll_of_some {w : StyleValue} {e : StyleId × StyleValue}
    {store : LinearStore} (h : store.table.entryOf? w = some e) (vs : List StyleValue) :
    (resolveAll vs store).2.table.entryOf? w = some e := by
  obtain ⟨more, hmore⟩ := prefix_resolveAll vs store
  rw [StyleTable.entryOf?, ← hmore, List.find?_append]
  rw [StyleTable.entryOf?] at h
  rw [h, Option.some_or]

/-- After a call the style is found under the id that the call gave. -/
theorem entryOf?_resolve (v : StyleValue) (store : LinearStore) :
    ∃ w, (store.resolve v).2.table.entryOf? v = some ((store.resolve v).1, w) := by
  cases hv : store.table.entryOf? v with
  | some e =>
    rw [resolve_of_some hv]
    exact ⟨e.2, hv⟩
  | none =>
    rw [resolve_of_none hv]
    refine ⟨v, ?_⟩
    rw [StyleTable.entryOf?_push, hv, if_pos rfl, Option.none_or]

/-- The ids of a run are those under which the table has the styles at its end. -/
theorem map_some_resolveAll (vs : List StyleValue) (store : LinearStore) :
    (resolveAll vs store).1.map some =
      vs.map fun v => ((resolveAll vs store).2.table.entryOf? v).map (·.1) := by
  induction vs generalizing store with
  | nil => rfl
  | cons v vs ih =>
    obtain ⟨w, hw⟩ := entryOf?_resolve v store
    have hlast := entryOf?_resolveAll_of_some hw vs
    have htail := ih (store.resolve v).2
    simp only [resolveAll, Calls.run_cons, List.map_cons] at hlast htail ⊢
    rw [hlast, htail]
    rfl

/-! ### How many styles a run leaves -/

theorem keys_resolve_subset (v : StyleValue) (store : LinearStore) :
    (store.resolve v).2.table.toList.map (·.2.key) ⊆
      v.key :: store.table.toList.map (·.2.key) := by
  cases hv : store.table.entryOf? v with
  | some e =>
    rw [resolve_of_some hv]
    exact List.subset_cons_self _ _
  | none =>
    rw [resolve_of_none hv, StyleTable.toList_push, List.map_append]
    intro key hkey
    simp only [List.map_singleton, List.mem_append, List.mem_singleton] at hkey
    rcases hkey with hold | hnew
    · exact List.mem_cons_of_mem _ hold
    · exact hnew ▸ List.mem_cons_self

theorem keys_resolveAll_subset (vs : List StyleValue) (store : LinearStore) :
    (resolveAll vs store).2.table.toList.map (·.2.key) ⊆
      vs.map StyleValue.key ++ store.table.toList.map (·.2.key) := by
  induction vs generalizing store with
  | nil => exact List.Subset.refl _
  | cons v vs ih =>
    intro key hkey
    rw [resolveAll, Calls.run_cons] at hkey
    rcases List.mem_append.mp (ih (store.resolve v).2 hkey) with hlater | hsooner
    · exact List.mem_append_left _ (List.mem_cons_of_mem _ hlater)
    · rcases List.mem_cons.mp (keys_resolve_subset v store hsooner) with hnow | hold
      · exact List.mem_append_left _ (hnow ▸ List.mem_cons_self)
      · exact List.mem_append_right _ hold

end LinearStore

/-- The different texts of the styles of a category in a list. -/
def StyleValue.textsIn (k : Category) (vs : List StyleValue) : List String :=
  ((vs.filter fun v => v.category = k).map canonical).dedup

theorem StyleValue.length_textsIn_le (k : Category) (vs : List StyleValue) :
    (textsIn k vs).length ≤ vs.countP fun v => v.category = k := by
  refine (List.dedup_sublist _).length_le.trans ?_
  rw [List.length_map, List.countP_eq_length_filter]

/-- A run leaves no more styles of a category than there were different ones. -/
theorem LinearStore.count_resolveAll_le (vs : List StyleValue) (k : Category) :
    (resolveAll vs {}).2.table.count k ≤ (StyleValue.textsIn k vs).length := by
  have htidy := (tidy_resolveAll vs).table
  have hkeys := keys_resolveAll_subset vs {}
  generalize (resolveAll vs {}).2.table = t at htidy hkeys
  have hdistinct : ((t.ofCategory k).map (·.2.canonical)).Nodup := by
    have hnd : ((t.ofCategory k).map (·.2.key)).Nodup :=
      htidy.distinct.sublist (List.filter_sublist.map _)
    refine List.Nodup.map_on ?_ (List.Nodup.of_map _ hnd)
    intro d hd e he hde
    have hcat : d.2.category = e.2.category := by
      rw [StyleTable.category_of_mem_ofCategory hd, StyleTable.category_of_mem_ofCategory he]
    exact List.inj_on_of_nodup_map hnd hd he (StyleValue.key_eq_iff.mpr ⟨hcat, hde⟩)
  have hsub : (t.ofCategory k).map (·.2.canonical) ⊆ StyleValue.textsIn k vs := by
    intro text htext
    obtain ⟨e, he, rfl⟩ := List.mem_map.mp htext
    obtain ⟨hmem, hk⟩ := List.mem_filter.mp he
    have hkey := hkeys (List.mem_map_of_mem hmem)
    simp only [StyleTable.toList_empty, List.map_nil, List.append_nil, List.mem_map] at hkey
    obtain ⟨v, hv, hvk⟩ := hkey
    obtain ⟨hcat, htext⟩ := StyleValue.key_eq_iff.mp hvk
    rw [StyleValue.textsIn, List.mem_dedup]
    refine List.mem_map.mpr ⟨v, List.mem_filter.mpr ⟨hv, ?_⟩, htext⟩
    rw [hcat]
    exact hk
  have hle := (List.subperm_of_subset hdistinct hsub).length_le
  rwa [List.length_map] at hle

/-! ## Runs of the indexed store -/

namespace StyleStore

/-- The store after a list of calls. -/
def after (hash : TextHash) (vs : List StyleValue) : StyleStore := (resolveAll hash vs {}).2

theorem indexed_after (hash : TextHash) (vs : List StyleValue) : (after hash vs).Indexed hash :=
  indexed_resolveAll (indexed_empty hash) vs

theorem linear_after (hash : TextHash) (vs : List StyleValue) :
    LinearStore.resolveAll vs {} = ((resolveAll hash vs {}).1, (after hash vs).linear) :=
  linear_resolveAll (indexed_empty hash) vs

/-- From the empty store on, any hash gives the ids and the entries that come of scanning a list. -/
theorem resolveAll_eq_scan (hash : TextHash) (vs : List StyleValue) :
    (resolveAll hash vs {}).1 = (Calls.run LinearStore.scan vs []).1 ∧
      (resolveAll hash vs {}).2.table.toList = (Calls.run LinearStore.scan vs []).2 := by
  rw [LinearStore.run_scan, linear_after hash]
  exact ⟨rfl, rfl⟩

-- Also if the hash tells nothing apart, ids are counted in each category for itself.
example :
    (resolveAll (fun _ => 0) [.fills [], .layout {}, .fills [.plain .solid], .fills []] {}).1 =
      [⟨.fill, 1⟩, ⟨.layout, 1⟩, ⟨.fill, 2⟩, ⟨.fill, 1⟩] := by cbv

theorem tidy_after (hash : TextHash) (vs : List StyleValue) : (after hash vs).table.Tidy := by
  have h := (LinearStore.tidy_resolveAll vs).table
  rwa [linear_after hash] at h

theorem count_after_le (hash : TextHash) (vs : List StyleValue) (k : Category) :
    (after hash vs).table.count k ≤ (StyleValue.textsIn k vs).length := by
  have h := LinearStore.count_resolveAll_le vs k
  rwa [linear_after hash] at h

theorem map_some_resolveAll (hash : TextHash) (vs : List StyleValue) :
    (resolveAll hash vs {}).1.map some =
      vs.map fun v => ((after hash vs).table.entryOf? v).map (·.1) := by
  have h := LinearStore.map_some_resolveAll vs {}
  rwa [linear_after hash] at h

theorem after_append (hash : TextHash) (sooner later : List StyleValue) :
    after hash (sooner ++ later) = (resolveAll hash later (after hash sooner)).2 := by
  rw [after, resolveAll, Calls.run_append]
  rfl

theorem after_concat (hash : TextHash) (sooner : List StyleValue) (v : StyleValue) :
    after hash (sooner ++ [v]) = (resolve hash v (after hash sooner)).2 := by
  rw [after_append, resolveAll, Calls.run_cons, Calls.run_nil]

theorem prefix_after (hash : TextHash) (sooner later : List StyleValue) :
    (after hash sooner).table.toList <+: (after hash (sooner ++ later)).table.toList := by
  have h := LinearStore.prefix_resolveAll later (after hash sooner).linear
  rw [linear_resolveAll (indexed_after hash sooner)] at h
  rwa [after_append]

/-- A call puts nothing in the table but its own style. -/
theorem forall_resolve {P : StyleValue → Prop} {hash : TextHash} {store : StyleStore}
    {v : StyleValue} (hv : P v) (h : ∀ e ∈ store.table.toList, P e.2) :
    ∀ e ∈ (store.resolve hash v).2.table.toList, P e.2 := by
  rw [resolve]
  split
  · exact h
  · rw [table_insert, StyleTable.toList_push, List.forall_mem_append, List.forall_mem_singleton]
    exact ⟨h, hv⟩

theorem forall_after {P : StyleValue → Prop} {hash : TextHash} {vs : List StyleValue}
    (h : ∀ v ∈ vs, P v) : ∀ e ∈ (after hash vs).table.toList, P e.2 := by
  induction vs using List.reverseRecOn with
  | nil => exact List.forall_mem_nil _
  | append_singleton vs v ih =>
    obtain ⟨hsooner, hv⟩ := List.forall_mem_append.mp h
    rw [after_concat]
    exact forall_resolve (hv v List.mem_cons_self) (ih hsooner)

/-- A run over styles of which no two say the same puts all of them in the table, in order. -/
theorem map_snd_after (hash : TextHash) {vs : List StyleValue}
    (h : (vs.map StyleValue.key).Nodup) : (after hash vs).table.toList.map (·.2) = vs := by
  induction vs using List.reverseRecOn with
  | nil => rfl
  | append_singleton vs v ih =>
    rw [List.map_append, List.nodup_append_comm] at h
    obtain ⟨hv, hvs⟩ := List.nodup_cons.mp h
    have hnone : (after hash vs).linear.table.entryOf? v = none := by
      rw [← ih hvs, List.map_map] at hv
      exact StyleTable.entryOf?_eq_none_iff.mpr hv
    have hnow := LinearStore.resolve_of_none hnone
    rw [linear_resolve (indexed_after hash vs)] at hnow
    have htable := congrArg (fun r => r.2.table.toList.map (·.2)) hnow
    rw [after_concat]
    refine htable.trans ?_
    rw [StyleTable.toList_push, List.map_append]
    exact congrArg (· ++ [v]) (ih hvs)

/-- The entry under which the table has a style at the end of a run that asked for it. -/
theorem entryOf?_of_mem_zip {hash : TextHash} {vs : List StyleValue} {c : StyleValue × StyleId}
    (hc : c ∈ vs.zip (resolveAll hash vs {}).1) :
    ∃ e, (after hash vs).table.entryOf? c.1 = some e ∧ e.1 = c.2 := by
  obtain ⟨v, id⟩ := c
  obtain ⟨i, hi⟩ := List.mem_iff_getElem?.mp hc
  obtain ⟨hv, hid⟩ := List.getElem?_zip_eq_some.mp hi
  have hrun := congrArg (·[i]?) (map_some_resolveAll hash vs)
  simp only [List.getElem?_map, hv, hid, Option.map_some, Option.some.injEq] at hrun
  exact Option.map_eq_some_iff.mp hrun.symm

theorem entryOf?_resolve {hash : TextHash} {store : StyleStore} (h : store.Indexed hash)
    (v : StyleValue) :
    ∃ w, (store.resolve hash v).2.table.entryOf? v = some ((store.resolve hash v).1, w) := by
  have hrun := LinearStore.entryOf?_resolve v store.linear
  rw [linear_resolve h] at hrun
  exact hrun

/-- The id that a call gives leads to one style from then on, and that style says the same. -/
theorem get?_after {hash : TextHash} {sooner : List StyleValue} {v : StyleValue}
    {later : List StyleValue} (hnd : (after hash (sooner ++ v :: later)).table.ids.Nodup) :
    ∃ w, w.category = v.category ∧ w.canonical = v.canonical ∧
      ∀ mid, mid <+: later →
        (after hash (sooner ++ v :: mid)).table.get? (resolve hash v (after hash sooner)).1 =
          some w := by
  obtain ⟨w, hw⟩ := entryOf?_resolve (indexed_after hash sooner) v
  have hkey := StyleValue.key_eq_iff.mp (StyleTable.key_of_entryOf? hw)
  refine ⟨w, hkey.1, hkey.2, ?_⟩
  rintro mid ⟨rest, rfl⟩
  -- the entry is there right after the call, and what is there stays
  have hnow : ((resolve hash v (after hash sooner)).1, w) ∈
      (after hash (sooner ++ [v])).table.toList := by
    rw [after_concat]
    exact StyleTable.mem_of_entryOf? hw
  have hmid := (prefix_after hash (sooner ++ [v]) mid).subset hnow
  rw [List.append_assoc, List.singleton_append] at hmid
  have hids : (after hash (sooner ++ v :: mid)).table.ids.Nodup := by
    have hpre := (prefix_after hash (sooner ++ v :: mid) rest).sublist.map (·.1)
    rw [List.append_assoc, List.cons_append] at hpre
    exact hnd.sublist hpre
  have hget := StyleTable.get?_of_mem hids hmid
  exact hget

theorem entryOf?_of_mem {hash : TextHash} {vs : List StyleValue} {v : StyleValue} (hv : v ∈ vs) :
    ∃ e, (after hash vs).table.entryOf? v = some e := by
  have hmem : ((after hash vs).table.entryOf? v).map (·.1) ∈
      (resolveAll hash vs {}).1.map some := by
    rw [map_some_resolveAll]
    exact List.mem_map_of_mem hv
  obtain ⟨id, _, hid⟩ := List.mem_map.mp hmem
  obtain ⟨e, he, _⟩ := Option.map_eq_some_iff.mp hid.symm
  exact ⟨e, he⟩

/-- What two styles that say the same have in common holds of the whole table of a run if and only
if it holds of all styles of the run. -/
theorem forall_after_iff {P : StyleValue → Prop} (hP : ∀ v w, v.key = w.key → P v → P w)
    {hash : TextHash} {vs : List StyleValue} :
    (∀ e ∈ (after hash vs).table.toList, P e.2) ↔ ∀ v ∈ vs, P v := by
  refine ⟨fun h v hv => ?_, forall_after⟩
  obtain ⟨e, he⟩ := entryOf?_of_mem hv
  exact hP e.2 v (StyleTable.key_of_entryOf? he) (h e (StyleTable.mem_of_entryOf? he))

/-- If no id comes twice, looking up the ids of a run at its end gives the styles of the entries
under which the table has the styles of the run. -/
theorem map_get?_eq_map_entryOf? {hash : TextHash} {vs : List StyleValue}
    (hnd : (after hash vs).table.ids.Nodup) :
    (resolveAll hash vs {}).1.map (after hash vs).table.get? =
      vs.map fun v => ((after hash vs).table.entryOf? v).map (·.2) := by
  have hrun := congrArg (List.map fun o => o.bind (after hash vs).table.get?)
    (map_some_resolveAll hash vs)
  rw [List.map_map, List.map_map] at hrun
  refine Eq.trans hrun (List.map_congr_left fun v hv => ?_)
  obtain ⟨e, he⟩ := entryOf?_of_mem hv
  rw [Function.comp_apply, he, Option.map_some, Option.bind_some, Option.map_some,
    StyleTable.get?_of_mem hnd (StyleTable.mem_of_entryOf? he)]

/-- These styles say what the styles of the run said. -/
theorem map_get?_resolveAll {hash : TextHash} {vs : List StyleValue}
    (hnd : (after hash vs).table.ids.Nodup) :
    (resolveAll hash vs {}).1.map (fun id => ((after hash vs).table.get? id).map StyleValue.key) =
      (vs.map StyleValue.key).map some := by
  have hget := congrArg (List.map (Option.map StyleValue.key)) (map_get?_eq_map_entryOf? hnd)
  rw [List.map_map, List.map_map] at hget
  rw [List.map_map]
  refine Eq.trans hget (List.map_congr_left fun v hv => ?_)
  obtain ⟨e, he⟩ := entryOf?_of_mem hv
  rw [Function.comp_apply, he]
  exact congrArg some (StyleTable.key_of_entryOf? he)

theorem nodup_ids_after {hash : TextHash} {vs : List StyleValue}
    (hb : ∀ k, (StyleValue.textsIn k vs).length < 2 ^ 32) :
    (after hash vs).table.ids.Nodup :=
  (tidy_after hash vs).nodup_ids fun k => Nat.lt_of_le_of_lt (count_after_le hash vs k) (hb k)

/-! ### Ids and what they are given for -/

section

variable {hash : TextHash} {vs : List StyleValue} {c d : StyleValue × StyleId}
  (hc : c ∈ vs.zip (resolveAll hash vs {}).1) (hd : d ∈ vs.zip (resolveAll hash vs {}).1)

include hc hd

/-- Styles that say the same get the same id. -/
theorem id_eq_of_key_eq (h : c.1.key = d.1.key) : c.2 = d.2 := by
  obtain ⟨e, he, hec⟩ := entryOf?_of_mem_zip hc
  obtain ⟨f, hf, hfd⟩ := entryOf?_of_mem_zip hd
  rw [StyleTable.entryOf?_congr _ h, hf] at he
  rw [← hec, ← hfd, Option.some.inj he]

/-- If no id comes twice in the table, styles that get the same id say the same. -/
theorem key_eq_of_id_eq (hnd : (after hash vs).table.ids.Nodup) (h : c.2 = d.2) :
    c.1.key = d.1.key := by
  obtain ⟨e, he, hec⟩ := entryOf?_of_mem_zip hc
  obtain ⟨f, hf, hfd⟩ := entryOf?_of_mem_zip hd
  have hef : e = f := List.inj_on_of_nodup_map hnd (StyleTable.mem_of_entryOf? he)
    (StyleTable.mem_of_entryOf? hf) (hec.trans (h.trans hfd.symm))
  rw [← StyleTable.key_of_entryOf? he, hef, StyleTable.key_of_entryOf? hf]

end

/-- What a run from the empty store on holds to: equal ids for equal styles only, ids numbered
without gap, and every id leading to its style from the moment it is given out. -/
structure Deduplicated (hash : TextHash) (vs : List StyleValue) : Prop where
  answered : (resolveAll hash vs {}).1.length = vs.length
  sameId_iff : ∀ c ∈ vs.zip (resolveAll hash vs {}).1, ∀ d ∈ vs.zip (resolveAll hash vs {}).1,
    c.2.text = d.2.text ↔ c.1.category = d.1.category ∧ c.1.canonical = d.1.canonical
  ids_distinct : ((after hash vs).table.ids.map StyleId.text).Nodup
  ids_numbered : ∀ k, ((after hash vs).table.ofCategory k).map (·.1.text) =
    (List.range ((after hash vs).table.count k)).map fun i => k.label ++ "_" ++ toString (i + 1)
  found : ∀ sooner v later, vs = sooner ++ v :: later →
    ∃ w, w.category = v.category ∧ w.canonical = v.canonical ∧
      ∀ mid, mid <+: later →
        (after hash (sooner ++ v :: mid)).table.get? (resolve hash v (after hash sooner)).1 = some w

/-- Runs that store fewer styles of each category than its counter can count are deduplicated. -/
theorem resolveAll_deduplicated (hash : TextHash) (vs : List StyleValue)
    (hb : ∀ k, (StyleValue.textsIn k vs).length < 2 ^ 32) : Deduplicated hash vs := by
  have htidy := tidy_after hash vs
  have hcount : ∀ k, (after hash vs).table.count k < 2 ^ 32 := fun k =>
    Nat.lt_of_le_of_lt (count_after_le hash vs k) (hb k)
  have hnd : (after hash vs).table.ids.Nodup := nodup_ids_after hb
  refine ⟨Calls.length_run _ _ _, ?_, ?_, ?_, ?_⟩
  · intro c hc d hd
    rw [← StyleValue.key_eq_iff]
    constructor
    · intro htext
      exact key_eq_of_id_eq hc hd hnd (StyleId.text_injective htext)
    · intro hkey
      rw [id_eq_of_key_eq hc hd hkey]
  · exact hnd.map (fun _ _ => StyleId.text_injective)
  · intro k
    rw [← StyleId.map_text_upTo k (hcount k), ← htidy.numbered, List.map_map]
    rfl
  · rintro sooner v later rfl
    exact get?_after hnd

/-- Not even a hash that sends everything to one bucket mixes up two styles. -/
theorem deduplicated_of_constant_hash :
    (∀ k, (StyleValue.textsIn k [.fills [], .layout {}, .layout { wrap := true }, .fills []]).length
      < 2 ^ 32) ∧
    Deduplicated (fun _ => 0) [.fills [], .layout {}, .layout { wrap := true }, .fills []] := by
  have hb : ∀ k, (StyleValue.textsIn k [.fills [], .layout {}, .layout { wrap := true },
      .fills []]).length < 2 ^ 32 := fun k =>
    Nat.lt_of_le_of_lt ((StyleValue.length_textsIn_le k _).trans List.countP_le_length) (by decide)
  exact ⟨hb, resolveAll_deduplicated _ _ hb⟩

end StyleStore
end DesignBrief
