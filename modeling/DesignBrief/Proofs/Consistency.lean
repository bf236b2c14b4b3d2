import DesignBrief.Proofs.Dedup

/-!
How the parts of a store fit together, whatever the hash. The texts stand beside the styles, every
place of the table is kept once in the index and nowhere else than under its category and the hash
of its text, and the counters count. That is all that a search through the index needs in order to
be as good as a search through the table, `StyleStore.Indexed.resolve_cases`, and it holds after
every list of calls, `StyleStore.consistent_after`.
-/

namespace DesignBrief.StyleStore

def bucket (store : StyleStore) (key : Category × UInt64) : List Nat := store.index.getD key []

def styleAt? (store : StyleStore) (i : Nat) : Option StyleValue :=
  store.table.entries[i]?.map (·.2)

theorem styleAt?_eq (store : StyleStore) (i : Nat) :
    store.styleAt? i = store.table.toList[i]?.map (·.2) := by
  rw [styleAt?, StyleTable.toList, Array.getElem?_toList]

/-! ## Places -/

theorem mem_placesOf {hash : TextHash} {es : List (StyleId × StyleValue)}
    {key : Category × UInt64} {i : Nat} :
    i ∈ placesOf hash es key ↔ ∃ e, es[i]? = some e ∧ bucketOf hash e.2 = key := by
  simp [placesOf, List.mem_zipIdx_iff_getElem?]

/-- No place is kept twice under a key. -/
theorem nodup_placesOf (hash : TextHash) (es : List (StyleId × StyleValue))
    (key : Category × UInt64) : (placesOf hash es key).Nodup := by
  have hall : (es.zipIdx.map (·.2)).Nodup := by
    rw [List.zipIdx_map_snd]
    exact List.nodup_range'
  exact hall.sublist (List.filter_sublist.map _)

theorem count_placesOf {hash : TextHash} {es : List (StyleId × StyleValue)} {i : Nat}
    {e : StyleId × StyleValue} (he : es[i]? = some e) (key : Category × UInt64) :
    (placesOf hash es key).count i = if bucketOf hash e.2 = key then 1 else 0 := by
  have hmem : i ∈ placesOf hash es key ↔ bucketOf hash e.2 = key := by
    rw [mem_placesOf, he]
    simp
  rw [(nodup_placesOf hash es key).count]
  exact if_congr hmem rfl rfl

/-! ## One call -/

/-- A call finds its style by the index, and then changes nothing, or the table does not have it,
and then it is put in. -/
theorem Indexed.resolve_cases {hash : TextHash} {store : StyleStore} (h : store.Indexed hash)
    (v : StyleValue) :
    (∃ i e, store.find? hash v.category v.canonical = some i ∧ store.table.entries[i]? = some e ∧
        e.2.key = v.key ∧ store.resolve hash v = (e.1, store)) ∨
      (store.find? hash v.category v.canonical = none ∧ store.table.entryOf? v = none ∧
        store.resolve hash v = store.insert hash v) := by
  have hentry := bind_find?_eq_entryOf? h v
  cases hfind : store.find? hash v.category v.canonical with
  | none =>
    rw [hfind, Option.bind_none] at hentry
    refine .inr ⟨rfl, hentry.symm, ?_⟩
    rw [resolve, hfind]
    rfl
  | some i =>
    have hscan := find?_eq_scan h v
    rw [hfind] at hscan
    obtain ⟨e, he, rfl⟩ := Option.map_eq_some_iff.mp hscan.symm
    have hplace : store.table.entries[e.2]? = some e.1 := by
      have hget := List.mem_zipIdx_iff_getElem?.mp (List.mem_of_find?_eq_some he)
      simpa [StyleTable.toList] using hget
    refine .inl ⟨e.2, e.1, rfl, hplace, by simpa using List.find?_some he, ?_⟩
    rw [resolve, hfind, Option.bind_some, hplace]

/-! ## All calls -/

/-- The parts of a store agree with each other. -/
structure Consistent (hash : TextHash) (store : StyleStore) : Prop where
  /-- There are as many texts as styles. -/
  sizes : store.texts.size = store.table.size
  /-- Each text is that of the style in its place. -/
  texts : ∀ i v, store.styleAt? i = some v → store.texts[i]? = some v.canonical
  /-- Each place is kept under one key, and only once. -/
  kept : ∀ i v, store.styleAt? i = some v → ∀ key,
    (store.bucket key).count i = if (v.category, hash v.canonical) = key then 1 else 0
  /-- Nothing is kept that is no place. -/
  inside : ∀ key, ∀ i ∈ store.bucket key, i < store.texts.size ∧ i < store.table.size
  /-- No two styles of a category have the same text. -/
  distinct : ∀ i j v w, store.styleAt? i = some v → store.styleAt? j = some w →
    v.category = w.category → store.texts[i]? = store.texts[j]? → i = j
  /-- Each counter counts the styles of its category as long as it can. -/
  counted : ∀ k, store.table.count k < 2 ^ 32 →
    (store.counters.get k).toNat = store.table.count k

theorem Indexed.texts_of_styleAt? {hash : TextHash} {store : StyleStore} (h : store.Indexed hash)
    {i : Nat} {v : StyleValue} (hv : store.styleAt? i = some v) :
    store.texts[i]? = some v.canonical := by
  rw [styleAt?_eq] at hv
  obtain ⟨e, he, rfl⟩ := Option.map_eq_some_iff.mp hv
  rw [← Array.getElem?_toList, h.texts, List.getElem?_map, he, Option.map_some]

theorem getElem?_keys {store : StyleStore} {i : Nat} {v : StyleValue}
    (hv : store.styleAt? i = some v) :
    (store.table.toList.map (·.2.key))[i]? = some v.key := by
  rw [styleAt?_eq] at hv
  obtain ⟨e, he, rfl⟩ := Option.map_eq_some_iff.mp hv
  rw [List.getElem?_map, he, Option.map_some]

/-- An index over a tidy table makes the store consistent. -/
theorem Indexed.consistent {hash : TextHash} {store : StyleStore} (h : store.Indexed hash)
    (htidy : store.linear.Tidy) : store.Consistent hash := by
  have hsizes : store.texts.size = store.table.size := by
    rw [← Array.length_toList, h.texts, List.length_map, StyleTable.size_eq_length]
  constructor
  case sizes => exact hsizes
  case texts => exact fun i v => h.texts_of_styleAt?
  case kept =>
    intro i v hv key
    rw [styleAt?_eq] at hv
    obtain ⟨e, he, rfl⟩ := Option.map_eq_some_iff.mp hv
    rw [bucket, h.index, count_placesOf he]
    rfl
  case inside =>
    intro key i hi
    rw [bucket, h.index, mem_placesOf] at hi
    obtain ⟨e, he, -⟩ := hi
    have hlt : i < store.table.size := by
      rw [StyleTable.size_eq_length]
      exact (List.getElem?_eq_some_iff.mp he).1
    exact ⟨hsizes ▸ hlt, hlt⟩
  case distinct =>
    intro i j v w hv hw hcategory htexts
    rw [h.texts_of_styleAt? hv, h.texts_of_styleAt? hw] at htexts
    have hkey : v.key = w.key := StyleValue.key_eq_iff.mpr ⟨hcategory, Option.some.inj htexts⟩
    have hnodup : (store.table.toList.map (·.2.key)).Nodup := htidy.table.distinct
    obtain ⟨hi, -⟩ := List.getElem?_eq_some_iff.mp (getElem?_keys hv)
    exact (List.getElem?_inj hi hnodup).mp (by rw [getElem?_keys hv, getElem?_keys hw, hkey])
  case counted =>
    intro k hk
    have hcounted : store.counters.get k = UInt32.ofNat (store.table.count k) := htidy.counted k
    rw [hcounted, UInt32.toNat_ofNat']
    exact Nat.mod_eq_of_lt hk

theorem tidy_linear_after (hash : TextHash) (vs : List StyleValue) :
    (after hash vs).linear.Tidy := by
  have h := LinearStore.tidy_resolveAll vs
  rwa [linear_after hash] at h

/-- Whatever the hash, after every list of calls the parts of the store agree with each other, and
the next call either finds its style, and leaves the store as it is, or puts it in because the table
does not have it. -/
theorem consistent_after (hash : TextHash) (vs : List StyleValue) :
    (after hash vs).Consistent hash ∧
      ∀ v, (∃ i e, (after hash vs).find? hash v.category v.canonical = some i ∧
            (after hash vs).table.entries[i]? = some e ∧ e.2.key = v.key ∧
            resolve hash v (after hash vs) = (e.1, after hash vs)) ∨
          ((after hash vs).find? hash v.category v.canonical = none ∧
            (after hash vs).table.entryOf? v = none ∧
            resolve hash v (after hash vs) = insert hash (after hash vs) v) := by
  have hindexed := indexed_after hash vs
  exact ⟨hindexed.consistent (tidy_linear_after hash vs), hindexed.resolve_cases⟩

-- Under a hash that tells nothing apart a category has all its places in one bucket.
example :
    (after (fun _ => 0) [.fills [], .layout {}, .fills [.plain .solid], .fills []]).bucket
      (.fill, 0) = [0, 2] := by cbv

end DesignBrief.StyleStore
