import DesignBrief.Proofs.Calls
import DesignBrief.Proofs.Lookup
import DesignBrief.Table.Store
import Mathlib.Data.List.Find

/-!
A store without index, which looks through its whole table for an equal style, and the proof that
a hash index changes nothing but the way a style is found: `StyleStore.resolve` gives the same ids
and builds the same table, whatever the hash and however its values collide,
`StyleStore.linear_resolveAll`.
-/

namespace DesignBrief

/-- A table of styles and the counters for its ids. -/
structure LinearStore where
  table : StyleTable := {}
  counters : Counters := {}

namespace LinearStore

/-- The id of the first entry of the same category with the same text, or the next id of the
category, under which the style is put in. -/
def resolve (v : StyleValue) (store : LinearStore) : StyleId × LinearStore :=
  match store.table.entryOf? v with
  | some e => (e.1, store)
  | none =>
    let id := store.counters.nextId v.category
    (id, { table := store.table.push id v, counters := store.counters.bump v.category })

theorem resolve_of_some {v : StyleValue} {store : LinearStore} {e : StyleId × StyleValue}
    (h : store.table.entryOf? v = some e) : store.resolve v = (e.1, store) := by
  rw [resolve, h]

theorem resolve_of_none {v : StyleValue} {store : LinearStore}
    (h : store.table.entryOf? v = none) :
    store.resolve v =
      (store.counters.nextId v.category,
        { table := store.table.push (store.counters.nextId v.category) v
          counters := store.counters.bump v.category }) := by
  rw [resolve, h]

def resolveAll (vs : List StyleValue) : StateM LinearStore (List StyleId) := Calls.run resolve vs

end LinearStore

namespace StyleStore

/-- The ids for a list of styles, and the store that they leave behind. -/
def resolveAll (hash : TextHash) (vs : List StyleValue) : StateM StyleStore (List StyleId) :=
  Calls.run (resolve hash) vs

/-! ## The index -/

/-- Where the index keeps the place of a style. -/
def bucketOf (hash : TextHash) (v : StyleValue) : Category × UInt64 :=
  (v.category, hash v.canonical)

theorem bucketOf_eq_of_key_eq (hash : TextHash) {v w : StyleValue} (h : v.key = w.key) :
    bucketOf hash v = bucketOf hash w := by
  obtain ⟨hc, ht⟩ := StyleValue.key_eq_iff.mp h
  rw [bucketOf, bucketOf, hc, ht]

/-- The places of those entries that belong into a bucket, in ascending order. -/
def placesOf (hash : TextHash) (es : List (StyleId × StyleValue)) (key : Category × UInt64) :
    List Nat :=
  (es.zipIdx.filter fun e => bucketOf hash e.1.2 = key).map (·.2)

theorem placesOf_append (hash : TextHash) (es : List (StyleId × StyleValue)) (id : StyleId)
    (v : StyleValue) (key : Category × UInt64) :
    placesOf hash (es ++ [(id, v)]) key =
      placesOf hash es key ++ if bucketOf hash v = key then [es.length] else [] := by
  by_cases h : bucketOf hash v = key <;> simp [placesOf, List.zipIdx_append, h]

/-- The texts are those of the table, and every bucket holds the places of its entries. -/
structure Indexed (hash : TextHash) (store : StyleStore) : Prop where
  texts : store.texts.toList = store.table.toList.map (·.2.canonical)
  index : ∀ key, store.index.getD key [] = placesOf hash store.table.toList key

theorem indexed_empty (hash : TextHash) : Indexed hash {} := by
  refine ⟨rfl, fun key => ?_⟩
  exact Std.HashMap.getD_empty

theorem indexed_insert {hash : TextHash} {store : StyleStore} (h : store.Indexed hash)
    (v : StyleValue) : (store.insert hash v).2.Indexed hash := by
  constructor
  · simp [h.texts]
  · intro key
    rw [table_insert, StyleTable.toList_push, placesOf_append]
    have hindex : (store.insert hash v).2.index =
        store.index.insert (bucketOf hash v)
          (store.index.getD (bucketOf hash v) [] ++ [store.table.size]) := rfl
    rw [hindex, Std.HashMap.getD_insert, StyleTable.size_eq_length]
    by_cases hk : bucketOf hash v = key
    · subst hk
      simp [h.index]
    · simp [hk, h.index]

theorem texts_of_mem_zipIdx {hash : TextHash} {store : StyleStore} (h : store.Indexed hash)
    {e : (StyleId × StyleValue) × Nat} (he : e ∈ store.table.toList.zipIdx) :
    store.texts[e.2]? = some e.1.2.canonical := by
  have hget := List.mem_zipIdx_iff_getElem?.mp he
  rw [← Array.getElem?_toList, h.texts, List.getElem?_map, hget, Option.map_some]

/-- The index leads to the first place in the table whose style says the same. -/
theorem find?_eq_scan {hash : TextHash} {store : StyleStore} (h : store.Indexed hash)
    (v : StyleValue) :
    store.find? hash v.category v.canonical =
      (store.table.toList.zipIdx.find? fun e => e.1.2.key = v.key).map (·.2) := by
  -- in a bucket the right text is the right key, since the bucket has the right category
  have hsame : ∀ e ∈ store.table.toList.zipIdx,
      decide (decide (bucketOf hash e.1.2 = (v.category, hash v.canonical)) = true ∧
        (store.texts[e.2]? == some v.canonical) = true) = decide (e.1.2.key = v.key) := by
    intro e he
    rw [texts_of_mem_zipIdx h he, decide_eq_decide]
    simp only [decide_eq_true_eq, beq_iff_eq, Option.some.injEq]
    constructor
    · rintro ⟨hb, ht⟩
      exact StyleValue.key_eq_iff.mpr ⟨(Prod.mk.inj hb).1, ht⟩
    · intro hk
      exact ⟨bucketOf_eq_of_key_eq hash hk, (StyleValue.key_eq_iff.mp hk).2⟩
  rw [find?, h.index, placesOf, List.find?_map, List.find?_filter]
  exact congrArg _ (List.find?_congr hsame)

/-- The entry at that place is the one that a scan of the entries would have found. -/
theorem bind_find?_eq_entryOf? {hash : TextHash} {store : StyleStore} (h : store.Indexed hash)
    (v : StyleValue) :
    (store.find? hash v.category v.canonical).bind (store.table.entries[·]?) =
      store.table.entryOf? v := by
  have hscan : store.table.entryOf? v =
      (store.table.toList.zipIdx.find? fun e => e.1.2.key = v.key).map (·.1) := by
    conv_lhs => rw [StyleTable.entryOf?, ← List.zipIdx_map_fst 0 store.table.toList]
    rw [List.find?_map]
    rfl
  rw [find?_eq_scan h, hscan]
  cases hf : store.table.toList.zipIdx.find? fun e => decide (e.1.2.key = v.key) with
  | none => rfl
  | some e =>
    have hget := List.mem_zipIdx_iff_getElem?.mp (List.mem_of_find?_eq_some hf)
    simpa [StyleTable.toList] using hget

/-! ## The linear store behind an indexed one -/

/-- What is left of a store without its index. -/
def linear (store : StyleStore) : LinearStore := ⟨store.table, store.counters⟩

theorem indexed_resolve {hash : TextHash} {store : StyleStore} (h : store.Indexed hash)
    (v : StyleValue) : (store.resolve hash v).2.Indexed hash := by
  rw [resolve]
  split
  · exact h
  · exact indexed_insert h v

/-- One call gives the same id and leaves the same table as a scan. -/
theorem linear_resolve {hash : TextHash} {store : StyleStore} (h : store.Indexed hash)
    (v : StyleValue) :
    store.linear.resolve v = ((store.resolve hash v).1, (store.resolve hash v).2.linear) := by
  have hfind := bind_find?_eq_entryOf? h v
  rw [resolve, hfind]
  cases he : store.table.entryOf? v with
  | some e => exact LinearStore.resolve_of_some he
  | none => exact LinearStore.resolve_of_none he

theorem indexed_resolveAll {hash : TextHash} {store : StyleStore} (h : store.Indexed hash)
    (vs : List StyleValue) : (resolveAll hash vs store).2.Indexed hash :=
  Calls.run_preserves (P := Indexed hash) (fun v _ hs => indexed_resolve hs v) vs store h

theorem linear_resolveAll {hash : TextHash} {store : StyleStore} (h : store.Indexed hash)
    (vs : List StyleValue) :
    LinearStore.resolveAll vs store.linear =
      ((resolveAll hash vs store).1, (resolveAll hash vs store).2.linear) :=
  Calls.run_simulates (P := Indexed hash) linear (fun v _ hs => indexed_resolve hs v)
    (fun v _ hs => linear_resolve hs v) vs store h

end StyleStore
end DesignBrief
