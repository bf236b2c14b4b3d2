import DesignBrief.Table.Basic
import Std.Data.String.ToNat
import Mathlib.Data.List.Nodup

/-!
Finding things in a table of styles: an entry by what its style says, a style by its id. The
written forms of ids are as good as the ids themselves, `StyleId.text_injective`.
-/

namespace DesignBrief

/-! ## Written ids -/

theorem Category.underscore_not_mem_label (k : Category) : '_' ∉ k.label.toList := by
  cases k <;> decide

theorem Category.label_injective {j k : Category} (h : j.label = k.label) : j = k := by
  cases j <;> cases k <;> first | rfl | exact absurd h (by decide)

theorem StyleId.toList_text (id : StyleId) :
    id.text.toList = id.category.label.toList ++ '_' :: (toString id.number.toNat).toList := by
  simp [StyleId.text]

/-- No two ids are written alike: the underscore ends the label, and the rest is the number. -/
theorem StyleId.text_injective {i j : StyleId} (h : i.text = j.text) : i = j := by
  have hl : i.text.toList = j.text.toList := congrArg String.toList h
  rw [toList_text, toList_text] at hl
  have hcut (k : Category) (ds : List Char) :
      (k.label.toList ++ '_' :: ds).takeWhile (· ≠ '_') = k.label.toList := by
    rw [List.takeWhile_append_of_pos]
    · simp
    · intro c hc
      have hne : c ≠ '_' := fun e => k.underscore_not_mem_label (e ▸ hc)
      simpa using hne
  have hlabel := congrArg (List.takeWhile (· ≠ '_')) hl
  rw [hcut, hcut] at hlabel
  have hcat : i.category = j.category := Category.label_injective (String.toList_injective hlabel)
  rw [hcat] at hl
  have hdigits := List.cons.inj (List.append_cancel_left hl)
  have hnum : i.number.toNat = j.number.toNat :=
    Nat.repr_injective (String.toList_injective hdigits.2)
  cases i
  cases j
  simp_all [UInt32.toNat_inj]

/-! ## Entries by what they say -/

/-- What styles are compared by: their category and their canonical text. -/
def StyleValue.key (v : StyleValue) : Category × String := (v.category, v.canonical)

theorem StyleValue.key_eq_iff {v w : StyleValue} :
    v.key = w.key ↔ v.category = w.category ∧ v.canonical = w.canonical := by
  simp [key]

namespace StyleTable

def toList (t : StyleTable) : List (StyleId × StyleValue) := t.entries.toList

@[simp] theorem toList_push (t : StyleTable) (id : StyleId) (v : StyleValue) :
    (t.push id v).toList = t.toList ++ [(id, v)] := by
  simp [toList, push]

@[simp] theorem toList_empty : ({} : StyleTable).toList = [] := rfl

theorem ids_eq_map (t : StyleTable) : t.ids = t.toList.map (·.1) := rfl

theorem size_eq_length (t : StyleTable) : t.size = t.toList.length := by
  simp [size, toList]

/-- The first entry that says the same as a style. -/
def entryOf? (t : StyleTable) (v : StyleValue) : Option (StyleId × StyleValue) :=
  t.toList.find? fun e => e.2.key = v.key

theorem entryOf?_push (t : StyleTable) (id : StyleId) (v w : StyleValue) :
    (t.push id v).entryOf? w =
      (t.entryOf? w).or (if v.key = w.key then some (id, v) else none) := by
  rw [entryOf?, toList_push, List.find?_append, entryOf?]
  by_cases h : v.key = w.key <;> simp [h]

theorem mem_of_entryOf? {t : StyleTable} {v : StyleValue} {e : StyleId × StyleValue}
    (h : t.entryOf? v = some e) : e ∈ t.toList :=
  List.mem_of_find?_eq_some h

theorem key_of_entryOf? {t : StyleTable} {v : StyleValue} {e : StyleId × StyleValue}
    (h : t.entryOf? v = some e) : e.2.key = v.key := by
  simpa using List.find?_some h

theorem entryOf?_eq_none_iff {t : StyleTable} {v : StyleValue} :
    t.entryOf? v = none ↔ v.key ∉ t.toList.map (·.2.key) := by
  simp [entryOf?]

theorem entryOf?_congr (t : StyleTable) {v w : StyleValue} (h : v.key = w.key) :
    t.entryOf? v = t.entryOf? w := by
  rw [entryOf?, entryOf?, h]

/-! ## Styles by their ids -/

theorem get?_eq_find (t : StyleTable) (id : StyleId) :
    t.get? id = (t.toList.find? fun e => e.1 = id).map (·.2) := by
  rw [get?, toList, Array.find?_toList]

/-- If no id comes twice, each leads to the style it was given to. -/
theorem get?_of_mem {t : StyleTable} (hn : t.ids.Nodup) {e : StyleId × StyleValue}
    (he : e ∈ t.toList) : t.get? e.1 = some e.2 := by
  rw [get?_eq_find]
  cases hf : t.toList.find? (fun d => d.1 = e.1) with
  | none =>
    have hne := List.find?_eq_none.mp hf e he
    simp at hne
  | some d =>
    have hd : d ∈ t.toList := List.mem_of_find?_eq_some hf
    have hid : d.1 = e.1 := by simpa using List.find?_some hf
    have hde : d = e := List.inj_on_of_nodup_map hn hd he hid
    rw [hde, Option.map_some]

end StyleTable
end DesignBrief
