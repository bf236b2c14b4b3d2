import DesignBrief.Json.Value
import Mathlib.Data.List.Nodup

/-!
Records of which not every field is there. A field is found under its key if it is there,
`Json.member?_present`, so that records of the same fields are the same only if every field is,
`Json.eq_of_present_eq`.
-/

namespace DesignBrief.Json

/-- If no key comes twice, the member under a key is the one that was listed for it, if it is
there. -/
theorem member?_present {members : List (String × Option Json)}
    (hnd : (members.map (·.1)).Nodup) (key : String) :
    (present members).member? key = (members.lookup key).join := by
  rw [present, member?]
  induction members with
  | nil => rfl
  | cons m rest ih =>
    obtain ⟨k, v⟩ := m
    rw [List.map_cons, List.nodup_cons] at hnd
    have hk : k ∉ rest.map (·.1) := hnd.1
    have hrest := ih hnd.2
    cases v with
    | some v =>
      have hcons : ((k, some v) :: rest).filterMap (fun m => m.2.map (m.1, ·)) =
          (k, v) :: rest.filterMap fun m => m.2.map (m.1, ·) := rfl
      rw [hcons, lookup_cons_if, lookup_cons_if, hrest]
      split <;> rfl
    | none =>
      have hskip : ((k, none) :: rest).filterMap (fun m => m.2.map (m.1, ·)) =
          rest.filterMap fun m : String × Option Json => m.2.map (m.1, ·) := rfl
      rw [hskip, lookup_cons_if, hrest]
      split
      · rename_i hkey
        have hnone : rest.lookup k = none := by
          rw [List.lookup_eq_none_iff]
          rintro m hm
          refine bne_iff_ne.mpr fun h => hk ?_
          rw [h]
          exact List.mem_map_of_mem hm
        rw [hkey, hnone]
        rfl
      · rfl

/-- Records of the same fields are the same only if every field is. -/
theorem eq_of_present_eq {ms ns : List (String × Option Json)} (h : present ms = present ns)
    (hkeys : ms.map (·.1) = ns.map (·.1)) (hnd : (ms.map (·.1)).Nodup) : ms = ns := by
  have hfound : ∀ key ∈ ms.map (·.1), (ms.lookup key).join = (ns.lookup key).join := by
    intro key _
    rw [← member?_present hnd, ← member?_present (hkeys ▸ hnd), h]
  clear h
  induction ms generalizing ns with
  | nil => rw [List.map_eq_nil_iff.mp hkeys.symm]
  | cons m ms ih =>
    cases ns with
    | nil => cases hkeys
    | cons n ns =>
      obtain ⟨k, a⟩ := m
      obtain ⟨l, b⟩ := n
      obtain ⟨hkl, hrest⟩ := List.cons.inj hkeys
      obtain ⟨hk, hnd⟩ := List.nodup_cons.mp hnd
      change k = l at hkl
      subst hkl
      have hab : a = b := by
        have hhead := hfound k List.mem_cons_self
        rwa [lookup_cons_if, lookup_cons_if, if_pos rfl, if_pos rfl] at hhead
      have htail : ∀ key ∈ ms.map (·.1), (ms.lookup key).join = (ns.lookup key).join := by
        intro key hkey
        have hne : key ≠ k := fun e => hk (e ▸ hkey)
        have hlater := hfound key (List.mem_cons_of_mem _ hkey)
        rwa [lookup_cons_if, lookup_cons_if, if_neg hne, if_neg hne] at hlater
      rw [hab, ih hrest hnd htail]

end DesignBrief.Json
