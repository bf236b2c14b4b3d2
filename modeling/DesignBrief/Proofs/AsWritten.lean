import DesignBrief.Proofs.Outlines
import DesignBrief.Proofs.Regular

/-!
What a text tells of the value it was written for. Values with the same text are the same but for
their numbers that are not finite, `Json.asWritten_eq_of_compact_eq`: these are all written `null`.
-/

namespace DesignBrief

mutual

/-- A value with `null` in the place of every number that is not finite. -/
def Json.asWritten : Json → Json
  | .null => .null
  | .bool b => .bool b
  | .number (.integer i) => .number (.integer i)
  | .number (.real x) => if x.isFinite then .real x else .null
  | .string s => .string s
  | .array items => .array (Json.itemsAsWritten items)
  | .object members => .object (Json.membersAsWritten members)
termination_by structural j => j

def Json.itemsAsWritten : List Json → List Json
  | [] => []
  | j :: rest => j.asWritten :: Json.itemsAsWritten rest
termination_by structural items => items

def Json.membersAsWritten : List (String × Json) → List (String × Json)
  | [] => []
  | (k, j) :: rest => (k, j.asWritten) :: Json.membersAsWritten rest
termination_by structural members => members

end

namespace Json

/-! ## What an outline can be the outline of -/

theorem asWritten_number_of_outline_null {n : Number} (h : n.outline = .word .null) :
    (number n).asWritten = null := by
  cases n with
  | integer i => cases h
  | real x =>
    refine if_neg fun hx => ?_
    rw [Number.outline, if_pos hx] at h
    cases h

theorem asWritten_of_outline_null {j : Json} (h : j.outline = .word .null) :
    j.asWritten = null := by
  cases j with
  | null => rfl
  | bool b => cases b <;> cases h
  | number n => exact asWritten_number_of_outline_null h
  | string s => cases h
  | array items => cases h
  | object members => cases h

/-- A number is scanned as a number, or as the word for what is not finite. -/
theorem outline_number_ne {n : Number} {o : Outline} (hnumber : ∀ m, o ≠ .number m)
    (hnull : o ≠ .word .null) : (number n).outline ≠ o := by
  rcases n.written_cases with ⟨-, hn⟩ | ⟨-, hn⟩
  · rw [outline, hn]
    exact (hnumber _).symm
  · rw [outline, hn]
    exact hnull.symm

theorem eq_bool_of_outline {j : Json} {b : Bool}
    (h : j.outline = (bool b).outline) : j = bool b := by
  cases j with
  | null => cases b <;> cases h
  | bool c => cases b <;> cases c <;> first | rfl | cases h
  | number n => cases b <;> exact absurd h (outline_number_ne nofun nofun)
  | string s => cases h
  | array items => cases h
  | object members => cases h

theorem eq_number_of_outline {j : Json} {m : Numeral} (h : j.outline = .number m) :
    ∃ n, j = number n ∧ n.IsFinite ∧ n.numeral = m := by
  cases j with
  | null => cases h
  | bool b => cases h
  | number n =>
    rcases n.written_cases with ⟨hfinite, hn⟩ | ⟨-, hn⟩
    · rw [outline, hn] at h
      exact ⟨n, rfl, hfinite, Outline.number.inj h⟩
    · rw [outline, hn] at h
      cases h
  | string s => cases h
  | array items => cases h
  | object members => cases h

theorem eq_string_of_outline {j : Json} {q : Quoted} (h : j.outline = .text q) :
    ∃ s, j = string s ∧ Quoted.ofString s = q := by
  cases j with
  | string s => exact ⟨s, rfl, Outline.text.inj h⟩
  | number n => exact absurd h (outline_number_ne nofun nofun)
  | _ => cases h

theorem eq_array_of_outline {j : Json} {os : List Outline} {stop : Stop}
    (h : j.outline = .list os stop) : ∃ items, j = array items ∧ outlineItems items = os := by
  cases j with
  | array items => exact ⟨items, rfl, (Outline.list.inj h).1⟩
  | number n => exact absurd h (outline_number_ne nofun nofun)
  | _ => cases h

theorem eq_object_of_outline {j : Json} {ms : List (Outline × Outline)} {stop : Stop}
    (h : j.outline = .object ms stop) :
    ∃ members, j = object members ∧ outlineMembers members = ms := by
  cases j with
  | object members => exact ⟨members, rfl, (Outline.object.inj h).1⟩
  | number n => exact absurd h (outline_number_ne nofun nofun)
  | _ => cases h

/-! ## Values with the same outline -/

mutual

/-- What a value is scanned as tells the value, but for its numbers that are not finite. -/
theorem asWritten_eq_of_outline_eq (j j' : Json) (h : j.outline = j'.outline) :
    j.asWritten = j'.asWritten := by
  match j with
  | .null => exact (asWritten_of_outline_null h.symm).symm
  | .bool b => rw [eq_bool_of_outline h.symm]
  | .number n =>
    rcases n.written_cases with ⟨hn, houtline⟩ | ⟨-, houtline⟩
    · obtain ⟨n', rfl, hn', hnumeral⟩ := eq_number_of_outline (h.symm.trans houtline)
      rw [Number.numeral_injective hn hn' hnumeral.symm]
    · rw [asWritten_number_of_outline_null houtline]
      exact (asWritten_of_outline_null (h.symm.trans houtline)).symm
  | .string s =>
    obtain ⟨t, rfl, ht⟩ := eq_string_of_outline h.symm
    rw [Quoted.ofString_injective ht]
  | .array items =>
    obtain ⟨items', rfl, hitems⟩ := eq_array_of_outline h.symm
    rw [asWritten, asWritten, itemsAsWritten_eq_of_outline_eq items items' hitems.symm]
  | .object members =>
    obtain ⟨members', rfl, hmembers⟩ := eq_object_of_outline h.symm
    rw [asWritten, asWritten, membersAsWritten_eq_of_outline_eq members members' hmembers.symm]
termination_by structural j

theorem itemsAsWritten_eq_of_outline_eq (items items' : List Json)
    (h : outlineItems items = outlineItems items') :
    itemsAsWritten items = itemsAsWritten items' := by
  match items, items' with
  | [], [] => rfl
  | [], _ :: _ => cases h
  | _ :: _, [] => cases h
  | j :: rest, j' :: rest' =>
    obtain ⟨hj, hrest⟩ := List.cons.inj h
    rw [itemsAsWritten, itemsAsWritten, asWritten_eq_of_outline_eq j j' hj,
      itemsAsWritten_eq_of_outline_eq rest rest' hrest]
termination_by structural items

theorem membersAsWritten_eq_of_outline_eq (members members' : List (String × Json))
    (h : outlineMembers members = outlineMembers members') :
    membersAsWritten members = membersAsWritten members' := by
  match members, members' with
  | [], [] => rfl
  | [], _ :: _ => cases h
  | _ :: _, [] => cases h
  | (k, j) :: rest, (k', j') :: rest' =>
    obtain ⟨hm, hrest⟩ := List.cons.inj h
    obtain ⟨hk, hj⟩ := Prod.mk.inj hm
    rw [membersAsWritten, membersAsWritten, Quoted.ofString_injective (Outline.text.inj hk),
      asWritten_eq_of_outline_eq j j' hj, membersAsWritten_eq_of_outline_eq rest rest' hrest]
termination_by structural members

end

/-- Values with the same text are the same but for their numbers that are not finite. -/
theorem asWritten_eq_of_compact_eq {j j' : Json} (h : j.compact = j'.compact) :
    j.asWritten = j'.asWritten := by
  refine asWritten_eq_of_outline_eq j j' ?_
  have hscan := Outline.scan_write Spacing.isBlank_compact j
  have hscan' := Outline.scan_write Spacing.isBlank_compact j'
  rw [show write Spacing.compact 0 j = write Spacing.compact 0 j' from h, hscan'] at hscan
  exact (Prod.mk.inj hscan).1.symm

/-! ## Values that are told in full -/

mutual

/-- A value whose numbers are all finite is told in full. -/
theorem asWritten_of_isFinite (j : Json) (h : j.IsFinite) : j.asWritten = j := by
  match j with
  | .null => rfl
  | .bool b => rfl
  | .number (.integer i) => rfl
  | .number (.real x) => exact if_pos (h x List.mem_cons_self)
  | .string s => rfl
  | .array items => rw [asWritten, itemsAsWritten_of_isFinite items h]
  | .object members => rw [asWritten, membersAsWritten_of_isFinite members h]
termination_by structural j

theorem itemsAsWritten_of_isFinite (items : List Json)
    (h : ∀ x ∈ realsOfItems items, x.isFinite = true) : itemsAsWritten items = items := by
  match items with
  | [] => rfl
  | j :: rest =>
    rw [realsOfItems, List.forall_mem_append] at h
    rw [itemsAsWritten, asWritten_of_isFinite j h.1, itemsAsWritten_of_isFinite rest h.2]
termination_by structural items

theorem membersAsWritten_of_isFinite (members : List (String × Json))
    (h : ∀ x ∈ realsOfMembers members, x.isFinite = true) :
    membersAsWritten members = members := by
  match members with
  | [] => rfl
  | (k, j) :: rest =>
    rw [realsOfMembers, List.forall_mem_append] at h
    rw [membersAsWritten, asWritten_of_isFinite j h.1, membersAsWritten_of_isFinite rest h.2]
termination_by structural members

end

mutual

/-- All finite numbers are told. -/
theorem reals_asWritten (j : Json) : j.asWritten.reals = j.reals.filter (·.isFinite) := by
  match j with
  | .null => rfl
  | .bool b => rfl
  | .number (.integer i) => rfl
  | .number (.real x) =>
    rw [asWritten, reals, List.filter_singleton]
    cases x.isFinite <;> rfl
  | .string s => rfl
  | .array items => exact realsOfItems_asWritten items
  | .object members => exact realsOfMembers_asWritten members
termination_by structural j

theorem realsOfItems_asWritten (items : List Json) :
    realsOfItems (itemsAsWritten items) = (realsOfItems items).filter (·.isFinite) := by
  match items with
  | [] => rfl
  | j :: rest =>
    rw [itemsAsWritten, realsOfItems, realsOfItems, List.filter_append, reals_asWritten j,
      realsOfItems_asWritten rest]
termination_by structural items

theorem realsOfMembers_asWritten (members : List (String × Json)) :
    realsOfMembers (membersAsWritten members) = (realsOfMembers members).filter (·.isFinite) := by
  match members with
  | [] => rfl
  | (k, j) :: rest =>
    rw [membersAsWritten, realsOfMembers, realsOfMembers, List.filter_append, reals_asWritten j,
      realsOfMembers_asWritten rest]
termination_by structural members

end

/-- Values whose numbers are all finite are the same if their texts are. -/
theorem eq_of_compact_eq {j j' : Json} (hj : j.IsFinite) (hj' : j'.IsFinite)
    (h : j.compact = j'.compact) : j = j' := by
  rw [← asWritten_of_isFinite j hj, ← asWritten_of_isFinite j' hj', asWritten_eq_of_compact_eq h]

end Json

end DesignBrief
