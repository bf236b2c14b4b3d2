import Mathlib

/-!
The order of strings and that of their bytes. Strings are compared by their characters; since a
greater character has the greater bytes, whatever follows, it makes no difference if their bytes in
UTF-8 are compared instead, `Text.lt_iff_bytes_lt`.
-/

namespace DesignBrief.Text

open String

def bytes (s : String) : List UInt8 := s.toUTF8.data.toList

theorem bytes_eq_flatMap (s : String) : bytes s = s.toList.flatMap utf8EncodeChar := by
  rw [bytes, toUTF8, ← utf8Encode_toList, List.utf8Encode]
  simp

/-- The first byte in which two characters differ decides, and there is one. -/
theorem utf8EncodeChar_append_lt {c d : Char} (h : c < d) (xs ys : List UInt8) :
    utf8EncodeChar c ++ xs < utf8EncodeChar d ++ ys := by
  have hlt : c.val.toNat < d.val.toNat := h
  have hmax : d.val.toNat < 0x110000 := by
    have hvalid := d.valid
    simp only [UInt32.isValidChar, Nat.isValidChar] at hvalid
    omega
  -- A character is made of its lowest three groups of six bits and of what is above them.
  have hgroups (v : Nat) (hv : v < 0x110000) : v = 262144 * (v / 262144 % 8) +
      4096 * (v / 4096 % 64) + 64 * (v / 64 % 64) + v % 64 := by
    omega
  simp only [utf8EncodeChar]
  generalize c.val.toNat = v at hlt
  generalize d.val.toNat = w at hlt hmax
  have hv := hgroups v (by omega)
  have hw := hgroups w hmax
  split_ifs <;>
    simp (disch := omega) only [List.cons_append, List.nil_append, List.cons_lt_cons_iff,
      UInt8.lt_iff_toNat_lt, ← UInt8.toNat_inj, UInt8.toNat_ofNat', Nat.reducePow,
      Nat.mod_eq_of_lt] <;>
    omega

theorem nil_lt_utf8EncodeChar_append (c : Char) (xs : List UInt8) :
    [] < utf8EncodeChar c ++ xs := by
  have hlength : 0 < (utf8EncodeChar c).length := by
    rw [length_utf8EncodeChar]
    exact c.utf8Size_pos
  obtain ⟨b, bs, hbytes⟩ := List.exists_cons_of_length_pos hlength
  rw [hbytes]
  exact List.nil_lt_cons b (bs ++ xs)

theorem append_lt_append {xs ys : List UInt8} (h : xs < ys) (bs : List UInt8) :
    bs ++ xs < bs ++ ys := by
  induction bs with
  | nil => exact h
  | cons b bs ih => exact List.cons_lt_cons_iff.mpr (.inr ⟨rfl, ih⟩)

theorem flatMap_lt_flatMap {cs ds : List Char} (h : cs < ds) :
    cs.flatMap utf8EncodeChar < ds.flatMap utf8EncodeChar := by
  induction cs generalizing ds with
  | nil =>
    cases ds with
    | nil => exact absurd h (List.not_lt_nil [])
    | cons d ds => exact nil_lt_utf8EncodeChar_append d _
  | cons c cs ih =>
    cases ds with
    | nil => exact absurd h (List.not_lt_nil _)
    | cons d ds =>
      rcases List.cons_lt_cons_iff.mp h with hlt | ⟨rfl, hrest⟩
      · exact utf8EncodeChar_append_lt hlt _ _
      · exact append_lt_append (ih hrest) _

theorem lt_iff_bytes_lt (s t : String) : s < t ↔ bytes s < bytes t := by
  have hmono {s t : String} (h : s < t) : bytes s < bytes t := by
    rw [bytes_eq_flatMap, bytes_eq_flatMap]
    exact flatMap_lt_flatMap (String.lt_iff.mp h)
  refine ⟨hmono, fun h => ?_⟩
  rcases lt_trichotomy s t with hst | rfl | hts
  · exact hst
  · exact absurd h (List.lt_irrefl _)
  · exact absurd h (List.lt_asymm (hmono hts))

end DesignBrief.Text
