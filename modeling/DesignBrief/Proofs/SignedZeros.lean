import DesignBrief.Proofs.AsWritten
import DesignBrief.Proofs.Finite

/-!
Styles that compare as equal. Numbers compare as doubles do, so that a zero equals the zero of the
other sign, but the two are written differently. That is the only way in which styles that compare
as equal can have different texts, `StyleValue.canonical_eq_iff_zeros`; so a store gives such styles
one id unless their zeros differ, `StyleStore.resolveAll_sharesEquals`, and zeros that differ are
enough to put two equal styles in one table, `Brief.exists_equal_apart`.
-/

namespace DesignBrief

/-! ## Zeros of either sign -/

theorem Double.beq_zero_iff {x : Float} : (x == 0) = true ↔ IsZero x := by
  constructor
  · intro h
    rcases eq_or_zero_of_beq h with rfl | ⟨hx, -⟩
    · exact ⟨.positive, rfl⟩
    · exact hx
  · rintro ⟨s, hs⟩
    show (Float.Model.UnpackedFloat.compare x.toModel.unpack (0 : Float).toModel.unpack ==
      some .eq) = true
    rw [hs]
    rfl

namespace Json

/-- The zeros of a value with their signs, in the order in which they are written. -/
def zeros (j : Json) : List Float := j.reals.filter (· == 0)

mutual

/-- A value without the signs of its zeros. -/
def unsigned : Json → Json
  | .null => .null
  | .bool b => .bool b
  | .number (.integer i) => .number (.integer i)
  | .number (.real x) => if x == 0 then real 0 else real x
  | .string s => .string s
  | .array items => .array (unsignedItems items)
  | .object members => .object (unsignedMembers members)
termination_by structural j => j

def unsignedItems : List Json → List Json
  | [] => []
  | j :: rest => j.unsigned :: unsignedItems rest
termination_by structural items => items

def unsignedMembers : List (String × Json) → List (String × Json)
  | [] => []
  | (k, j) :: rest => (k, j.unsigned) :: unsignedMembers rest
termination_by structural members => members

end

mutual

/-- Puts zeros in the places of the zeros of a value, and gives back those that are left over. -/
def resign : Json → List Float → Json × List Float
  | .null, zs => (.null, zs)
  | .bool b, zs => (.bool b, zs)
  | .number (.integer i), zs => (.number (.integer i), zs)
  | .number (.real x), zs =>
    if x == 0 then (real (zs.headD x), zs.tail) else (real x, zs)
  | .string s, zs => (.string s, zs)
  | .array items, zs => (.array (resignItems items zs).1, (resignItems items zs).2)
  | .object members, zs => (.object (resignMembers members zs).1, (resignMembers members zs).2)
termination_by structural j => j

def resignItems : List Json → List Float → List Json × List Float
  | [], zs => ([], zs)
  | j :: rest, zs =>
    ((j.resign zs).1 :: (resignItems rest (j.resign zs).2).1,
      (resignItems rest (j.resign zs).2).2)
termination_by structural items => items

def resignMembers : List (String × Json) → List Float → List (String × Json) × List Float
  | [], zs => ([], zs)
  | (k, j) :: rest, zs =>
    ((k, (j.resign zs).1) :: (resignMembers rest (j.resign zs).2).1,
      (resignMembers rest (j.resign zs).2).2)
termination_by structural members => members

end

mutual

/-- The signs of its zeros are all that a value loses. -/
theorem resign_unsigned (j : Json) (zs : List Float) :
    j.unsigned.resign (j.reals.filter (· == 0) ++ zs) = (j, zs) := by
  match j with
  | .null => rfl
  | .bool b => rfl
  | .number (.integer i) => rfl
  | .number (.real x) =>
    have hzero : ((0 : Float) == 0) = true := by decide
    rw [unsigned, reals, List.filter_singleton]
    cases hx : x == 0 with
    | true =>
      rw [if_pos rfl, real, resign, if_pos hzero]
      rfl
    | false =>
      rw [if_neg (by decide), real, resign, if_neg (by rw [hx]; decide)]
      rfl
  | .string s => rfl
  | .array items => rw [unsigned, resign, reals, resignItems_unsigned items zs]
  | .object members => rw [unsigned, resign, reals, resignMembers_unsigned members zs]
termination_by structural j

theorem resignItems_unsigned (items : List Json) (zs : List Float) :
    resignItems (unsignedItems items) ((realsOfItems items).filter (· == 0) ++ zs) =
      (items, zs) := by
  match items with
  | [] => rfl
  | j :: rest =>
    rw [unsignedItems, resignItems, realsOfItems, List.filter_append, List.append_assoc,
      resign_unsigned j, resignItems_unsigned rest]
termination_by structural items

theorem resignMembers_unsigned (members : List (String × Json)) (zs : List Float) :
    resignMembers (unsignedMembers members) ((realsOfMembers members).filter (· == 0) ++ zs) =
      (members, zs) := by
  match members with
  | [] => rfl
  | (k, j) :: rest =>
    rw [unsignedMembers, resignMembers, realsOfMembers, List.filter_append, List.append_assoc,
      resign_unsigned j, resignMembers_unsigned rest]
termination_by structural members

end

/-- Values that are the same but for the signs of their zeros, and have the same zeros, are the
same. -/
theorem eq_of_unsigned_eq {j j' : Json} (h : j.unsigned = j'.unsigned) (hz : j.zeros = j'.zeros) :
    j = j' := by
  have hj := resign_unsigned j []
  have hj' := resign_unsigned j' []
  unfold zeros at hz
  rw [h, hz, hj'] at hj
  exact (Prod.mk.inj hj).1.symm

/-- Zeros are finite, so a text tells them with their signs. -/
theorem zeros_eq_of_compact_eq {j j' : Json} (h : j.compact = j'.compact) : j.zeros = j'.zeros := by
  have hfinite (j : Json) : j.asWritten.zeros = j.zeros := by
    rw [zeros, zeros, reals_asWritten, List.filter_filter]
    refine List.filter_congr fun x _ => ?_
    cases hx : x == 0 with
    | true =>
      obtain ⟨s, hs⟩ := Double.beq_zero_iff.mp hx
      exact congrArg Float.Model.UnpackedFloat.isFinite hs
    | false => rfl
  rw [← hfinite j, ← hfinite j', asWritten_eq_of_compact_eq h]

/-! ## Values that compare as equal -/

/-- A way of telling things that tells equal things alike, but for the signs of zeros. -/
def Respects {α : Type} [BEq α] (f : α → Json) : Prop :=
  ∀ a b, (a == b) = true → (f a).unsigned = (f b).unsigned

theorem respects_real : Respects real := by
  intro x y h
  rcases Double.eq_or_zero_of_beq h with rfl | ⟨hx, hy⟩
  · rfl
  · rw [real, real, unsigned, unsigned, if_pos (Double.beq_zero_iff.mpr hx),
      if_pos (Double.beq_zero_iff.mpr hy)]

theorem Respects.option {α : Type} [BEq α] {f : α → Json} (hf : Respects f) {a b : Option α}
    (h : (a == b) = true) : (a.map f).map unsigned = (b.map f).map unsigned := by
  cases a with
  | none =>
    cases b with
    | none => rfl
    | some b => cases h
  | some a =>
    cases b with
    | none => cases h
    | some b => exact congrArg some (hf a b h)

theorem unsignedItems_eq_map (items : List Json) : unsignedItems items = items.map unsigned := by
  induction items with
  | nil => rfl
  | cons j rest ih => rw [unsignedItems, List.map_cons, ih]

theorem unsignedMembers_eq_map (members : List (String × Json)) :
    unsignedMembers members = members.map fun m => (m.1, m.2.unsigned) := by
  induction members with
  | nil => rfl
  | cons m rest ih =>
    obtain ⟨k, j⟩ := m
    rw [unsignedMembers, List.map_cons, ih]

theorem Respects.list {α : Type} [BEq α] {f : α → Json} (hf : Respects f) :
    Respects (ofList f) := by
  intro as bs h
  rw [ofList, ofList, unsigned, unsigned, unsignedItems_eq_map, unsignedItems_eq_map]
  congr 1
  induction as generalizing bs with
  | nil =>
    cases bs with
    | nil => rfl
    | cons b bs => cases h
  | cons a as ih =>
    cases bs with
    | nil => cases h
    | cons b bs =>
      rw [List.cons_beq_cons, Bool.and_eq_true] at h
      rw [List.map_cons, List.map_cons, List.map_cons, List.map_cons, hf a b h.1, ih bs h.2]

theorem unsigned_present (members : List (String × Option Json)) :
    (present members).unsigned = present (members.map fun m => (m.1, m.2.map unsigned)) := by
  rw [present, present, unsigned, unsignedMembers_eq_map, List.map_filterMap, List.filterMap_map]
  congr 2
  funext m
  obtain ⟨k, j⟩ := m
  cases j <;> rfl

end Json

open Json (Respects respects_real)

theorem Point.respects_toJson : Respects toJson := by
  intro p q h
  cases p
  cases q
  change instBEqPoint.beq _ _ = true at h
  simp only [instBEqPoint.beq, Bool.and_eq_true] at h
  have hx := respects_real _ _ h.1
  have hy := respects_real _ _ h.2
  simp only [toJson, Json.unsigned, Json.unsignedMembers, hx, hy]

theorem TextStyle.respects_toJson : Respects toJson := by
  intro s t h
  cases s
  cases t
  change instBEqTextStyle.beq _ _ = true at h
  simp only [instBEqTextStyle.beq, Bool.and_eq_true, beq_iff_eq] at h
  obtain ⟨rfl, hweight, hsize, rfl, rfl, rfl, rfl, rfl⟩ := h
  simp only [toJson, Json.unsigned_present, List.map_cons, respects_real.option hweight,
    respects_real.option hsize]

theorem Tint.unsignedMembers_eq {t u : Tint} (h : (t == u) = true) :
    Json.unsignedMembers t.members = Json.unsignedMembers u.members := by
  cases t
  cases u
  change instBEqTint.beq _ _ = true at h
  simp only [instBEqTint.beq, Bool.and_eq_true, beq_iff_eq] at h
  obtain ⟨rfl, hopacity⟩ := h
  simp only [members, Json.unsignedMembers, respects_real _ _ hopacity]

theorem TintStop.respects_toJson : Respects toJson := by
  intro s t h
  cases s
  cases t
  change instBEqTintStop.beq _ _ = true at h
  simp only [instBEqTintStop.beq, Bool.and_eq_true] at h
  simp only [toJson, Tint.toJson, Json.unsigned, Json.unsignedMembers, respects_real _ _ h.1,
    Tint.unsignedMembers_eq h.2]

theorem Fill.respects_toJson : Respects toJson := by
  intro f g h
  change instBEqFill.beq _ _ = true at h
  cases f with
  | solid t =>
    cases g with
    | solid u =>
      rw [instBEqFill.beq] at h
      simp only [toJson, Json.unsigned, Json.unsignedMembers, Tint.unsignedMembers_eq h, kind]
    | _ => cases h
  | gradient shape handles stops =>
    cases g with
    | gradient shape' handles' stops' =>
      simp only [instBEqFill.beq, Bool.and_eq_true, beq_iff_eq] at h
      obtain ⟨rfl, hhandles, hstops⟩ := h
      simp only [toJson, Json.unsigned, Json.unsignedMembers, kind,
        Point.respects_toJson.list _ _ hhandles, TintStop.respects_toJson.list _ _ hstops]
    | _ => cases h
  | image imageRef scaleMode =>
    cases g with
    | image imageRef' scaleMode' =>
      simp only [instBEqFill.beq, Bool.and_eq_true, beq_iff_eq] at h
      obtain ⟨rfl, rfl⟩ := h
      rfl
    | _ => cases h
  | plain kind =>
    cases g with
    | plain kind' =>
      simp only [instBEqFill.beq, beq_iff_eq] at h
      rw [h]
    | _ => cases h

theorem Stroke.respects_toJson : Respects toJson := by
  intro s t h
  cases s
  cases t
  change instBEqStroke.beq _ _ = true at h
  simp only [instBEqStroke.beq, Bool.and_eq_true, beq_iff_eq] at h
  obtain ⟨hcolors, rfl, hdashes⟩ := h
  simp only [toJson, Json.unsigned_present, List.map_cons, Option.map_some,
    Fill.respects_toJson.list _ _ hcolors, respects_real.list.option hdashes]

theorem Effects.respects_toJson : Respects toJson := by
  intro e f h
  cases e
  cases f
  change instBEqEffects.beq _ _ = true at h
  simp only [instBEqEffects.beq, Bool.and_eq_true, beq_iff_eq] at h
  obtain ⟨rfl, rfl, rfl, rfl⟩ := h
  rfl

theorem Dimensions.respects_toJson : Respects toJson := by
  intro d e h
  cases d
  cases e
  change instBEqDimensions.beq _ _ = true at h
  simp only [instBEqDimensions.beq, Bool.and_eq_true] at h
  simp only [toJson, Json.unsigned_present, List.map_cons, respects_real.option h.1,
    respects_real.option h.2.1, respects_real.option h.2.2]

theorem Layout.respects_toJson : Respects toJson := by
  intro l m h
  cases l
  cases m
  change instBEqLayout.beq _ _ = true at h
  simp only [instBEqLayout.beq, Bool.and_eq_true, beq_iff_eq] at h
  obtain ⟨rfl, rfl, rfl, rfl, rfl, rfl, hlocation, hdimensions, rfl, rfl, rfl, rfl⟩ := h
  simp only [toJson, Json.unsigned_present, List.map_cons,
    Point.respects_toJson.option hlocation, Dimensions.respects_toJson.option hdimensions]

namespace StyleValue

def zeros (v : StyleValue) : List Float := v.toJson.zeros

theorem category_eq_of_beq {v w : StyleValue} (h : (v == w) = true) :
    v.category = w.category := by
  cases v <;> cases w <;> first | rfl | cases h

theorem respects_toJson : Respects toJson := by
  intro v w h
  change instBEqStyleValue.beq _ _ = true at h
  cases v with
  | text s =>
    cases w with
    | text t => exact TextStyle.respects_toJson s t h
    | _ => cases h
  | fills fs =>
    cases w with
    | fills gs => exact Fill.respects_toJson.list fs gs h
    | _ => cases h
  | stroke s =>
    cases w with
    | stroke t => exact Stroke.respects_toJson s t h
    | _ => cases h
  | effects e =>
    cases w with
    | effects f => exact Effects.respects_toJson e f h
    | _ => cases h
  | layout l =>
    cases w with
    | layout m => exact Layout.respects_toJson l m h
    | _ => cases h

/-- Styles that compare as equal have the same text if and only if their zeros have the same
signs. -/
theorem canonical_eq_iff_zeros {v w : StyleValue} (h : (v == w) = true) :
    v.canonical = w.canonical ↔ v.zeros = w.zeros :=
  ⟨Json.zeros_eq_of_compact_eq,
    fun hz => congrArg Json.compact (Json.eq_of_unsigned_eq (respects_toJson v w h) hz)⟩

end StyleValue

/-! ## Runs -/

namespace StyleStore

/-- What a run from the empty store on holds to for styles that compare as equal: they have the
same text if and only if their zeros have the same signs, they then get the same id, and the table
keeps apart none but those whose zeros differ. -/
structure SharesEquals (hash : TextHash) (vs : List StyleValue) : Prop where
  sameText_iff : ∀ v ∈ vs, ∀ w ∈ vs, (v == w) = true →
    (v.canonical = w.canonical ↔ v.zeros = w.zeros)
  sameId : ∀ c ∈ vs.zip (resolveAll hash vs {}).1, ∀ d ∈ vs.zip (resolveAll hash vs {}).1,
    (c.1 == d.1) = true → c.1.zeros = d.1.zeros → c.2 = d.2
  /-- As long as no counter runs over. -/
  otherId : (∀ k, (StyleValue.textsIn k vs).length < 2 ^ 32) →
    ∀ c ∈ vs.zip (resolveAll hash vs {}).1, ∀ d ∈ vs.zip (resolveAll hash vs {}).1,
      (c.1 == d.1) = true → c.1.zeros ≠ d.1.zeros → c.2 ≠ d.2
  apart : (after hash vs).table.toList.Pairwise fun e f =>
    (e.2 == f.2) = true → e.2.zeros ≠ f.2.zeros

/-- Whatever the hash, styles that compare as equal share an id unless their zeros differ. -/
theorem resolveAll_sharesEquals (hash : TextHash) (vs : List StyleValue) :
    SharesEquals hash vs := by
  have hkey {v w : StyleValue} (h : (v == w) = true) (hz : v.zeros = w.zeros) : v.key = w.key :=
    StyleValue.key_eq_iff.mpr
      ⟨StyleValue.category_eq_of_beq h, (StyleValue.canonical_eq_iff_zeros h).mpr hz⟩
  constructor
  case sameText_iff => exact fun v _ w _ h => StyleValue.canonical_eq_iff_zeros h
  case sameId =>
    intro c hc d hd h hz
    exact id_eq_of_key_eq hc hd (hkey h hz)
  case otherId =>
    intro hb c hc d hd h hz hid
    have hsame := key_eq_of_id_eq hc hd (nodup_ids_after hb) hid
    exact hz ((StyleValue.canonical_eq_iff_zeros h).mp (StyleValue.key_eq_iff.mp hsame).2)
  case apart =>
    have hdistinct := List.pairwise_map.mp (tidy_after hash vs).distinct
    exact hdistinct.imp fun hne h hz => hne (hkey h hz)

end StyleStore

namespace Brief

/-- Zeros of either sign as the font sizes of two texts are equal, but give two styles. -/
theorem exists_equal_apart :
    let s := "\x7b\"document\":\x7b\"children\":[" ++
      "\x7b\"id\":\"1\",\"style\":\x7b\"fontSize\":0\x7d\x7d," ++
      "\x7b\"id\":\"2\",\"style\":\x7b\"fontSize\":-0.0\x7d\x7d]\x7d\x7d"
    ∃ b, ofText none s = .ok b ∧ ∃ e ∈ b.styles.toList, ∃ f ∈ b.styles.toList,
      e.1 ≠ f.1 ∧ e.2.category = f.2.category ∧ (e.2 == f.2) = true := by
  intro s
  let v : StyleValue := .text { fontSize := some 0 }
  let w : StyleValue := .text { fontSize := some (-0) }
  have hread : (ofText none s).toOption.isSome = true := by decide +kernel
  obtain ⟨b, hb⟩ := Option.isSome_iff_exists.mp hread
  rw [toOption_eq_some_iff] at hb
  obtain ⟨roots, hroots, -, hstyles⟩ := exists_roots_of_ofText hb
  have hrefs : ∀ roots ∈ Response.rootsOfText? s,
      BriefNode.refsAll (Node.inPlaceAll none none roots) = [v, w] := by
    decide +kernel
  have hkeys : ([v, w].map StyleValue.key).Nodup := by decide +kernel
  have hids : (StyleStore.after TextHash.mixing [v, w]).table.ids.Nodup := by
    refine StyleStore.nodup_ids_after fun k => ?_
    have hle := (StyleValue.length_textsIn_le k [v, w]).trans List.countP_le_length
    exact Nat.lt_of_le_of_lt hle (by decide)
  have htable := StyleStore.map_snd_after TextHash.mixing hkeys
  obtain ⟨e, rest, hrest, hev, htable⟩ := List.map_eq_cons_iff.mp htable
  obtain ⟨f, hf, hfw⟩ := List.map_eq_singleton_iff.mp htable
  rw [StyleTable.ids_eq_map, hrest, hf] at hids
  refine ⟨b, hb, ?_⟩
  rw [hstyles, briefTree, table_briefTreeBy, hrefs roots hroots, hrest, hf]
  refine ⟨e, by simp, f, by simp, fun h => by simp [h] at hids, ?_, ?_⟩
  · rw [hev, hfw]
    rfl
  · rw [hev, hfw]
    decide

end Brief

end DesignBrief
