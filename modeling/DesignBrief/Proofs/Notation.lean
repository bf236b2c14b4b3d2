import DesignBrief.Proofs.Doubles.Division
import DesignBrief.Style.Value

/-!
How finite doubles are written. Only digits, a point, signs and the mark of an exponent come up,
`Format.isNumeric_of_mem_render`. So no finite double is written `null`, and neither `inf` nor `NaN`
stands in a style sheet text unless it comes from a number that is not finite. Finite or not, a
number holds nothing that separates the parts of a value, `Css.solid_number`.
-/

namespace DesignBrief

/-! ## The characters of a number -/

/-- What may stand in the text of a finite double. -/
def IsNumeric (c : Char) : Prop := c.isDigit = true ∨ c ∈ ['.', '-', '+', 'e']
deriving Decidable

namespace Format

theorem isNumeric_of_mem_toDigits {n : Nat} : ∀ c ∈ Nat.toDigits 10 n, IsNumeric c :=
  fun _ h => .inl (Nat.isDigit_of_mem_toDigits (by decide) (by decide) h)

theorem isNumeric_of_mem_zeros {n : Nat} : ∀ c ∈ zeros n, IsNumeric c := by
  intro c h
  rw [List.eq_of_mem_replicate h]
  exact .inl rfl

theorem isNumeric_of_mem_sign {s : Float.Model.UnpackedFloat.Sign} : ∀ c ∈ sign s, IsNumeric c := by
  cases s with
  | positive => exact fun _ h => absurd h List.not_mem_nil
  | negative => simp [sign, IsNumeric]

theorem isNumeric_of_mem_scientific {k : Int} {d : Decimal} :
    ∀ c ∈ scientific k d, IsNumeric c := by
  have hdigits := isNumeric_of_mem_toDigits (n := d.digits)
  have hmark : ∀ c ∈ 'e' :: (if k < 0 then '-' else '+') :: Nat.toDigits 10 k.natAbs,
      IsNumeric c := by
    rw [List.forall_mem_cons, List.forall_mem_cons]
    refine ⟨by simp [IsNumeric], ?_, isNumeric_of_mem_toDigits⟩
    split <;> simp [IsNumeric]
  refine List.forall_mem_append.mpr ⟨?_, hmark⟩
  split
  · simp
  · rename_i c hdigit
    rwa [hdigit] at hdigits
  · rename_i c cs _ hmore
    rw [hmore, List.forall_mem_cons] at hdigits
    exact List.forall_mem_cons.mpr
      ⟨hdigits.1, List.forall_mem_cons.mpr ⟨by simp [IsNumeric], hdigits.2⟩⟩

variable {f : Format} (hwhole : ∀ c ∈ f.whole.toList, IsNumeric c)

include hwhole

theorem isNumeric_of_mem_places {d : Decimal} : ∀ c ∈ f.places d, IsNumeric c := by
  have hdigits := isNumeric_of_mem_toDigits (n := d.digits)
  have hpoint : IsNumeric '.' := by simp [IsNumeric]
  unfold places
  simp only
  split
  · rw [List.forall_mem_append, List.forall_mem_append]
    exact ⟨⟨hdigits, isNumeric_of_mem_zeros⟩, hwhole⟩
  · split
    · rw [List.forall_mem_append, List.forall_mem_cons]
      exact ⟨fun c h => hdigits c (List.mem_of_mem_take h), hpoint,
        fun c h => hdigits c (List.mem_of_mem_drop h)⟩
    · rw [List.forall_mem_append, List.forall_mem_cons, List.forall_mem_cons]
      exact ⟨⟨.inl rfl, hpoint, isNumeric_of_mem_zeros⟩, hdigits⟩

theorem isNumeric_of_mem_render {x : Float} (hx : x.isFinite = true) :
    ∀ c ∈ f.render x, IsNumeric c := by
  change x.toModel.unpack.isFinite = true at hx
  unfold render
  generalize x.toModel.unpack = u at hx
  cases u with
  | notANumber => cases hx
  | infinity s => cases hx
  | zero s =>
    rw [List.forall_mem_append, List.forall_mem_cons]
    exact ⟨isNumeric_of_mem_sign, .inl rfl, hwhole⟩
  | finite s m e hm =>
    refine List.forall_mem_append.mpr ⟨isNumeric_of_mem_sign, ?_⟩
    unfold magnitude
    simp only
    split
    · exact isNumeric_of_mem_places hwhole
    · exact isNumeric_of_mem_scientific

end Format

/-- A finite double is not written `null`. -/
theorem Number.render_real_ne_null {x : Float} (hx : x.isFinite = true) :
    (Number.real x).render ≠ "null" := by
  have hwhole : ∀ c ∈ Json.numberFormat.whole.toList, IsNumeric c := by
    simp [Json.numberFormat, IsNumeric]
  intro h
  rw [Number.render, if_pos hx] at h
  have hchars : Json.numberFormat.render x = ['n', 'u', 'l', 'l'] :=
    (String.toList_ofList).symm.trans (congrArg String.toList h)
  have hn := Format.isNumeric_of_mem_render hwhole hx 'n' (by rw [hchars]; exact List.mem_cons_self)
  revert hn
  decide

/-! ## The notations of style sheets -/

namespace Css

/-- A text in which no infinity stands and nothing that is not a number. -/
structure Regular (t : String) : Prop where
  noInf : ¬ "inf".toList <:+: t.toList
  noNaN : ¬ "NaN".toList <:+: t.toList

/-- A text without the letters by which an infinity and what is not a number are known. -/
def Plain (t : String) : Prop := ∀ c ∈ t.toList, c ≠ 'f' ∧ c ≠ 'N'

instance (t : String) : Decidable (Plain t) :=
  List.decidableBAll (fun c => c ≠ 'f' ∧ c ≠ 'N') t.toList

theorem Plain.regular {t : String} (h : Plain t) : Regular t := by
  constructor
  · intro hinf
    exact (h 'f' (hinf.subset (by decide))).1 rfl
  · intro hnan
    exact (h 'N' (hnan.subset (by decide))).2 rfl

@[simp] theorem plain_append {s t : String} : Plain (s ++ t) ↔ Plain s ∧ Plain t := by
  simp only [Plain, String.toList_append, List.forall_mem_append]

/-- A number is written without these letters if and only if it is finite. -/
@[simp] theorem plain_number_iff (x : Float) : Plain (number x) ↔ x.isFinite = true := by
  constructor
  · intro h
    unfold Plain number at h
    rw [String.toList_ofList] at h
    show x.toModel.unpack.isFinite = true
    unfold Format.render at h
    generalize x.toModel.unpack = u at h
    cases u with
    | zero s => rfl
    | finite s m e hm => rfl
    | notANumber => exact absurd rfl (h 'N' List.mem_cons_self).2
    | infinity s =>
      exact absurd rfl (h 'f' (List.mem_append_right _ (by decide))).1
  · intro hx c hc
    have hwhole : ∀ c ∈ numberFormat.whole.toList, IsNumeric c := by
      simp [numberFormat]
    rw [number, String.toList_ofList] at hc
    have hnumeric := Format.isNumeric_of_mem_render hwhole hx c hc
    constructor
    · rintro rfl
      revert hnumeric
      decide
    · rintro rfl
      revert hnumeric
      decide

@[simp] theorem plain_px_iff (x : Float) : Plain (px x) ↔ x.isFinite = true := by
  have hunit : Plain "px" := by decide
  simp [px, hunit]

@[simp] theorem plain_em_iff (x : Float) : Plain (em x) ↔ x.isFinite = true := by
  have hunit : Plain "em" := by decide
  simp [em, hunit]

@[simp] theorem plain_percent_iff (ratio : Float) :
    Plain (percent ratio) ↔ (ratio * 100).isFinite = true := by
  have hunit : Plain "%" := by decide
  simp [percent, hunit]

theorem plain_edges_iff (e : Edges) :
    Plain (edges e) ↔ e.top.isFinite = true ∧ e.right.isFinite = true ∧
      e.bottom.isFinite = true ∧ e.left.isFinite = true := by
  have hspace : Plain " " := by decide
  simp [edges, hspace, and_assoc]

@[simp] theorem plain_repr (n : Nat) : Plain n.repr := by
  intro c hc
  have hdigit : IsNumeric c := Format.isNumeric_of_mem_toDigits c (by simpa [Nat.repr] using hc)
  constructor
  · rintro rfl
    revert hdigit
    decide
  · rintro rfl
    revert hdigit
    decide

/-- The channels are bytes, so only the alpha of a colour can leave the range of doubles. -/
@[simp] theorem plain_rgba_iff (c : Color) : Plain (rgba c) ↔ (c.a * 100).isFinite = true := by
  have hopen : Plain "rgba(" := by decide
  have hcomma : Plain ", " := by decide
  have hclose : Plain ")" := by decide
  simp [rgba, hopen, hcomma, hclose, Rounding.isFinite_toHundredths_iff]

theorem hexDigit_plain : ∀ n < 16, hexDigit n ≠ 'f' ∧ hexDigit n ≠ 'N' := by decide

theorem plain_hex (c : Color) : Plain (hex c) := by
  have hbyte (b : UInt8) : ∀ c ∈ hexByte b, c ≠ 'f' ∧ c ≠ 'N' := by
    have hlt := b.toNat_lt
    simp only [hexByte, List.forall_mem_cons]
    exact ⟨hexDigit_plain _ (by omega), hexDigit_plain _ (by omega), nofun⟩
  simp only [Plain, hex, String.toList_ofList, List.forall_mem_cons, List.forall_mem_append]
  exact ⟨⟨⟨by decide, hbyte _⟩, hbyte _⟩, hbyte _⟩

theorem plain_intercalate_iff {separator : String} (hsep : Plain separator) (parts : List String) :
    Plain (separator.intercalate parts) ↔ ∀ t ∈ parts, Plain t := by
  induction parts with
  | nil => simp [Plain]
  | cons t rest ih =>
    cases rest with
    | nil => simp
    | cons u rest =>
      rw [String.intercalate_cons_cons, plain_append, plain_append, ih, List.forall_mem_cons]
      simp [hsep]

/-! ### What separates one notation from the next -/

/-- What stands between the parts of a value: blanks, commas and brackets. -/
def separators : List Char := [' ', ',', '(', ')']

/-- A text that is one part of a value. -/
def Solid (t : String) : Prop := ∀ c ∈ t.toList, c ∉ separators

theorem Solid.not_mem {t : String} (h : Solid t) {c : Char} (hc : c ∈ separators) :
    c ∉ t.toList :=
  fun hmem => h c hmem hc

@[simp] theorem solid_append {s t : String} : Solid (s ++ t) ↔ Solid s ∧ Solid t := by
  simp only [Solid, String.toList_append, List.forall_mem_append]

theorem not_isNumeric_of_mem_separators : ∀ c ∈ separators, ¬ IsNumeric c := by
  simp [separators, IsNumeric]

/-- A number is one part, what is not finite among them. -/
@[simp] theorem solid_number (x : Float) : Solid (number x) := by
  cases hx : x.isFinite with
  | true =>
    intro c hc hsep
    rw [number, String.toList_ofList] at hc
    have hwhole : ∀ c ∈ numberFormat.whole.toList, IsNumeric c := by simp [numberFormat]
    exact not_isNumeric_of_mem_separators c hsep (Format.isNumeric_of_mem_render hwhole hx c hc)
  | false =>
    change x.toModel.unpack.isFinite = false at hx
    unfold Solid number Format.render
    rw [String.toList_ofList]
    generalize x.toModel.unpack = u at hx
    cases u with
    | zero s => cases hx
    | finite s m e hm => cases hx
    | notANumber => simp [separators]
    | infinity s => cases s <;> simp [separators, Format.sign]

@[simp] theorem solid_px (x : Float) : Solid (px x) := by
  have hunit : Solid "px" := by simp [Solid, separators]
  simp [px, hunit]

@[simp] theorem solid_repr (n : Nat) : Solid n.repr := by
  intro c hc hsep
  refine not_isNumeric_of_mem_separators c hsep ?_
  exact Format.isNumeric_of_mem_toDigits c (by simpa [Nat.repr] using hc)

end Css

/-- What a separator does not stand in is the first piece in front of it. -/
theorem splitOn_append_cons {sep : Char} {piece : List Char} (h : sep ∉ piece)
    (rest : List Char) : (piece ++ sep :: rest).splitOn sep = piece :: rest.splitOn sep := by
  have hpiece : ∀ c ∈ piece, (c == sep) = false := by
    intro c hc
    exact beq_eq_false_iff_ne.mpr fun heq => h (heq ▸ hc)
  rw [List.splitOn_eq_splitOnP, List.splitOn_eq_splitOnP,
    List.splitOnP_append_cons_of_forall_mem hpiece sep BEq.rfl]

namespace Effects

theorem plain_join?_iff {separator : String} (hsep : Css.Plain separator) (parts : List String) :
    (∀ t ∈ join? separator parts, Css.Plain t) ↔ ∀ t ∈ parts, Css.Plain t := by
  cases parts with
  | nil => simp [join?]
  | cons t rest =>
    have hjoin : join? separator (t :: rest) = some (separator.intercalate (t :: rest)) := rfl
    simp only [hjoin, Option.mem_some_iff, forall_eq', Css.plain_intercalate_iff hsep]

end Effects

end DesignBrief
