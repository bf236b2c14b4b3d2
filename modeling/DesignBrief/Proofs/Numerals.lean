import DesignBrief.Json.Scanner
import Mathlib

/-!
The texts of numerals. A numeral is written with its digits, a point if there are digits behind it,
and a signed exponent; the scanner finds it again in front of anything that does not go on with the
number, `Scanner.number_digitsText`.
-/

namespace DesignBrief

/-! ## Digits -/

instance Digit.neZero_ten : NeZero 10 := ⟨by decide⟩

def Digit.toChar (d : Digit) : Char := Nat.digitChar d.val

@[simp] theorem Digit.toChar_zero : toChar 0 = '0' := rfl

theorem Digit.ofChar?_toChar : ∀ d : Digit, ofChar? d.toChar = some d := by
  decide

theorem Digit.exists_toChar {c : Char} (h : c.isDigit = true) : ∃ d : Digit, d.toChar = c := by
  simp only [Char.isDigit, ge_iff_le, Bool.and_eq_true, decide_eq_true_eq] at h
  have hlow : 48 ≤ c.toNat := UInt32.le_iff_toNat_le.mp h.1
  have hhigh : c.toNat ≤ 57 := UInt32.le_iff_toNat_le.mp h.2
  refine ⟨⟨c.toNat - 48, by omega⟩, Char.toNat_inj.mp ?_⟩
  rw [toChar, Nat.toNat_digitChar_of_lt_ten (by show c.toNat - 48 < 10; omega)]
  show 48 + (c.toNat - 48) = c.toNat
  omega

/-- The decimal digits of a number, the highest first. -/
def Digit.ofNat (n : Nat) : List Digit := (Nat.toDigits 10 n).filterMap ofChar?

theorem Digit.map_toChar_filterMap {cs : List Char} (h : ∀ c ∈ cs, c.isDigit = true) :
    (cs.filterMap ofChar?).map toChar = cs := by
  induction cs with
  | nil => rfl
  | cons c cs ih =>
    rw [List.forall_mem_cons] at h
    obtain ⟨d, rfl⟩ := exists_toChar h.1
    rw [List.filterMap_cons_some (ofChar?_toChar d), List.map_cons, ih h.2]

@[simp] theorem Digit.map_toChar_ofNat (n : Nat) : (ofNat n).map toChar = Nat.toDigits 10 n :=
  map_toChar_filterMap fun _ h => Nat.isDigit_of_mem_toDigits (by decide) (by decide) h

@[simp] theorem Digit.length_ofNat (n : Nat) : (ofNat n).length = (Nat.toDigits 10 n).length := by
  rw [← map_toChar_ofNat, List.length_map]

theorem Digit.ofNat_ne_nil (n : Nat) : ofNat n ≠ [] := by
  rw [← List.length_pos_iff, length_ofNat]
  exact Nat.length_toDigits_pos

/-- The digits of a positive number do not start with a zero. -/
theorem Digit.head_ofNat {n : Nat} (hn : 0 < n) : ∃ d ds, d ≠ 0 ∧ ofNat n = d :: ds := by
  have hhead : ∀ c ∈ (Nat.toDigits 10 n).head?, c ≠ '0' := by
    induction n using Nat.strongRecOn with
    | ind n ih =>
      by_cases hlt : n < 10
      · rw [Nat.toDigits_of_lt_base hlt]
        rintro c hc rfl
        have := Nat.digitChar_eq_zero.mp (Option.some.inj hc)
        omega
      · rw [Nat.toDigits_of_base_le (by decide) (by omega), List.head?_append_of_ne_nil _
          Nat.toDigits_ne_nil]
        exact ih (n / 10) (by omega) (by omega)
  obtain ⟨d, ds, hds⟩ := List.exists_cons_of_ne_nil (ofNat_ne_nil n)
  refine ⟨d, ds, ?_, hds⟩
  rintro rfl
  have hzero : (Nat.toDigits 10 n).head? = some '0' := by
    rw [← map_toChar_ofNat, hds]
    rfl
  exact hhead '0' hzero rfl

namespace Numeral

theorem natural_append (ds es : List Digit) :
    natural (ds ++ es) = natural ds * 10 ^ es.length + natural es := by
  unfold natural
  rw [List.foldl_append]
  generalize ds.foldl _ 0 = m
  induction es using List.reverseRecOn with
  | nil => simp
  | append_singleton es d ih =>
    rw [List.foldl_append, List.foldl_append, List.length_append, ih]
    simp only [List.foldl_cons, List.foldl_nil, List.length_singleton, Nat.pow_succ]
    ring

@[simp] theorem natural_cons_zero (ds : List Digit) : natural (0 :: ds) = natural ds := rfl

theorem natural_replicate_zero (k : Nat) : natural (List.replicate k 0) = 0 := by
  induction k with
  | zero => rfl
  | succ k ih => rw [List.replicate_succ, natural_cons_zero, ih]

theorem natural_eq_ofDigitChars (ds : List Digit) :
    natural ds = Nat.ofDigitChars 10 (ds.map Digit.toChar) 0 := by
  unfold natural
  generalize 0 = m
  induction ds generalizing m with
  | nil => rfl
  | cons d ds ih =>
    rw [List.foldl_cons, List.map_cons, ih]
    exact (Nat.ofDigitChars_cons_digitChar_of_lt_ten d.isLt).symm

@[simp] theorem natural_ofNat (n : Nat) : natural (Digit.ofNat n) = n := by
  rw [natural_eq_ofDigitChars, Digit.map_toChar_ofNat, Nat.ofDigitChars_ten_toDigits]

/-! ## Texts -/

def fractionText : List Digit → List Char
  | [] => []
  | d :: ds => '.' :: (d :: ds).map Digit.toChar

def exponentText : Option (Bool × List Digit) → List Char
  | none => []
  | some (down, ds) => 'e' :: (if down then '-' else '+') :: ds.map Digit.toChar

/-- The text of a numeral without its sign. -/
def digitsText (n : Numeral) : List Char :=
  n.whole.map Digit.toChar ++ (fractionText n.fraction ++ exponentText n.exponent)

def text (n : Numeral) : List Char :=
  if n.negative then '-' :: n.digitsText else n.digitsText

/-- A numeral that can be read: only a zero that stands alone comes first, and no exponent is
without digits. -/
structure Readable (n : Numeral) : Prop where
  whole : n.whole = [0] ∨ ∃ d ds, d ≠ 0 ∧ n.whole = d :: ds
  exponent : ∀ e ∈ n.exponent, e.2 ≠ []

theorem Readable.whole_ne_nil {n : Numeral} (h : n.Readable) : n.whole ≠ [] := by
  rcases h.whole with hwhole | ⟨d, ds, -, hwhole⟩
  · exact hwhole ▸ List.cons_ne_nil _ _
  · exact hwhole ▸ List.cons_ne_nil _ _

end Numeral

namespace Scanner

/-- A text that does not go on with a number. -/
def Delimited (s : List Char) : Prop :=
  ∀ c ∈ s.head?, Digit.ofChar? c = none ∧ c ≠ '.' ∧ c ≠ 'e' ∧ c ≠ 'E'

theorem digits_append {s : List Char} (h : ∀ c ∈ s.head?, Digit.ofChar? c = none)
    (ds : List Digit) : digits (ds.map Digit.toChar ++ s) = (ds, s) := by
  induction ds with
  | nil =>
    cases s with
    | nil => rfl
    | cons c s =>
      have hc := h c rfl
      simp [digits, hc]
  | cons d ds ih => simp [digits, Digit.ofChar?_toChar, ih]

theorem exponent_append {s : List Char} (hs : Delimited s) (n : Numeral) (down : Bool)
    {ds : List Digit} (hds : ds ≠ []) :
    exponent n ((if down then '-' else '+') :: (ds.map Digit.toChar ++ s)) =
      (.number { n with exponent := some (down, ds) }, s) := by
  have hdigits := digits_append (fun c hc => (hs c hc).1) ds
  obtain ⟨d, ds, rfl⟩ := List.exists_cons_of_ne_nil hds
  cases down <;> simp only [exponent, Bool.false_eq_true, if_true, if_false, hdigits]

theorem afterDigits_append {s : List Char} (hs : Delimited s) (n : Numeral)
    (hn : n.exponent = none) {e : Option (Bool × List Digit)} (he : ∀ f ∈ e, f.2 ≠ []) :
    afterDigits n (Numeral.exponentText e ++ s) = (.number { n with exponent := e }, s) := by
  cases e with
  | none =>
    have hnumber : ({ n with exponent := none } : Numeral) = n := by rw [← hn]
    rw [hnumber]
    show afterDigits n s = _
    unfold afterDigits
    split
    · exact absurd rfl (hs 'e' rfl).2.2.1
    · exact absurd rfl (hs 'E' rfl).2.2.2
    · rfl
  | some e => exact exponent_append hs n e.1 (he e rfl)

theorem delimits_digits {s : List Char} (hs : Delimited s) (e : Option (Bool × List Digit)) :
    ∀ c ∈ (Numeral.exponentText e ++ s).head?, Digit.ofChar? c = none ∧ c ≠ '.' := by
  cases e with
  | none => exact fun c hc => ⟨(hs c hc).1, (hs c hc).2.1⟩
  | some e =>
    intro c hc
    cases Option.some.inj hc
    decide

section Behind

variable {behind s : List Char} {e : Option (Bool × List Digit)}
  (hend : ∀ c ∈ behind.head?, Digit.ofChar? c = none ∧ c ≠ '.')
  (hbehind : ∀ n : Numeral, n.exponent = none →
    afterDigits n behind = (.number { n with exponent := e }, s))
include hend hbehind

theorem afterWhole_append (negative : Bool) (whole fraction : List Digit) :
    afterWhole { negative, whole } (Numeral.fractionText fraction ++ behind) =
      (.number { negative, whole, fraction, exponent := e }, s) := by
  cases fraction with
  | nil =>
    rw [← hbehind { negative, whole } rfl]
    show afterWhole _ behind = _
    unfold afterWhole
    split
    · rename_i hdot
      exact absurd rfl (hend '.' rfl).2
    · rfl
  | cons d ds =>
    have hfraction := digits_append (fun c hc => (hend c hc).1) (d :: ds)
    rw [Numeral.fractionText, List.cons_append, afterWhole, hfraction]
    exact hbehind { negative, whole, fraction := d :: ds } rfl

/-- Digits before and behind the point, in front of anything that goes on as an exponent does. -/
theorem number_append {n : Numeral} (hwhole : n.whole = [0] ∨ ∃ d ds, d ≠ 0 ∧ n.whole = d :: ds)
    (he : n.exponent = e) :
    number n.negative
        (n.whole.map Digit.toChar ++ (Numeral.fractionText n.fraction ++ behind)) =
      (.number n, s) := by
  obtain ⟨negative, whole, fraction, exponent⟩ := n
  change exponent = e at he
  subst he
  have hdigits : digits (whole.map Digit.toChar ++ (Numeral.fractionText fraction ++ behind)) =
      (whole, Numeral.fractionText fraction ++ behind) := by
    refine digits_append ?_ whole
    cases fraction with
    | nil => exact fun c hc => (hend c hc).1
    | cons d ds =>
      intro c hc
      cases Option.some.inj hc
      decide
  have hrest := afterWhole_append hend hbehind negative whole fraction
  unfold number
  rw [hdigits]
  rcases hwhole with hwhole | ⟨d, ds, hd, hwhole⟩
  · change whole = [0] at hwhole
    subst hwhole
    exact hrest
  · change whole = d :: ds at hwhole
    subst hwhole
    simp only
    split
    · rename_i hnil
      cases hnil
    · rename_i hzero
      cases hzero
      exact absurd rfl hd
    · rename_i hdigit
      cases hdigit
      exact hrest

end Behind

/-- The scanner finds a numeral that is written. -/
theorem number_digitsText {s : List Char} (hs : Delimited s) {n : Numeral} (hn : n.Readable) :
    number n.negative (n.digitsText ++ s) = (.number n, s) := by
  rw [Numeral.digitsText, List.append_assoc, List.append_assoc]
  exact number_append (delimits_digits hs n.exponent)
    (fun m hm => afterDigits_append hs m hm hn.exponent) hn.whole rfl

end Scanner

end DesignBrief
