/-!
Shortest decimals of a double. A double `m * 2 ^ e` is what a decimal reads as when that decimal
lies in a small interval around it. On ever finer decimal grids the two grid points beside the
double are tried, and the first grid with a point inside the interval gives the fewest digits.
All arithmetic is exact, on natural numbers.
-/

namespace DesignBrief

/-- Which of two decimals equally near to the double is taken. -/
inductive Tie where
  /-- The one whose last digit is even. -/
  | even
  /-- The larger one. -/
  | up
deriving DecidableEq

/-- The number `digits * 10 ^ exponent`. -/
structure Decimal where
  digits : Nat
  exponent : Int
deriving DecidableEq

/--
The decimals that read back as one double, counted in units of `10 ^ -scale`: those between `low`
and `high`, the ends included only if `closed`. The double itself is `centre`.
-/
structure Basin where
  scale : Nat
  low : Nat
  centre : Nat
  high : Nat
  closed : Bool
deriving DecidableEq

namespace Basin

/-- Least significand of a double that is not subnormal. -/
def leastNormal : Nat := 0x10000000000000

/-- Exponent of the subnormal doubles, the least there is. -/
def leastExponent : Int := -1074

/--
The basin of `m * 2 ^ e`. Its ends lie half way to the neighbouring doubles; below a power of two
the neighbour is only half as far. Reading goes to the even significand at the ends.
-/
def ofDouble (m : Nat) (e : Int) : Basin :=
  let unit := if e < 2 then Nat.pow 5 (2 - e).toNat else Nat.pow 2 (e - 2).toNat
  let gap := if m = leastNormal ∧ leastExponent < e then 1 else 2
  { scale := (2 - e).toNat
    low := (4 * m - gap) * unit
    centre := 4 * m * unit
    high := (4 * m + 2) * unit
    closed := m % 2 == 0 }

/-- Whether `n * 10 ^ -scale` reads back as the double. -/
def holds (b : Basin) (n : Nat) : Bool :=
  if b.closed then b.low ≤ n && n ≤ b.high else b.low < n && n < b.high

/-- The nearer to the centre of the multiples `below` and `below + 1` of `step`. -/
def nearer (tie : Tie) (b : Basin) (step below : Nat) : Nat :=
  match compare (2 * (b.centre % step)) step, tie with
  | .lt, _ => below
  | .gt, _ => below + 1
  | .eq, .even => if below % 2 = 0 then below else below + 1
  | .eq, .up => below + 1

/-- The multiple of `10 ^ t` beside the centre that reads back, if either does. -/
def onGrid? (tie : Tie) (b : Basin) (t : Nat) : Option Nat :=
  let step := Nat.pow 10 t
  let below := b.centre / step
  match b.holds (below * step), b.holds ((below + 1) * step) with
  | true, true => some (b.nearer tie step below)
  | true, false => some below
  | false, true => some (below + 1)
  | false, false => none

theorem nearer_eq_or (tie : Tie) (b : Basin) (step below : Nat) :
    b.nearer tie step below = below ∨ b.nearer tie step below = below + 1 := by
  unfold nearer
  split
  · exact .inl rfl
  · exact .inr rfl
  · split
    · exact .inl rfl
    · exact .inr rfl
  · exact .inr rfl

theorem holds_of_onGrid? {tie : Tie} {b : Basin} {t n : Nat} (h : b.onGrid? tie t = some n) :
    b.holds (n * Nat.pow 10 t) = true := by
  simp only [onGrid?] at h
  split at h
  · rename_i hl hr
    cases h
    rcases nearer_eq_or tie b (Nat.pow 10 t) (b.centre / Nat.pow 10 t) with hn | hn
    · rw [hn, hl]
    · rw [hn, hr]
  · rename_i hl hr
    cases h
    exact hl
  · rename_i hl hr
    cases h
    exact hr
  · cases h

/-- The first hit on the grids `10 ^ t`, …, `10`, `1`; on the last one the centre itself lies. -/
def firstHit (tie : Tie) (b : Basin) : Nat → Decimal
  | 0 => ⟨b.centre, -b.scale⟩
  | t + 1 =>
    match b.onGrid? tie (t + 1) with
    | some n => ⟨n, (t + 1 : Nat) - (b.scale : Int)⟩
    | none => b.firstHit tie t

/-- The decimal of fewest digits in the basin, and of those the nearest to the centre. -/
def shortest (tie : Tie) (b : Basin) : Decimal :=
  b.firstHit tie (Nat.toDigits 10 b.centre).length

end Basin

/-- The shortest decimal that reads back as the double `m * 2 ^ e`. -/
def Decimal.ofDouble (tie : Tie) (m : Nat) (e : Int) : Decimal :=
  (Basin.ofDouble m e).shortest tie

end DesignBrief
