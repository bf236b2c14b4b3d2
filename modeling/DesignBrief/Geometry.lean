/-!
Points, boxes and per-edge values of a design canvas.
-/

namespace DesignBrief

/-- A position, or the difference of two. -/
structure Point where
  x : Float
  y : Float
deriving DecidableEq, BEq

/-- A rectangle by its corner and size. -/
structure Box where
  x : Float := 0
  y : Float := 0
  width : Float := 0
  height : Float := 0
deriving DecidableEq, BEq

/-- Four values in the order top, right, bottom, left. -/
structure Edges where
  top : Float := 0
  right : Float := 0
  bottom : Float := 0
  left : Float := 0
deriving DecidableEq, BEq

def Point.minus (p q : Point) : Point := ⟨p.x - q.x, p.y - q.y⟩

def Box.origin (b : Box) : Point := ⟨b.x, b.y⟩

/-- A rectangle by two corners, the first with the smaller coordinates. -/
structure Rect where
  x0 : Float
  y0 : Float
  x1 : Float
  y1 : Float
deriving DecidableEq

/-- The smaller of two numbers, the first if they are equal; what is not a number gives way. -/
def lesser (x y : Float) : Float := if x.isNaN || y < x then y else x

/-- The larger of two numbers, the first if they are equal; what is not a number gives way. -/
def greater (x y : Float) : Float := if x.isNaN || x < y then y else x

/-- The rectangle that a box covers, also if its size is negative. -/
def Box.rect (b : Box) : Rect :=
  let right := b.x + b.width
  let bottom := b.y + b.height
  ⟨lesser b.x right, lesser b.y bottom, greater b.x right, greater b.y bottom⟩

theorem not_lt_self (x : Float) : ¬ x < x := by
  intro h
  replace h : x.toModel.unpack.lt x.toModel.unpack = true := of_decide_eq_true h
  generalize x.toModel.unpack = u at h
  cases u with
  | notANumber => cases h
  | zero s => cases h
  | infinity s => cases s <;> cases h
  | finite s m e hm =>
    have hsame : (compare e e).then (compare m m) = .eq := by simp
    cases s with
    | positive =>
      change (some ((compare e e).then (compare m m)) == some .lt) = true at h
      rw [hsame] at h
      cases h
    | negative =>
      change (some ((compare e e).then (compare m m)).swap == some .lt) = true at h
      rw [hsame] at h
      cases h

theorem not_greater_lt_lesser (x y : Float) : ¬ greater x y < lesser x y := by
  unfold greater lesser
  cases hx : x.isNaN with
  | true => simpa using not_lt_self y
  | false => by_cases hyx : y < x <;> by_cases hxy : x < y <;> simp [hyx, hxy, not_lt_self]

/-- The corners stand in order, also for a box of negative size or one that is not a number. -/
theorem Box.rect_ordered (b : Box) :
    ¬ b.rect.x1 < b.rect.x0 ∧ ¬ b.rect.y1 < b.rect.y0 :=
  ⟨not_greater_lt_lesser _ _, not_greater_lt_lesser _ _⟩

/-- Whether all four values are zero, of either sign. -/
def Edges.isZero (e : Edges) : Bool :=
  e.top == 0 && e.right == 0 && e.bottom == 0 && e.left == 0

end DesignBrief
