/-!
JSON values. Whole numbers and doubles are told apart, as they are written differently. The
members of an object are a list in the order in which they are written; `Json.ofMembers` makes the
order and the choice between repeated keys canonical.
-/

namespace DesignBrief

inductive Number where
  | integer (value : Int)
  | real (value : Float)
deriving DecidableEq

inductive Json where
  | null
  | bool (value : Bool)
  | number (value : Number)
  | string (value : String)
  | array (items : List Json)
  | object (members : List (String × Json))

/-- The double nearest to a number. -/
def Number.toFloat : Number → Float
  | .integer (.ofNat n) => n.toUInt64.toFloat
  | .integer (.negSucc n) => -(n + 1).toUInt64.toFloat
  | .real x => x

namespace Json

/-- Puts a member in its place by key; the member that had the key before gives way. -/
def insertMember (key : String) (value : Json) : List (String × Json) → List (String × Json)
  | [] => [(key, value)]
  | (k, v) :: rest =>
    if key < k then (key, value) :: (k, v) :: rest
    else if key = k then (key, value) :: rest
    else (k, v) :: insertMember key value rest

theorem lookup_cons_if {α : Type} (j k : String) (v : α) (members : List (String × α)) :
    ((j, v) :: members).lookup k = if k = j then some v else members.lookup k := by
  by_cases h : k = j
  · simp [h]
  · simp [List.lookup_cons, h, beq_false_of_ne h]

/-- An object with its members ordered by key, the last member of each key kept. -/
def ofMembers (members : List (String × Json)) : Json :=
  .object (members.foldl (fun sorted m => insertMember m.1 m.2 sorted) [])

def real (x : Float) : Json := .number (.real x)

def count (n : Nat) : Json := .number (.integer n)

/-- `null` for nothing, else what `f` makes of the value. -/
def ofOption {α : Type} (f : α → Json) : Option α → Json
  | none => .null
  | some a => f a

def ofList {α : Type} (f : α → Json) (items : List α) : Json := .array (items.map f)

def present (members : List (String × Option Json)) : Json :=
  .object (members.filterMap fun m => m.2.map (m.1, ·))

def member? (key : String) : Json → Option Json
  | .object members => members.lookup key
  | _ => none

end Json
end DesignBrief
