import DesignBrief.Style.Value

/-!
The table of styles that a brief refers to. Ids are counted per category, in the order in which
styles first come up.
-/

namespace DesignBrief

/-- The reference to a style: its category and its number in it. -/
structure StyleId where
  category : Category
  number : UInt32
deriving DecidableEq

/-- The written form of an id, such as `fill_3`. -/
def StyleId.text (id : StyleId) : String :=
  id.category.label ++ "_" ++ toString id.number.toNat

/-- Styles under their ids, in the order in which they were put in. -/
structure StyleTable where
  entries : Array (StyleId × StyleValue) := #[]

namespace StyleTable

def size (t : StyleTable) : Nat := t.entries.size

def isEmpty (t : StyleTable) : Bool := t.entries.isEmpty

def get? (t : StyleTable) (id : StyleId) : Option StyleValue :=
  (t.entries.find? fun e => e.1 = id).map (·.2)

def ids (t : StyleTable) : List StyleId := t.entries.toList.map (·.1)

def push (t : StyleTable) (id : StyleId) (v : StyleValue) : StyleTable :=
  ⟨t.entries.push (id, v)⟩

@[simp] theorem ids_push (t : StyleTable) (id : StyleId) (v : StyleValue) :
    (t.push id v).ids = t.ids ++ [id] := by
  simp [ids, push]

def toJson (t : StyleTable) : Json :=
  .object [("styles", .object (t.entries.toList.map fun e => (e.1.text, e.2.toJson)))]

end StyleTable

/-- How many ids each category has given out. -/
structure Counters where
  text : UInt32 := 0
  fill : UInt32 := 0
  stroke : UInt32 := 0
  effect : UInt32 := 0
  layout : UInt32 := 0
deriving DecidableEq

namespace Counters

def get (c : Counters) : Category → UInt32
  | .text => c.text
  | .fill => c.fill
  | .stroke => c.stroke
  | .effect => c.effect
  | .layout => c.layout

def bump (c : Counters) : Category → Counters
  | .text => { c with text := c.text + 1 }
  | .fill => { c with fill := c.fill + 1 }
  | .stroke => { c with stroke := c.stroke + 1 }
  | .effect => { c with effect := c.effect + 1 }
  | .layout => { c with layout := c.layout + 1 }

@[simp] theorem get_bump_self (c : Counters) (k : Category) :
    (c.bump k).get k = c.get k + 1 := by
  cases k <;> rfl

theorem get_bump_of_ne (c : Counters) {j k : Category} (h : j ≠ k) :
    (c.bump j).get k = c.get k := by
  cases j <;> cases k <;> simp_all [bump, get]

def nextId (c : Counters) (k : Category) : StyleId := ⟨k, c.get k + 1⟩

end Counters
end DesignBrief
