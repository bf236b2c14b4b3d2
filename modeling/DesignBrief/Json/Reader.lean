import DesignBrief.Json.Scanner

/-!
Readers: how a value of some type is read from the outline of a text and from a JSON value. Both
sides stand in one record, so that a type is described once. From a text, a reader may open only so
many brackets, faults come up in the order of the text, and what is unknown is skipped. From a
value, the same things are accepted; only the wording of two faults differs.
-/

namespace DesignBrief

/-- Brackets that may be open at once in a text, outside of what is skipped. -/
def depthLimit : Nat := 127

/-- The two ways to read an `α`. The number bounds the brackets that may be opened. -/
structure Reader (α : Type) where
  fromText : Nat → Outline → Except Fault α
  fromValue : Json → Except Fault α

def Json.mismatch (wanted : Wanted) : Json → Fault
  | .null => .mismatch .null wanted
  | .bool b => .mismatch (.bool b) wanted
  | .number n => .mismatch (.number n) wanted
  | .string s => .mismatch (.text s) wanted
  | .array _ => .mismatch .sequence wanted
  | .object _ => .mismatch .map wanted

namespace Reader

def refuse {α : Type} (why : Fault) : Reader α where
  fromText _ _ := .error why
  fromValue _ := .error why

def text : Reader String where
  fromText _
    | .text q => q.decode
    | o => .error (o.mismatch .text)
  fromValue
    | .string s => .ok s
    | j => .error (j.mismatch .text)

def flag : Reader Bool where
  fromText _
    | .word .true => .ok true
    | .word .false => .ok false
    | o => .error (o.mismatch .flag)
  fromValue
    | .bool b => .ok b
    | j => .error (j.mismatch .flag)

/-- A double; a whole number becomes the nearest one. -/
def double : Reader Float where
  fromText _
    | .number n => n.value.map Number.toFloat
    | o => .error (o.mismatch .number)
  fromValue
    | .number n => .ok n.toFloat
    | j => .error (j.mismatch .number)

def optional {α : Type} (r : Reader α) : Reader (Option α) where
  fromText depth
    | .word .null => .ok none
    | .badWord .null ended => .error (Word.fault ended)
    | o => (r.fromText depth o).map some
  fromValue
    | .null => .ok none
    | j => (r.fromValue j).map some

def list {α : Type} (r : Reader α) : Reader (List α) where
  fromText
    | 0, .list _ _ => .error .tooDeep
    | depth + 1, .list items stop => do
      let xs ← items.mapM (r.fromText depth)
      stop.inList
      return xs
    | _, o => .error (o.mismatch .sequence)
  fromValue
    | .array items => items.mapM r.fromValue
    | j => .error (j.mismatch .sequence)

/-- The members of an object under their keys, in the order of the text, repeated keys kept. -/
def keyed {α : Type} (what : String) (r : Reader α) : Reader (List (String × α)) where
  fromText
    | 0, .object _ _ => .error .tooDeep
    | depth + 1, .object members stop => do
      let xs ← members.mapM fun m => do
        let key ← m.1.key
        let value ← r.fromText depth m.2
        return (key, value)
      stop.inObject
      return xs
    | _, o => .error (o.mismatch (.keyed what))
  fromValue
    | .object members => members.mapM fun m => do return (m.1, ← r.fromValue m.2)
    | j => .error (j.mismatch (.keyed what))

def unit : Reader Unit where
  fromText _
    | .word .null => .ok ()
    | o => .error (o.mismatch .unit)
  fromValue
    | .null => .ok ()
    | j => .error (j.mismatch .unit)

/-- A name out of a fixed stock: a string, or an object with `null` under the name as only key. -/
def name : Reader String where
  fromText
    | _, .text q => q.decode
    | 0, .object _ _ => .error .tooDeep
    | _ + 1, .object [] stop => .error (if stop = .ended then .endInObject else .valueExpected)
    | depth + 1, .object ((k, v) :: rest) stop => do
      let word ← k.key
      unit.fromText depth v
      match rest, stop with
      | [], .closed => return word
      | [], .ended => .error .endInObject
      | _, _ => .error .valueExpected
    | _, .broken why => .error why
    | _, _ => .error .valueExpected
  fromValue
    | .string s => .ok s
    | .object [(k, v)] => (unit.fromValue v).map fun _ => k
    | .object _ => .error .keywordObject
    | j => .error (j.mismatch .keyword)

/-- What a name stands for. -/
def map {α β : Type} (f : α → β) (r : Reader α) : Reader β where
  fromText depth o := (r.fromText depth o).map f
  fromValue j := (r.fromValue j).map f

end Reader

/-- A field of a record type `σ`: its key, whether it has to be there, how it is read and put. -/
structure Slot (σ : Type) where
  key : String
  mandatory : Bool
  fromText : Nat → Outline → Except Fault (σ → σ)
  fromValue : Json → Except Fault (σ → σ)

namespace Slot

/-- A field that keeps its blank value when it is absent. -/
def optional {σ α : Type} (key : String) (r : Reader α) (put : α → σ → σ) : Slot σ where
  key := key
  mandatory := false
  fromText depth o := (r.fromText depth o).map put
  fromValue j := (r.fromValue j).map put

def required {σ α : Type} (key : String) (r : Reader α) (put : α → σ → σ) : Slot σ :=
  { optional key r put with mandatory := true }

variable {σ α β : Type}

/-- A field whose content is read by a reader and put into the record. -/
structure Reads (f : Slot σ) (r : Reader α) (put : α → σ → σ) : Prop where
  fromText : ∀ depth o, f.fromText depth o = (r.fromText depth o).map put
  fromValue : ∀ j, f.fromValue j = (r.fromValue j).map put

/-- What a field may do to a record. -/
def Makes (f : Slot σ) (change : σ → σ) : Prop :=
  (∃ depth o, f.fromText depth o = .ok change) ∨ ∃ j, f.fromValue j = .ok change

theorem Reads.exists_put {f : Slot σ} {r : Reader α} {put : α → σ → σ} (h : f.Reads r put)
    {change : σ → σ} (hchange : f.Makes change) : ∃ a, change = put a := by
  have hread {x : Except Fault α} (hx : x.map put = .ok change) : ∃ a, change = put a := by
    cases x with
    | error why => cases hx
    | ok a => exact ⟨a, (Except.ok.inj hx).symm⟩
  rcases hchange with ⟨depth, o, ho⟩ | ⟨j, hj⟩
  · exact hread (h.fromText depth o ▸ ho)
  · exact hread (h.fromValue j ▸ hj)

/-- It makes no difference to a record which of two fields is put first. -/
def Commute (f g : Slot σ) : Prop :=
  ∀ p q, f.Makes p → g.Makes q → ∀ s, p (q s) = q (p s)

theorem Commute.symm {f g : Slot σ} (h : f.Commute g) : g.Commute f :=
  fun p q hp hq s => (h q p hq hp s).symm

theorem Reads.commute {f g : Slot σ} {r : Reader α} {r' : Reader β} {put : α → σ → σ}
    {put' : β → σ → σ} (hf : f.Reads r put) (hg : g.Reads r' put')
    (h : ∀ a b s, put a (put' b s) = put' b (put a s)) : f.Commute g := by
  intro p q hp hq s
  obtain ⟨a, rfl⟩ := hf.exists_put hp
  obtain ⟨b, rfl⟩ := hg.exists_put hq
  exact h a b s

end Slot

/-- A record type: what it is called, its value before any field is read, and its fields. -/
structure Record (σ : Type) where
  title : String
  blank : σ
  fields : List (Slot σ)
  /-- The fields do not disturb each other. If each is put into a place of its own, the records that
  come of both orders are the same by definition. -/
  independent : fields.Pairwise Slot.Commute := by
    simp only [List.pairwise_cons, List.forall_mem_cons, List.not_mem_nil, false_implies,
      implies_true, List.Pairwise.nil, and_true]
    and_intros
    all_goals
      exact Slot.Reads.commute ⟨fun _ _ => rfl, fun _ => rfl⟩ ⟨fun _ _ => rfl, fun _ => rfl⟩
        fun _ _ _ => rfl

namespace Record

variable {σ : Type}

def field? (r : Record σ) (key : String) : Option (Slot σ) := r.fields.find? (·.key == key)

/-- The complaint that a required field was not among the keys seen, if there is one. -/
def checkSeen (r : Record σ) (seen : List String) : Except Fault Unit :=
  match r.fields.find? fun f => f.mandatory && !seen.contains f.key with
  | none => .ok ()
  | some f => .error (.missingField f.key)

/-- The complaint that a required field is among the fields from number `index` on. -/
def checkRest (r : Record σ) (index : Nat) (rest : List (Slot σ)) : Except Fault Unit :=
  match rest.findIdx? (·.mandatory) with
  | none => .ok ()
  | some i => .error (.tooFewItems (index + i) r.title r.fields.length)

/-- Reads the members of an object in a text, each known key once. -/
def readMembers (r : Record σ) (depth : Nat) :
    List String → σ → List (Outline × Outline) → Except Fault (List String × σ)
  | seen, acc, [] => .ok (seen, acc)
  | seen, acc, (k, v) :: rest => do
    let key ← k.key
    match r.field? key with
    | none =>
      v.skip
      readMembers r depth seen acc rest
    | some f =>
      if seen.contains key then .error (.repeatedField key)
      else
        let put ← f.fromText depth v
        readMembers r depth (key :: seen) (put acc) rest

/-- Reads the items of a list in a text into the fields in their order. -/
def readItems (r : Record σ) (depth : Nat) (stop : Stop) :
    Nat → List (Slot σ) → σ → List Outline → Except Fault σ
  | _, [], acc, [] => do
    stop.afterLast
    return acc
  | _, [], _, _ :: _ => .error .trailingCharacters
  | index, f :: fs, acc, [] => do
    stop.inList
    r.checkRest index (f :: fs)
    return acc
  | index, f :: fs, acc, o :: rest => do
    let put ← f.fromText depth o
    readItems r depth stop (index + 1) fs (put acc) rest

def takeMembers (r : Record σ) :
    List String → σ → List (String × Json) → Except Fault (List String × σ)
  | seen, acc, [] => .ok (seen, acc)
  | seen, acc, (key, v) :: rest =>
    match r.field? key with
    | none => takeMembers r seen acc rest
    | some f => do
      let put ← f.fromValue v
      takeMembers r (key :: seen) (put acc) rest

/-- Takes the items of an array into the fields in their order; `count` is their number. -/
def takeItems (r : Record σ) (count : Nat) :
    Nat → List (Slot σ) → σ → List Json → Except Fault σ
  | _, [], acc, [] => .ok acc
  | _, [], _, _ :: _ => .error (.tooManyItems count)
  | index, f :: fs, acc, [] => do
    r.checkRest index (f :: fs)
    return acc
  | index, f :: fs, acc, j :: rest => do
    let put ← f.fromValue j
    takeItems r count (index + 1) fs (put acc) rest

/-- A record stands as an object of its fields, or as a list of them in their order. -/
def reader (r : Record σ) : Reader σ where
  fromText
    | 0, .list _ _ => .error .tooDeep
    | 0, .object _ _ => .error .tooDeep
    | depth + 1, .list items stop => r.readItems depth stop 0 r.fields r.blank items
    | depth + 1, .object members stop => do
      let (seen, value) ← r.readMembers depth [] r.blank members
      stop.inObject
      r.checkSeen seen
      return value
    | _, o => .error (o.mismatch (.record r.title))
  fromValue
    | .array items => r.takeItems items.length 0 r.fields r.blank items
    | .object members => do
      let (seen, value) ← r.takeMembers [] r.blank members
      r.checkSeen seen
      return value
    | j => .error (j.mismatch (.record r.title))

end Record

/-- Reads a whole text: one value, and nothing but blanks around it. -/
def Reader.ofText {α : Type} (r : Reader α) (s : String) : Except Fault α := do
  let (o, rest) := Outline.scan s.toList
  let value ← r.fromText depthLimit o
  if (Scanner.trim rest).isEmpty then return value else .error .trailingCharacters

end DesignBrief
