import DesignBrief.Json.Reader

/-!
Reading a text as a JSON value of no particular type. Members come out ordered by key, of repeated
keys the last; numbers are read to their value wherever they stand.
-/

namespace DesignBrief.Outline

mutual

/-- The JSON value of an outline; `depth` bounds the brackets that may be opened. -/
def toJson : Nat → Outline → Except Fault Json
  | _, .word .null => .ok .null
  | _, .word .true => .ok (.bool true)
  | _, .word .false => .ok (.bool false)
  | _, .number n => n.value.map .number
  | _, .text q => q.decode.map .string
  | 0, .list _ _ => .error .tooDeep
  | depth + 1, .list items stop => do
    let xs ← itemsToJson depth items
    stop.inList
    return .array xs
  | 0, .object _ _ => .error .tooDeep
  | depth + 1, .object members stop => do
    let ms ← membersToJson depth members
    stop.inObject
    return .ofMembers ms
  | _, .badWord _ ended => .error (Word.fault ended)
  | _, .badNumber ended => .error (Numeral.fault ended)
  | _, .broken why => .error why
termination_by structural _ o => o

def itemsToJson (depth : Nat) : List Outline → Except Fault (List Json)
  | [] => .ok []
  | o :: rest => do
    let x ← toJson depth o
    let xs ← itemsToJson depth rest
    return x :: xs
termination_by structural items => items

/-- The members of an object with their JSON values, in the order of the text. -/
def membersToJson (depth : Nat) : List (Outline × Outline) → Except Fault (List (String × Json))
  | [] => .ok []
  | (k, v) :: rest => do
    let key ← k.key
    let x ← toJson depth v
    let xs ← membersToJson depth rest
    return (key, x) :: xs
termination_by structural members => members

end

end DesignBrief.Outline

namespace DesignBrief

def Json.ofText (s : String) : Except Fault Json := do
  let (o, rest) := Outline.scan s.toList
  let value ← o.toJson depthLimit
  if (Scanner.trim rest).isEmpty then return value else .error .trailingCharacters

end DesignBrief
