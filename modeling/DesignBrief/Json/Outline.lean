import DesignBrief.Json.Numeral
import DesignBrief.Json.Quoted

/-!
The outline of a JSON text: everything in it, in order, up to the first place where it cannot be
read on. What such a place means depends on who reads, so the outline marks it and judges nothing.
A key may be anything: only a reader knows that keys are strings.
-/

namespace DesignBrief

inductive Word where
  | null
  | true
  | false
deriving DecidableEq

/-- What follows the last item of a list or the last member of an object. -/
inductive Stop where
  /-- The closing bracket. -/
  | closed
  /-- A comma and then the closing bracket. -/
  | comma
  /-- A comma and then the end of the text. -/
  | commaEnd
  /-- Something that is neither a comma nor the closing bracket. -/
  | stray
  /-- The end of the text. -/
  | ended
deriving DecidableEq

/-- A JSON text as far as it can be read. -/
inductive Outline where
  | word (w : Word)
  | number (n : Numeral)
  | text (q : Quoted)
  | list (items : List Outline) (stop : Stop)
  | object (members : List (Outline × Outline)) (stop : Stop)
  /-- A word that is misspelt, or cut off by the end of the text. -/
  | badWord (w : Word) (ended : Bool)
  /-- A number that lacks a digit, perhaps because the text ends. -/
  | badNumber (ended : Bool)
  /-- A place that no reader gets past, and why. -/
  | broken (why : Fault)

def Word.fault (ended : Bool) : Fault := if ended then .endInValue else .wordExpected

def Numeral.fault (ended : Bool) : Fault := if ended then .endInValue else .badNumber

namespace Stop

/-- What a list that is read may end with. -/
def inList : Stop → Except Fault Unit
  | .closed => .ok ()
  | .comma => .error .trailingComma
  | .commaEnd => .error .endInValue
  | .stray => .error .listCommaExpected
  | .ended => .error .endInList

def inObject : Stop → Except Fault Unit
  | .closed => .ok ()
  | .comma => .error .trailingComma
  | .commaEnd => .error .endInValue
  | .stray => .error .objectCommaExpected
  | .ended => .error .endInObject

/-- What a list may end with whose last admissible item has been read. -/
def afterLast : Stop → Except Fault Unit
  | .closed => .ok ()
  | .comma => .error .trailingComma
  | .commaEnd => .error .trailingCharacters
  | .stray => .error .trailingCharacters
  | .ended => .error .endInList

def inSkippedList : Stop → Except Fault Unit
  | .closed => .ok ()
  | .comma => .error .valueExpected
  | .commaEnd => .error .endInValue
  | .stray => .error .listCommaExpected
  | .ended => .error .endInList

def inSkippedObject : Stop → Except Fault Unit
  | .closed => .ok ()
  | .comma => .error .keyNotText
  | .commaEnd => .error .endInObject
  | .stray => .error .objectCommaExpected
  | .ended => .error .endInObject

end Stop

namespace Outline

/-- What a reader says that wanted something else than what stands here. -/
def mismatch (wanted : Wanted) : Outline → Fault
  | .word .null => .mismatch .null wanted
  | .word .true => .mismatch (.bool .true) wanted
  | .word .false => .mismatch (.bool .false) wanted
  | .number n =>
    match n.value with
    | .ok v => .mismatch (.number v) wanted
    | .error e => e
  | .text q =>
    match q.decode with
    | .ok s => .mismatch (.text s) wanted
    | .error e => e
  | .list _ _ => .mismatch .sequence wanted
  | .object _ _ => .mismatch .map wanted
  | .badWord _ ended => Word.fault ended
  | .badNumber ended => Numeral.fault ended
  | .broken why => why

def key : Outline → Except Fault String
  | .text q => q.decode
  | _ => .error .keyNotText

mutual

/-- Skips a value: only its grammar is looked at, at any depth. -/
def skip : Outline → Except Fault Unit
  | .word _ => .ok ()
  | .number _ => .ok ()
  | .text q => q.skip
  | .list items stop => do
    skipItems items
    stop.inSkippedList
  | .object members stop => do
    skipMembers members
    stop.inSkippedObject
  | .badWord _ ended => .error (Word.fault ended)
  | .badNumber _ => .error .badNumber
  | .broken why => .error why
termination_by structural o => o

def skipItems : List Outline → Except Fault Unit
  | [] => .ok ()
  | o :: rest => do
    skip o
    skipItems rest
termination_by structural items => items

def skipMembers : List (Outline × Outline) → Except Fault Unit
  | [] => .ok ()
  | (.text q, v) :: rest => do
    q.skip
    skip v
    skipMembers rest
  | _ :: _ => .error .keyNotText
termination_by structural members => members

end

end Outline
end DesignBrief
