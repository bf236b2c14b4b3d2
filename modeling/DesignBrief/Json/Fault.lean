import DesignBrief.Json.Printer
import DesignBrief.Text.Quotation

/-!
What can be wrong with a JSON text or value that is read as something definite, and how each fault
is put into words.
-/

namespace DesignBrief

inductive Found where
  | null
  | bool (value : Bool)
  | number (value : Number)
  | text (value : String)
  | sequence
  | map
deriving DecidableEq

inductive Wanted where
  | text
  | flag
  | number
  | sequence
  | keyed (what : String)
  | record (title : String)
  | unit
  | keyword
deriving DecidableEq

inductive Fault where
  | endInValue
  | endInText
  | endInList
  | endInObject
  | valueExpected
  | wordExpected
  | colonExpected
  | listCommaExpected
  | objectCommaExpected
  | trailingComma
  | keyNotText
  | trailingCharacters
  | badNumber
  | numberOutOfRange
  | controlCharacter
  | badEscape
  | unpairedEscape
  | loneSurrogate
  | tooDeep
  | mismatch (found : Found) (wanted : Wanted)
  | missingField (name : String)
  | repeatedField (name : String)
  | tooFewItems (count : Nat) (title : String) (fields : Nat)
  | tooManyItems (count : Nat)
  | keywordObject
deriving DecidableEq

def Found.message : Found → String
  | .null => "null"
  | .bool true => "boolean `true`"
  | .bool false => "boolean `false`"
  | .number (.integer i) => "integer `" ++ toString i ++ "`"
  | .number (.real x) => "floating point `" ++ (Number.real x).render ++ "`"
  | .text s => "string " ++ Text.quotation s
  | .sequence => "sequence"
  | .map => "map"

def Wanted.message : Wanted → String
  | .text => "a string"
  | .flag => "a boolean"
  | .number => "f64"
  | .sequence => "a sequence"
  | .keyed what => what
  | .record title => "struct " ++ title
  | .unit => "unit"
  | .keyword => "string or map"

def Fault.message : Fault → String
  | .endInValue => "EOF while parsing a value"
  | .endInText => "EOF while parsing a string"
  | .endInList => "EOF while parsing a list"
  | .endInObject => "EOF while parsing an object"
  | .valueExpected => "expected value"
  | .wordExpected => "expected ident"
  | .colonExpected => "expected `:`"
  | .listCommaExpected => "expected `,` or `]`"
  | .objectCommaExpected => "expected `,` or `\x7d`"
  | .trailingComma => "trailing comma"
  | .keyNotText => "key must be a string"
  | .trailingCharacters => "trailing characters"
  | .badNumber => "invalid number"
  | .numberOutOfRange => "number out of range"
  | .controlCharacter => "control character (\\u0000-\\u001F) found while parsing a string"
  | .badEscape => "invalid escape"
  | .unpairedEscape => "unexpected end of hex escape"
  | .loneSurrogate => "lone leading surrogate in hex escape"
  | .tooDeep => "recursion limit exceeded"
  | .mismatch found wanted => "invalid type: " ++ found.message ++ ", expected " ++ wanted.message
  | .missingField name => "missing field `" ++ name ++ "`"
  | .repeatedField name => "duplicate field `" ++ name ++ "`"
  | .tooFewItems count title fields =>
    "invalid length " ++ toString count ++ ", expected struct " ++ title ++ " with "
      ++ toString fields ++ (if fields = 1 then " element" else " elements")
  | .tooManyItems count =>
    "invalid length " ++ toString count ++ ", expected fewer elements in array"
  | .keywordObject => "invalid value: map, expected map with a single key"

end DesignBrief
