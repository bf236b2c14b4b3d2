import DesignBrief.Json.Value
import DesignBrief.Decimal.Format

/-!
Writing JSON, on one line or indented by two spaces a level. Doubles have the fewest digits that
read back and always show that they are not whole numbers; what is not finite is written `null`.
In strings the quote, the backslash and the control characters below the space are escaped.
-/

namespace DesignBrief

namespace Json

/-- Doubles between `10 ^ -5` and `10 ^ 16` are written without exponent. -/
def numberFormat : Format where
  tie := .even
  plain k := -5 ≤ k && k < 16
  whole := ".0"

/-- How one character stands in a string. -/
def escape (c : Char) : List Char :=
  if c = '"' then ['\\', '"']
  else if c = '\\' then ['\\', '\\']
  else if c = '\x08' then ['\\', 'b']
  else if c = '\x0c' then ['\\', 'f']
  else if c = '\n' then ['\\', 'n']
  else if c = '\r' then ['\\', 'r']
  else if c = '\t' then ['\\', 't']
  else if c.toNat < 0x20 then
    ['\\', 'u', '0', '0', Nat.digitChar (c.toNat / 16), Nat.digitChar (c.toNat % 16)]
  else [c]

theorem escape_of_plain {c : Char} (hq : c ≠ '"') (hb : c ≠ '\\') (hc : 0x20 ≤ c.toNat) :
    escape c = [c] := by
  have hne : ∀ d : Char, d.toNat < 0x20 → c ≠ d := fun d hd h => by subst h; omega
  simp [escape, hq, hb, hne '\x08', hne '\x0c', hne '\n', hne '\r', hne '\t', hc]

def quote (s : String) : String :=
  String.ofList ('"' :: s.toList.flatMap escape ++ ['"'])

end Json

def Number.render : Number → String
  | .integer i => toString i
  | .real x => if x.isFinite then String.ofList (Json.numberFormat.render x) else "null"

/-- What is written between the tokens of a JSON text. -/
structure Spacing where
  /-- The break before an item at the given depth. -/
  line : Nat → String
  /-- The mark between a key and its value. -/
  colon : String

/-- Everything on one line, without a space. -/
def Spacing.compact : Spacing := ⟨fun _ => "", ":"⟩

/-- Every item on a line of its own, two spaces in for each level. -/
def Spacing.indented : Spacing :=
  ⟨fun depth => "\n" ++ String.ofList (List.replicate (2 * depth) ' '), ": "⟩

/-- Items between brackets, each on its own line, or nothing between them. -/
def Spacing.enclose (sp : Spacing) (depth : Nat) (opening closing : String) :
    List String → String
  | [] => opening ++ closing
  | items =>
    opening ++ sp.line (depth + 1) ++ ("," ++ sp.line (depth + 1)).intercalate items
      ++ sp.line depth ++ closing

namespace Json

mutual

/-- The text of a value whose own line is at the given depth. -/
def write (sp : Spacing) (depth : Nat) : Json → String
  | .null => "null"
  | .bool b => if b then "true" else "false"
  | .number n => n.render
  | .string s => quote s
  | .array items => sp.enclose depth "[" "]" (writeItems sp (depth + 1) items)
  | .object members => sp.enclose depth "\x7b" "\x7d" (writeMembers sp (depth + 1) members)
termination_by structural j => j

def writeItems (sp : Spacing) (depth : Nat) : List Json → List String
  | [] => []
  | x :: xs => write sp depth x :: writeItems sp depth xs
termination_by structural items => items

/-- The texts of the members of an object, each behind its key. -/
def writeMembers (sp : Spacing) (depth : Nat) : List (String × Json) → List String
  | [] => []
  | (k, v) :: ms =>
    (quote k ++ sp.colon ++ write sp depth v) :: writeMembers sp depth ms
termination_by structural members => members

end

def compact (j : Json) : String := write .compact 0 j

def pretty (j : Json) : String := write .indented 0 j

end Json
end DesignBrief
