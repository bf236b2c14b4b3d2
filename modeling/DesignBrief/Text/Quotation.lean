import DesignBrief.Text.Invisible

/-!
Strings quoted inside a message. What a reader could not see is escaped: quotes, backslashes,
control characters, and the characters that have no shape of their own.
-/

namespace DesignBrief.Text

/-- The number of a character in braces, in hexadecimal. -/
def numbered (c : Char) : List Char :=
  '\\' :: 'u' :: '\x7b' :: Nat.toDigits 16 c.toNat ++ ['\x7d']

def visible (c : Char) : List Char :=
  if c = '\x00' then ['\\', '0']
  else if c = '\t' then ['\\', 't']
  else if c = '\n' then ['\\', 'n']
  else if c = '\r' then ['\\', 'r']
  else if c = '"' then ['\\', '"']
  else if c = '\\' then ['\\', '\\']
  else if isInvisible c then numbered c
  else [c]

/-- A string between quotes, for a message. -/
def quotation (s : String) : String :=
  String.ofList ('"' :: s.toList.flatMap visible ++ ['"'])

end DesignBrief.Text
