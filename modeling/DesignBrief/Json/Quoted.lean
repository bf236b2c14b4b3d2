import DesignBrief.Json.Fault

/-!
Strings of a JSON text. A string is kept as the row of its characters, with the `\u` escapes as
bare 16-bit units and with the way it ends, because whoever skips it does not ask whether
surrogates pair up.
-/

namespace DesignBrief

inductive Piece where
  | char (c : Char)
  | unit (n : Nat)
deriving DecidableEq

inductive QuoteEnd where
  /-- By its quote. -/
  | closed
  /-- With the text. -/
  | ended
  /-- At a control character. -/
  | control
  /-- At an escape that does not exist. -/
  | badLetter
  /-- At a `\u` without four hexadecimal digits. -/
  | badHex
deriving DecidableEq

/-- A string as it is written. -/
structure Quoted where
  pieces : List Piece
  stop : QuoteEnd := .closed
deriving DecidableEq

/-- The complaint about a string that does not end by its quote. -/
def QuoteEnd.check : QuoteEnd → Except Fault Unit
  | .closed => .ok ()
  | .ended => .error .endInText
  | .control => .error .controlCharacter
  | .badLetter => .error .badEscape
  | .badHex => .error .badEscape

namespace Quoted

/-- Whether a 16-bit unit opens a surrogate pair. -/
def leads (n : Nat) : Bool := 0xD800 ≤ n && n ≤ 0xDBFF

/-- Whether a 16-bit unit closes a surrogate pair. -/
def trails (n : Nat) : Bool := 0xDC00 ≤ n && n ≤ 0xDFFF

def pair (n m : Nat) : Char := Char.ofNat (0x10000 + (n - 0xD800) * 0x400 + (m - 0xDC00))

/-- The complaint about a string in which the second half of a pair is missing at the end. -/
def unpaired : QuoteEnd → Fault
  | .ended => .endInText
  | .badHex => .badEscape
  | .closed | .control | .badLetter => .unpairedEscape

/-- The characters of a string that ends as `stop` says. -/
def characters (stop : QuoteEnd) : List Piece → Except Fault (List Char)
  | [] => stop.check.map fun _ => []
  | .char c :: rest => (characters stop rest).map (c :: ·)
  | .unit n :: rest =>
    if trails n then .error .loneSurrogate
    else if leads n then
      match rest with
      | [] => .error (unpaired stop)
      | .char _ :: _ => .error .unpairedEscape
      | .unit m :: rest =>
        if trails m then (characters stop rest).map (pair n m :: ·) else .error .loneSurrogate
    else (characters stop rest).map (Char.ofNat n :: ·)

def decode (q : Quoted) : Except Fault String := (characters q.stop q.pieces).map String.ofList

/-- What is asked of a string that is skipped: that it ends by its quote. -/
def skip (q : Quoted) : Except Fault Unit := q.stop.check

end Quoted
end DesignBrief
