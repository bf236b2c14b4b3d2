import DesignBrief.Json.Outline

/-!
From a text to its outline. Each scanner takes the rest of the text and gives back what it found
together with the text behind it; behind a place that cannot be read nothing is left.
-/

namespace DesignBrief.Scanner

/-- Whether a character may stand between the tokens of a JSON text. -/
def isBlank (c : Char) : Bool := c == ' ' || c == '\n' || c == '\t' || c == '\r'

/-- The text behind its leading blanks. -/
def trim (s : List Char) : List Char := s.dropWhile isBlank

theorem trim_cons_of_not_blank {c : Char} (h : isBlank c = false) (s : List Char) :
    trim (c :: s) = c :: s := by
  simp [trim, h]

/-- The leading digits of a text and what follows them. -/
def digits : List Char → List Digit × List Char
  | [] => ([], [])
  | c :: rest =>
    match Digit.ofChar? c with
    | none => ([], c :: rest)
    | some d => let (ds, rest) := digits rest; (d :: ds, rest)

def word (w : Word) : List Char → List Char → Outline × List Char
  | [], s => (.word w, s)
  | _ :: _, [] => (.badWord w true, [])
  | c :: cs, d :: s => if c = d then word w cs s else (.badWord w false, [])

def exponent (n : Numeral) (s : List Char) : Outline × List Char :=
  let (down, s) :=
    match s with
    | '+' :: s => (false, s)
    | '-' :: s => (true, s)
    | s => (false, s)
  match digits s with
  | ([], s) => (.badNumber s.isEmpty, [])
  | (ds, s) => (.number { n with exponent := some (down, ds) }, s)

/-- What may follow the digits of a numeral: an exponent, or nothing. -/
def afterDigits (n : Numeral) : List Char → Outline × List Char
  | 'e' :: s => exponent n s
  | 'E' :: s => exponent n s
  | s => (.number n, s)

def afterWhole (n : Numeral) : List Char → Outline × List Char
  | '.' :: s =>
    match digits s with
    | ([], s) => (.badNumber s.isEmpty, [])
    | (ds, s) => afterDigits { n with fraction := ds } s
  | s => afterDigits n s

/-- A numeral behind its sign; only a zero that stands alone may come first. -/
def number (negative : Bool) (s : List Char) : Outline × List Char :=
  match digits s with
  | ([], s) => (.badNumber s.isEmpty, [])
  | (0 :: _ :: _, _) => (.badNumber false, [])
  | (ds, s) => afterWhole { negative := negative, whole := ds } s

def hex? (c : Char) : Option Nat :=
  if '0' ≤ c ∧ c ≤ '9' then some (c.toNat - '0'.toNat)
  else if 'a' ≤ c ∧ c ≤ 'f' then some (c.toNat - 'a'.toNat + 10)
  else if 'A' ≤ c ∧ c ≤ 'F' then some (c.toNat - 'A'.toNat + 10)
  else none

/-- The 16-bit unit that four hexadecimal digits stand for. -/
def unit? (a b c d : Char) : Option Nat :=
  match hex? a, hex? b, hex? c, hex? d with
  | some a, some b, some c, some d => some (((a * 16 + b) * 16 + c) * 16 + d)
  | _, _, _, _ => none

def escaped? : Char → Option Char
  | '"' => some '"'
  | '\\' => some '\\'
  | '/' => some '/'
  | 'b' => some '\x08'
  | 'f' => some '\x0c'
  | 'n' => some '\n'
  | 'r' => some '\r'
  | 't' => some '\t'
  | _ => none

/-- How a string ends at a `\u` behind which fewer than four characters are left. -/
def cutHex (s : List Char) : QuoteEnd :=
  if (String.ofList s).utf8ByteSize < 4 then .ended else .badHex

def onto (p : Piece) (r : Quoted × List Char) : Quoted × List Char :=
  ({ r.1 with pieces := p :: r.1.pieces }, r.2)

/-- A string behind its opening quote. -/
def quoted : List Char → Quoted × List Char
  | [] => (⟨[], .ended⟩, [])
  | '"' :: s => (⟨[], .closed⟩, s)
  | '\\' :: 'u' :: a :: b :: c :: d :: s =>
    match unit? a b c d with
    | some n => onto (.unit n) (quoted s)
    | none => (⟨[], .badHex⟩, [])
  | '\\' :: 'u' :: s => (⟨[], cutHex s⟩, [])
  | '\\' :: c :: s =>
    match escaped? c with
    | some c => onto (.char c) (quoted s)
    | none => (⟨[], .badLetter⟩, [])
  | ['\\'] => (⟨[], .ended⟩, [])
  | c :: s => if c.toNat < 0x20 then (⟨[], .control⟩, []) else onto (.char c) (quoted s)

/-- How a list or an object goes on behind an item. -/
inductive Next where
  /-- With another item. -/
  | more (s : List Char)
  /-- Not at all; the text behind the closing bracket. -/
  | stop (stop : Stop) (rest : List Char)

/-- Looks behind an item for a comma or the closing bracket. -/
def next (closing : Char) (s : List Char) : Next :=
  match trim s with
  | [] => .stop .ended []
  | c :: s =>
    if c = closing then .stop .closed s
    else if c = ',' then
      match trim s with
      | [] => .stop .commaEnd []
      | d :: s => if d = closing then .stop .comma s else .more (d :: s)
    else .stop .stray []

/-- The part of a member behind its key up to the value, or why there is none. -/
def colon (s : List Char) : Except Fault (List Char) :=
  match trim s with
  | [] => .error .endInObject
  | ':' :: s => .ok s
  | _ => .error .colonExpected

mutual

/-- A value. The fuel bounds the number of steps; two for each character are enough. -/
def value : Nat → List Char → Outline × List Char
  | 0, _ => (.broken .valueExpected, [])
  | fuel + 1, s =>
    match trim s with
    | [] => (.broken .endInValue, [])
    | 'n' :: s => word .null ['u', 'l', 'l'] s
    | 't' :: s => word .true ['r', 'u', 'e'] s
    | 'f' :: s => word .false ['a', 'l', 's', 'e'] s
    | '"' :: s => let (q, s) := quoted s; (.text q, s)
    | '-' :: s => number true s
    | '[' :: s =>
      match trim s with
      | [] => (.list [] .ended, [])
      | ']' :: s => (.list [] .closed, s)
      | s => let (items, stop, s) := items fuel s; (.list items stop, s)
    | '\x7b' :: s =>
      match trim s with
      | [] => (.object [] .ended, [])
      | '\x7d' :: s => (.object [] .closed, s)
      | s => let (members, stop, s) := members fuel s; (.object members stop, s)
    | c :: s =>
      if (Digit.ofChar? c).isSome then number false (c :: s) else (.broken .valueExpected, [])
termination_by structural fuel => fuel

def items : Nat → List Char → List Outline × Stop × List Char
  | 0, _ => ([], .stray, [])
  | fuel + 1, s =>
    let (o, s) := value fuel s
    match next ']' s with
    | .stop stop s => ([o], stop, s)
    | .more s => let (rest, stop, s) := items fuel s; (o :: rest, stop, s)
termination_by structural fuel => fuel

def members : Nat → List Char → List (Outline × Outline) × Stop × List Char
  | 0, _ => ([], .stray, [])
  | fuel + 1, s =>
    match value fuel s with
    | (.text q, s) =>
      match colon s with
      | .error why => ([(.text q, .broken why)], .stray, [])
      | .ok s =>
        let (o, s) := value fuel s
        match next '\x7d' s with
        | .stop stop s => ([(.text q, o)], stop, s)
        | .more s => let (rest, stop, s) := members fuel s; ((.text q, o) :: rest, stop, s)
    | (key, _) => ([(key, .broken .keyNotText)], .stray, [])
termination_by structural fuel => fuel

end

end Scanner

/-- The outline of the value that a text starts with, and the text behind it. -/
def Outline.scan (s : List Char) : Outline × List Char := Scanner.value (2 * s.length + 2) s

end DesignBrief
