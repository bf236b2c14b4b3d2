import DesignBrief.Proofs.Outlines

/-!
JSON texts by their grammar. A `Written` value is a JSON value with everything that a text may
choose: blanks, escapes, the look of numbers. No bound is set to how deep brackets are nested or how
large a number is. The scanner finds the outline of what is written, `Outline.scan_document`.
-/

namespace DesignBrief

/-! ## Tokens -/

/-- Blanks between two tokens. -/
def Blanks : Type := { b : List Char // ∀ c ∈ b, Scanner.isBlank c = true }

namespace Blanks

def none : Blanks := ⟨[], nofun⟩

def append (a b : Blanks) : Blanks := ⟨a.1 ++ b.1, List.forall_mem_append.mpr ⟨a.2, b.2⟩⟩

end Blanks

/-- Whether a character stands for itself in a string. -/
def Scanner.isPlain (c : Char) : Bool := c != '"' && c != '\\' && 0x20 ≤ c.toNat

inductive Spelling where
  | plain (c : Char) (h : Scanner.isPlain c = true)
  | letter (c d : Char) (h : Scanner.escaped? c = some d)
  | hex (a b c d : Char) (n : Nat) (h : Scanner.unit? a b c d = some n)

namespace Spelling

def text : Spelling → List Char
  | plain c _ => [c]
  | letter c _ _ => ['\\', c]
  | hex a b c d _ _ => ['\\', 'u', a, b, c, d]

def piece : Spelling → Piece
  | plain c _ => .char c
  | letter _ d _ => .char d
  | hex _ _ _ _ n _ => .unit n

end Spelling

/-- A string as it is spelled. -/
abbrev Literal := List Spelling

namespace Literal

def behindQuote (l : Literal) : List Char := l.flatMap Spelling.text ++ ['"']

def text (l : Literal) : List Char := '"' :: l.behindQuote

def quoted (l : Literal) : Quoted := ⟨l.map Spelling.piece, .closed⟩

end Literal

/-- A numeral as it is spelled: the mark of an exponent may be a capital letter, and an exponent
that goes up may have a sign. -/
structure Figure where
  numeral : Numeral
  readable : numeral.Readable
  capital : Bool
  plus : Bool

namespace Numeral

/-- The sign of an exponent, which one that goes up need not have. -/
def signSpelling (plus down : Bool) : List Char :=
  if down then ['-'] else if plus then ['+'] else []

def exponentSpelling (capital plus : Bool) : Option (Bool × List Digit) → List Char
  | none => []
  | some (down, ds) =>
    (if capital then 'E' else 'e') :: (signSpelling plus down ++ ds.map Digit.toChar)

end Numeral

namespace Figure

def digitsText (f : Figure) : List Char :=
  f.numeral.whole.map Digit.toChar ++
    (Numeral.fractionText f.numeral.fraction ++
      Numeral.exponentSpelling f.capital f.plus f.numeral.exponent)

def text (f : Figure) : List Char :=
  if f.numeral.negative then '-' :: f.digitsText else f.digitsText

end Figure

/-- The letters of a word behind the first one. -/
def Word.tail : Word → List Char
  | null => ['u', 'l', 'l']
  | true => ['r', 'u', 'e']
  | false => ['a', 'l', 's', 'e']

def Word.text : Word → List Char
  | null => 'n' :: null.tail
  | true => 't' :: true.tail
  | false => 'f' :: false.tail

/-! ## Values -/

structure Margin where
  before : Blanks := .none
  after : Blanks := .none

/-- The key of a member and the blanks around it and around the value. -/
structure Label where
  before : Blanks := .none
  key : Literal
  beforeColon : Blanks := .none
  afterColon : Blanks := .none
  after : Blanks := .none

/-- Everything of a member that stands in front of its value, but for the blanks at the start. -/
def Label.front (l : Label) : List Char :=
  l.key.text ++ (l.beforeColon.1 ++ ':' :: l.afterColon.1)

/-- A JSON value as it is written. There may be blanks inside of empty brackets. -/
inductive Written where
  | word (w : Word)
  | number (f : Figure)
  | text (l : Literal)
  | list (items : List (Margin × Written)) (pad : Blanks)
  | object (members : List (Label × Written)) (pad : Blanks)

namespace Written

mutual

def characters : Written → List Char
  | word w => w.text
  | number f => f.text
  | text l => l.text
  | list items pad => '[' :: (ofItems items ++ (pad.1 ++ [']']))
  | object members pad => '\x7b' :: (ofMembers members ++ (pad.1 ++ ['\x7d']))
termination_by structural v => v

def ofItems : List (Margin × Written) → List Char
  | [] => []
  | (m, v) :: rest => m.before.1 ++ (v.characters ++ (m.after.1 ++ ofMoreItems rest))
termination_by structural items => items

/-- The characters of the items that follow another one. -/
def ofMoreItems : List (Margin × Written) → List Char
  | [] => []
  | (m, v) :: rest =>
    ',' :: (m.before.1 ++ (v.characters ++ (m.after.1 ++ ofMoreItems rest)))
termination_by structural items => items

def ofMembers : List (Label × Written) → List Char
  | [] => []
  | (l, v) :: rest =>
    l.before.1 ++ (l.front ++ (v.characters ++ (l.after.1 ++ ofMoreMembers rest)))
termination_by structural members => members

/-- The characters of the members that follow another one. -/
def ofMoreMembers : List (Label × Written) → List Char
  | [] => []
  | (l, v) :: rest =>
    ',' :: (l.before.1 ++ (l.front ++ (v.characters ++ (l.after.1 ++ ofMoreMembers rest))))
termination_by structural members => members

end

mutual

def outline : Written → Outline
  | word w => .word w
  | number f => .number f.numeral
  | text l => .text l.quoted
  | list items _ => .list (outlineItems items) .closed
  | object members _ => .object (outlineMembers members) .closed
termination_by structural v => v

def outlineItems : List (Margin × Written) → List Outline
  | [] => []
  | (_, v) :: rest => v.outline :: outlineItems rest
termination_by structural items => items

def outlineMembers : List (Label × Written) → List (Outline × Outline)
  | [] => []
  | (l, v) :: rest => (.text l.key.quoted, v.outline) :: outlineMembers rest
termination_by structural members => members

end

end Written

/-- A text: a value and the blanks around it. -/
structure Document where
  before : Blanks := .none
  value : Written
  after : Blanks := .none

def Document.text (d : Document) : String :=
  .ofList (d.before.1 ++ (d.value.characters ++ d.after.1))

/-! ## The scanner finds what is written -/

namespace Scanner

theorem value_word (fuel : Nat) (w : Word) (s : List Char) :
    value (fuel + 1) (w.text ++ s) = (.word w, s) := by
  cases w <;> rfl

theorem quoted_spelling (i : Spelling) (s : List Char) :
    quoted (i.text ++ s) = onto i.piece (quoted s) := by
  cases i with
  | plain c h =>
    simp only [isPlain, Bool.and_eq_true, bne_iff_ne, ne_eq, decide_eq_true_eq] at h
    obtain ⟨⟨hquote, hslash⟩, hvisible⟩ := h
    show quoted (c :: s) = _
    rw [quoted, if_neg (Nat.not_lt.mpr hvisible)]
    · rfl
    exacts [hquote, fun _ _ _ _ _ h => absurd h hslash, fun _ h => absurd h hslash,
      fun _ _ h => absurd h hslash, fun h => absurd h hslash]
  | letter c d h =>
    have hc : c ≠ 'u' := by
      rintro rfl
      cases h
    show quoted ('\\' :: c :: s) = _
    rw [quoted, h]
    · rfl
    exacts [fun _ _ _ _ _ h => absurd h hc, hc]
  | hex a b c d n h =>
    show quoted ('\\' :: 'u' :: a :: b :: c :: d :: s) = _
    rw [quoted, h]
    rfl

theorem behindQuote_cons_append (i : Spelling) (l : Literal) (s : List Char) :
    Literal.behindQuote (i :: l) ++ s = i.text ++ (l.behindQuote ++ s) := by
  simp [Literal.behindQuote]

theorem quoted_literal (l : Literal) (s : List Char) :
    quoted (l.behindQuote ++ s) = (l.quoted, s) := by
  induction l with
  | nil => rfl
  | cons i l ih =>
    rw [behindQuote_cons_append, quoted_spelling, ih]
    rfl

theorem value_literal (fuel : Nat) (l : Literal) (s : List Char) :
    value (fuel + 1) (l.text ++ s) = (.text l.quoted, s) := by
  show (Outline.text (quoted (l.behindQuote ++ s)).1, (quoted (l.behindQuote ++ s)).2) = _
  rw [quoted_literal]

/-- Digits are no sign, so an exponent that goes up need not have one. -/
theorem exponent_unsigned (n : Numeral) (d : Digit) (s : List Char) :
    exponent n (d.toChar :: s) = exponent n ('+' :: d.toChar :: s) := by
  fin_cases d <;> rfl

theorem exponent_spelling {s : List Char} (hs : Delimited s) (n : Numeral) (plus down : Bool)
    {ds : List Digit} (hds : ds ≠ []) :
    exponent n (Numeral.signSpelling plus down ++ ds.map Digit.toChar ++ s) =
      (.number { n with exponent := some (down, ds) }, s) := by
  rw [← exponent_append hs n down hds]
  obtain ⟨d, ds, rfl⟩ := List.exists_cons_of_ne_nil hds
  cases down with
  | true => rfl
  | false =>
    cases plus with
    | true => rfl
    | false => exact exponent_unsigned n d _

theorem afterDigits_spelling {s : List Char} (hs : Delimited s) (capital plus : Bool)
    {e : Option (Bool × List Digit)} (he : ∀ f ∈ e, f.2 ≠ []) {n : Numeral}
    (hn : n.exponent = none) :
    afterDigits n (Numeral.exponentSpelling capital plus e ++ s) =
      (.number { n with exponent := e }, s) := by
  cases e with
  | none => exact afterDigits_append hs n hn he
  | some e =>
    have hexponent := exponent_spelling hs n plus e.1 (he e rfl)
    cases capital <;> exact hexponent

theorem delimits_spelling {s : List Char} (hs : Delimited s) (capital plus : Bool)
    (e : Option (Bool × List Digit)) :
    ∀ c ∈ (Numeral.exponentSpelling capital plus e ++ s).head?,
      Digit.ofChar? c = none ∧ c ≠ '.' := by
  cases e with
  | none => exact fun c hc => ⟨(hs c hc).1, (hs c hc).2.1⟩
  | some e =>
    intro c hc
    cases Option.some.inj hc
    cases capital <;> decide

theorem value_figure (f : Figure) {s : List Char} (hs : Delimited s) (fuel : Nat) :
    value (fuel + 1) (f.text ++ s) = (.number f.numeral, s) := by
  have hnumber := number_append (delimits_spelling hs f.capital f.plus f.numeral.exponent)
    (fun n hn => afterDigits_spelling hs f.capital f.plus f.readable.exponent hn)
    f.readable.whole rfl
  rw [← hnumber]
  unfold Figure.text Figure.digitsText
  rw [value_signed f.numeral.negative f.readable.whole_ne_nil, List.append_assoc,
    List.append_assoc]

/-! ### Brackets -/

theorem items_append (b : Blanks) (fuel : Nat) (s : List Char) :
    items fuel (b.1 ++ s) = items fuel s := by
  cases fuel with
  | zero => rfl
  | succ fuel => rw [items_succ, items_succ, value_append b.2]

theorem members_append (b : Blanks) (fuel : Nat) (s : List Char) :
    members fuel (b.1 ++ s) = members fuel s := by
  cases fuel with
  | zero => rfl
  | succ fuel => rw [members, members, value_append b.2]

theorem next_append (b : Blanks) (closing : Char) (s : List Char) :
    next closing (b.1 ++ s) = next closing s := by
  rw [next, next, trim_append b.2]

theorem colon_append (b : Blanks) (s : List Char) : colon (b.1 ++ ':' :: s) = .ok s := by
  unfold colon
  rw [trim_append b.2, trim_cons_of_not_blank (by decide : isBlank ':' = false)]
  rfl

theorem opens_characters (v : Written) : Opens v.characters := by
  cases v with
  | word w => cases w <;> exact ⟨_, _, rfl, by decide⟩
  | number f => exact opens_signed f.numeral.negative f.readable.whole_ne_nil _
  | text l => exact ⟨'"', _, rfl, by decide⟩
  | list items pad => exact ⟨'[', _, rfl, by decide⟩
  | object members pad => exact ⟨'\x7b', _, rfl, by decide⟩

/-- What stands behind an item: blanks, and then another item or the closing bracket. -/
theorem follows_item (b : Blanks) (rest : List (Margin × Written)) (pad : Blanks) (s : List Char) :
    Follows (b.1 ++ (Written.ofMoreItems rest ++ (pad.1 ++ ']' :: s))) := by
  cases rest with
  | nil =>
    have hclosing := follows_append (b.append pad).2 (c := ']') (by simp) s
    rwa [Blanks.append, List.append_assoc] at hclosing
  | cons i rest => exact follows_append b.2 (by simp) _

theorem follows_member (b : Blanks) (rest : List (Label × Written)) (pad : Blanks)
    (s : List Char) :
    Follows (b.1 ++ (Written.ofMoreMembers rest ++ (pad.1 ++ '\x7d' :: s))) := by
  cases rest with
  | nil =>
    have hclosing := follows_append (b.append pad).2 (c := '\x7d') (by simp) s
    rwa [Blanks.append, List.append_assoc] at hclosing
  | cons m rest => exact follows_append b.2 (by simp) _

theorem value_items {s : List Char} (hs : Opens s) (b : Blanks) (fuel : Nat) :
    value (fuel + 1) ('[' :: (b.1 ++ s)) =
      (.list (items fuel (b.1 ++ s)).1 (items fuel (b.1 ++ s)).2.1,
        (items fuel (b.1 ++ s)).2.2) := by
  rw [value_list hs b.2, items_append]

theorem value_members {s : List Char} (hs : Opens s) (b : Blanks) (fuel : Nat) :
    value (fuel + 1) ('\x7b' :: (b.1 ++ s)) =
      (.object (members fuel (b.1 ++ s)).1 (members fuel (b.1 ++ s)).2.1,
        (members fuel (b.1 ++ s)).2.2) := by
  rw [value_object hs b.2, members_append]

theorem value_empty_list (pad : Blanks) (fuel : Nat) (s : List Char) :
    value (fuel + 1) ('[' :: (pad.1 ++ ']' :: s)) = (.list [] .closed, s) := by
  rw [value, trim_cons_of_not_blank (by decide : isBlank '[' = false)]
  simp only [trim_append pad.2, trim_cons_of_not_blank (by decide : isBlank ']' = false)]

theorem value_empty_object (pad : Blanks) (fuel : Nat) (s : List Char) :
    value (fuel + 1) ('\x7b' :: (pad.1 ++ '\x7d' :: s)) = (.object [] .closed, s) := by
  rw [value, trim_cons_of_not_blank (by decide : isBlank '\x7b' = false)]
  simp only [trim_append pad.2, trim_cons_of_not_blank (by decide : isBlank '\x7d' = false)]

theorem opens_front (l : Label) : Opens l.front := ⟨'"', _, rfl, by decide⟩

mutual

/-- A value is scanned as its outline. The fuel that the scanner is given is twice the length of the
text, of which every bracket, comma and character of a value pays for its own step. -/
theorem value_characters (v : Written) : ∀ (fuel : Nat) (s : List Char), Follows s →
    2 * v.characters.length ≤ fuel + 1 →
    value (fuel + 1) (v.characters ++ s) = (v.outline, s) := by
  match v with
  | .word w => exact fun fuel s _ _ => value_word fuel w s
  | .number f => exact fun fuel s hs _ => value_figure f hs.delimited fuel
  | .text l => exact fun fuel s _ _ => value_literal fuel l s
  | .list [] pad =>
    intro fuel s hs hfuel
    simp only [Written.characters, Written.ofItems, List.nil_append, List.cons_append,
      List.append_assoc]
    exact value_empty_list pad fuel s
  | .list (i :: rest) pad =>
    intro fuel s hs hfuel
    rw [Written.characters] at hfuel ⊢
    simp only [List.length_cons, List.length_append, List.length_nil] at hfuel
    have hitems := items_characters (i :: rest) (List.cons_ne_nil i rest) fuel pad s (by omega)
    have hopens := (opens_characters i.2).append
      (i.1.after.1 ++ Written.ofMoreItems rest ++ (pad.1 ++ ']' :: s))
    obtain ⟨m, v⟩ := i
    simp only [Written.ofItems, List.cons_append, List.append_assoc, List.nil_append]
      at hitems hopens ⊢
    rw [value_items hopens, hitems]
    rfl
  | .object [] pad =>
    intro fuel s hs hfuel
    simp only [Written.characters, Written.ofMembers, List.nil_append, List.cons_append,
      List.append_assoc]
    exact value_empty_object pad fuel s
  | .object (m :: rest) pad =>
    intro fuel s hs hfuel
    rw [Written.characters] at hfuel ⊢
    simp only [List.length_cons, List.length_append, List.length_nil] at hfuel
    have hmembers := members_characters (m :: rest) (List.cons_ne_nil m rest) fuel pad s (by omega)
    have hopens := (opens_front m.1).append (m.2.characters ++
      (m.1.after.1 ++ Written.ofMoreMembers rest ++ (pad.1 ++ '\x7d' :: s)))
    obtain ⟨l, v⟩ := m
    simp only [Written.ofMembers, List.cons_append, List.append_assoc, List.nil_append]
      at hmembers hopens ⊢
    rw [value_members hopens, hmembers]
    rfl
termination_by structural v

theorem items_characters (is : List (Margin × Written)) (hne : is ≠ []) (fuel : Nat)
    (pad : Blanks) (s : List Char) (hfuel : 2 * (Written.ofItems is).length < fuel) :
    items fuel (Written.ofItems is ++ (pad.1 ++ ']' :: s)) =
      (Written.outlineItems is, .closed, s) := by
  match is with
  | [] => exact absurd rfl hne
  | (m, v) :: rest =>
    rw [Written.ofItems] at hfuel ⊢
    simp only [List.length_append] at hfuel
    obtain ⟨fuel, rfl⟩ : ∃ k, fuel = k + 2 := ⟨fuel - 2, by
      have := (opens_characters v).length_pos
      omega⟩
    simp only [List.append_assoc]
    rw [items_append, items_succ,
      value_characters v fuel _ (follows_item m.after rest pad s) (by omega)]
    simp only [next_append]
    cases rest with
    | nil =>
      rw [Written.ofMoreItems, List.nil_append, next_closing pad.2 (by simp)]
      rfl
    | cons i rest =>
      have hrest := items_characters (i :: rest) (List.cons_ne_nil i rest) (fuel + 1) pad s
      obtain ⟨n, u⟩ := i
      rw [Written.ofItems] at hrest
      rw [Written.ofMoreItems] at hfuel ⊢
      simp only [List.length_cons, List.length_append] at hfuel hrest
      simp only [List.cons_append, List.append_assoc] at hrest ⊢
      rw [next_comma n.before.2 (by simp) ((opens_characters u).append _)]
      simp only
      rw [← items_append n.before, hrest (by omega)]
      rfl
termination_by structural is

theorem members_characters (ms : List (Label × Written)) (hne : ms ≠ []) (fuel : Nat)
    (pad : Blanks) (s : List Char) (hfuel : 2 * (Written.ofMembers ms).length < fuel) :
    members fuel (Written.ofMembers ms ++ (pad.1 ++ '\x7d' :: s)) =
      (Written.outlineMembers ms, .closed, s) := by
  match ms with
  | [] => exact absurd rfl hne
  | (l, v) :: rest =>
    rw [Written.ofMembers] at hfuel ⊢
    simp only [List.length_append] at hfuel
    obtain ⟨fuel, rfl⟩ : ∃ k, fuel = k + 2 := ⟨fuel - 2, by
      have := (opens_characters v).length_pos
      omega⟩
    have hkey (t : List Char) : value (fuel + 1) (l.front ++ t) =
        (.text l.key.quoted, l.beforeColon.1 ++ ':' :: (l.afterColon.1 ++ t)) := by
      simp only [Label.front, List.append_assoc, List.cons_append]
      exact value_literal fuel l.key _
    simp only [List.append_assoc]
    rw [members_append, members_succ (hkey _) (colon_append _ _), value_append l.afterColon.2,
      value_characters v fuel _ (follows_member l.after rest pad s) (by omega)]
    simp only [next_append]
    cases rest with
    | nil =>
      rw [Written.ofMoreMembers, List.nil_append, next_closing pad.2 (by simp)]
      rfl
    | cons m rest =>
      have hrest := members_characters (m :: rest) (List.cons_ne_nil m rest) (fuel + 1) pad s
      obtain ⟨k, u⟩ := m
      rw [Written.ofMembers] at hrest
      rw [Written.ofMoreMembers] at hfuel ⊢
      simp only [List.length_cons, List.length_append] at hfuel hrest
      simp only [List.cons_append, List.append_assoc] at hrest ⊢
      rw [next_comma k.before.2 (by simp) ((opens_front k).append _)]
      simp only
      rw [← members_append k.before, hrest (by omega)]
      rfl
termination_by structural ms

end

end Scanner

/-- A document is scanned as the outline of its value, and only blanks are left. -/
theorem Outline.scan_document (d : Document) :
    Outline.scan d.text.toList = (d.value.outline, d.after.1) := by
  have hfollows : Scanner.Follows d.after.1 := by
    intro c hc
    exact .inl (d.after.2 c (List.mem_of_mem_head? hc))
  rw [Document.text, String.toList_ofList, scan, Scanner.value_append d.before.2]
  refine Scanner.value_characters d.value _ d.after.1 hfollows ?_
  simp only [List.length_append]
  omega

end DesignBrief
