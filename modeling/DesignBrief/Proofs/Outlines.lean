import DesignBrief.Proofs.NumberTexts

/-!
What is written is scanned as it was meant. In the text of a JSON value the scanner finds the outline
of that value, on one line or indented, `Outline.scan_write`; a number that is not finite has the
outline of `null`.
-/

namespace DesignBrief

/-! ## Strings -/

/-- How a character of a string is scanned when it was written: a control character that has no
letter of its own by its number, every other one as itself. -/
def Piece.ofChar (c : Char) : Piece :=
  if c.toNat < 0x20 ∧ c ∉ ['\x08', '\x0c', '\n', '\r', '\t'] then .unit c.toNat else .char c

def Quoted.ofString (s : String) : Quoted := ⟨s.toList.map Piece.ofChar, .closed⟩

theorem Quoted.characters_map_ofChar (cs : List Char) :
    characters .closed (cs.map Piece.ofChar) = .ok cs := by
  induction cs with
  | nil => rfl
  | cons c cs ih =>
    rw [List.map_cons, Piece.ofChar]
    split
    · rename_i hcontrol
      -- A control character is no half of a surrogate pair.
      have htrails : trails c.toNat = false := by simp [trails]; omega
      have hleads : leads c.toNat = false := by simp [leads]; omega
      rw [characters.eq_def]
      simp only [htrails, hleads, Bool.false_eq_true, if_false, ih, Except.map, Char.ofNat_toNat]
    · rw [characters, ih]
      rfl

theorem Quoted.decode_ofString (s : String) : (ofString s).decode = .ok s := by
  rw [decode, ofString, characters_map_ofChar, Except.map, String.ofList_toList]

/-- Different strings are written differently. -/
theorem Quoted.ofString_injective : Function.Injective ofString := by
  intro s t h
  have hdecode := congrArg decode h
  rw [decode_ofString, decode_ofString] at hdecode
  exact Except.ok.inj hdecode

namespace Scanner

theorem unit?_digitChar : ∀ n < 0x20,
    unit? '0' '0' (Nat.digitChar (n / 16)) (Nat.digitChar (n % 16)) = some n := by
  decide

/-- An escape is scanned as the character it stands for. -/
theorem quoted_escape (c : Char) (s : List Char) :
    quoted (Json.escape c ++ s) = onto (Piece.ofChar c) (quoted s) := by
  by_cases hletter : c ∈ ['"', '\\', '\x08', '\x0c', '\n', '\r', '\t']
  · simp only [List.mem_cons, List.not_mem_nil, or_false] at hletter
    rcases hletter with rfl | rfl | rfl | rfl | rfl | rfl | rfl <;> rfl
  · simp only [List.mem_cons, List.not_mem_nil, or_false, not_or] at hletter
    obtain ⟨hquote, hslash, hb, hf, hn, hr, ht⟩ := hletter
    by_cases hcontrol : c.toNat < 0x20
    · have hescape : Json.escape c = ['\\', 'u', '0', '0', Nat.digitChar (c.toNat / 16),
          Nat.digitChar (c.toNat % 16)] := by
        simp [Json.escape, *]
      have hpiece : Piece.ofChar c = .unit c.toNat := by
        simp [Piece.ofChar, *]
      rw [hescape, hpiece]
      show quoted ('\\' :: 'u' :: '0' :: '0' :: _ :: _ :: s) = _
      rw [quoted, unit?_digitChar c.toNat hcontrol]
    · have hpiece : Piece.ofChar c = .char c := by
        simp [Piece.ofChar, hcontrol]
      rw [Json.escape_of_plain hquote hslash (Nat.not_lt.mp hcontrol), hpiece]
      show quoted (c :: s) = _
      rw [quoted, if_neg hcontrol]
      exacts [hquote, fun _ _ _ _ _ h => absurd h hslash, fun _ h => absurd h hslash,
        fun _ _ h => absurd h hslash, fun h => absurd h hslash]

theorem quoted_flatMap_escape (cs s : List Char) :
    quoted (cs.flatMap Json.escape ++ '"' :: s) = (⟨cs.map Piece.ofChar, .closed⟩, s) := by
  induction cs with
  | nil => rfl
  | cons c cs ih =>
    rw [List.flatMap_cons, List.append_assoc, quoted_escape, ih]
    rfl

end Scanner

/-! ## Values -/

/-- What a number is scanned as when it was written; what is not finite is written `null`. -/
def Number.outline : Number → Outline
  | .integer i => .number (Number.integer i).numeral
  | .real x => if x.isFinite then .number (Number.real x).numeral else .word .null

/-- A number is written as its numeral or as `null`. -/
theorem Number.written_cases (n : Number) :
    (n.IsFinite ∧ n.outline = .number n.numeral) ∨
      (n.render = "null" ∧ n.outline = .word .null) := by
  cases n with
  | integer i => exact .inl ⟨trivial, rfl⟩
  | real x =>
    cases hx : x.isFinite with
    | true => exact .inl ⟨hx, by simp [outline, hx]⟩
    | false => exact .inr ⟨by simp [render, hx], by simp [outline, hx]⟩

mutual

/-- What a value is scanned as when it was written. -/
def Json.outline : Json → Outline
  | .null => .word .null
  | .bool b => .word (if b then .true else .false)
  | .number n => n.outline
  | .string s => .text (.ofString s)
  | .array items => .list (Json.outlineItems items) .closed
  | .object members => .object (Json.outlineMembers members) .closed
termination_by structural j => j

def Json.outlineItems : List Json → List Outline
  | [] => []
  | j :: rest => j.outline :: Json.outlineItems rest
termination_by structural items => items

def Json.outlineMembers : List (String × Json) → List (Outline × Outline)
  | [] => []
  | (k, j) :: rest => (.text (.ofString k), j.outline) :: Json.outlineMembers rest
termination_by structural members => members

end

/-- A spacing by which nothing but blanks is added. -/
structure Spacing.IsBlank (sp : Spacing) : Prop where
  line : ∀ depth, ∀ c ∈ (sp.line depth).toList, Scanner.isBlank c = true
  colon : ∃ cs, (∀ c ∈ cs, Scanner.isBlank c = true) ∧ sp.colon.toList = ':' :: cs

theorem Spacing.isBlank_compact : Spacing.compact.IsBlank where
  line _ := by simp [compact]
  colon := ⟨[], nofun, rfl⟩

namespace Scanner

theorem trim_append {b : List Char} (hb : ∀ c ∈ b, isBlank c = true) (s : List Char) :
    trim (b ++ s) = trim s :=
  List.dropWhile_append_of_pos hb

/-- What may stand behind a value. -/
def Follows (s : List Char) : Prop :=
  ∀ c ∈ s.head?, isBlank c = true ∨ c ∈ [',', ']', '\x7d']

theorem Follows.delimited {s : List Char} (h : Follows s) : Delimited s := by
  intro c hc
  rcases h c hc with hblank | hmark
  · simp only [isBlank, Bool.or_eq_true, beq_iff_eq] at hblank
    rcases hblank with ((rfl | rfl) | rfl) | rfl <;> decide
  · simp only [List.mem_cons, List.not_mem_nil, or_false] at hmark
    rcases hmark with rfl | rfl | rfl <;> decide

/-- What a value starts with is no blank and closes nothing. -/
def Opens (s : List Char) : Prop :=
  ∃ c cs, s = c :: cs ∧ isBlank c = false ∧ c ≠ ']' ∧ c ≠ '\x7d'

/-- Digits open a value, with or without a sign. -/
theorem opens_signed (negative : Bool) {ds : List Digit} (hds : ds ≠ []) (t : List Char) :
    Opens (if negative then '-' :: (ds.map Digit.toChar ++ t) else ds.map Digit.toChar ++ t) := by
  have hdigit : ∀ d : Digit, isBlank d.toChar = false ∧ d.toChar ≠ ']' ∧ d.toChar ≠ '\x7d' := by
    decide
  obtain ⟨d, ds, rfl⟩ := List.exists_cons_of_ne_nil hds
  cases negative with
  | true => exact ⟨'-', _, rfl, by decide⟩
  | false => exact ⟨d.toChar, _, rfl, hdigit d⟩

theorem opens_text {n : Numeral} (hn : n.Readable) : Opens n.text :=
  opens_signed n.negative hn.whole_ne_nil _

theorem value_digit (fuel : Nat) (d : Digit) (s : List Char) :
    value (fuel + 1) (d.toChar :: s) = number false (d.toChar :: s) := by
  fin_cases d <;> rfl

/-- Where digits stand, with or without a sign, a numeral is scanned. -/
theorem value_signed (negative : Bool) {ds : List Digit} (hds : ds ≠ []) (t s : List Char)
    (fuel : Nat) :
    value (fuel + 1)
        ((if negative then '-' :: (ds.map Digit.toChar ++ t) else ds.map Digit.toChar ++ t) ++ s) =
      number negative (ds.map Digit.toChar ++ t ++ s) := by
  obtain ⟨d, ds, rfl⟩ := List.exists_cons_of_ne_nil hds
  cases negative with
  | true => rfl
  | false => exact value_digit fuel d _

theorem value_text {s : List Char} (hs : Delimited s) {n : Numeral} (hn : n.Readable)
    (fuel : Nat) : value (fuel + 1) (n.text ++ s) = (.number n, s) := by
  rw [← number_digitsText hs hn]
  exact value_signed n.negative hn.whole_ne_nil _ s fuel

theorem opens_quote (s : String) : Opens (Json.quote s).toList := by
  rw [Json.quote, String.toList_ofList]
  exact ⟨'"', _, rfl, by decide⟩

theorem value_null (fuel : Nat) (s : List Char) :
    value (fuel + 1) ("null".toList ++ s) = (.word .null, s) := rfl

theorem value_quote (fuel : Nat) (t : String) (s : List Char) :
    value (fuel + 1) ((Json.quote t).toList ++ s) = (.text (.ofString t), s) := by
  rw [Json.quote, String.toList_ofList]
  let behind := t.toList.flatMap Json.escape ++ '"' :: s
  have hquoted : quoted behind = (Quoted.ofString t, s) := quoted_flatMap_escape t.toList s
  show value (fuel + 1) ('"' :: (t.toList.flatMap Json.escape ++ ['"'] ++ s)) = _
  rw [List.append_assoc]
  show (Outline.text (quoted behind).1, (quoted behind).2) = _
  rw [hquoted]

theorem opens_render (n : Number) : Opens n.render.toList := by
  rcases n.written_cases with ⟨hn, -⟩ | ⟨hn, -⟩
  · rw [Number.toList_render hn]
    exact opens_text (Number.readable_numeral hn)
  · rw [hn]
    exact ⟨'n', _, rfl, by decide⟩

theorem value_render {s : List Char} (hs : Follows s) (fuel : Nat) (n : Number) :
    value (fuel + 1) (n.render.toList ++ s) = (n.outline, s) := by
  rcases n.written_cases with ⟨hn, houtline⟩ | ⟨hn, houtline⟩
  · rw [Number.toList_render hn, value_text hs.delimited (Number.readable_numeral hn), houtline]
  · rw [hn, houtline, value_null]

/-! ## Lists and objects -/

theorem Opens.length_pos {s : List Char} (h : Opens s) : 0 < s.length := by
  obtain ⟨c, cs, rfl, -⟩ := h
  exact Nat.succ_pos _

theorem Opens.append {s : List Char} (h : Opens s) (t : List Char) : Opens (s ++ t) := by
  obtain ⟨c, cs, rfl, hc⟩ := h
  exact ⟨c, cs ++ t, rfl, hc⟩

theorem follows_mark {c : Char} (hc : c ∈ [',', ']', '\x7d']) (s : List Char) :
    Follows (c :: s) := by
  intro d hd
  cases Option.some.inj hd
  exact .inr hc

theorem follows_append {b : List Char} (hb : ∀ c ∈ b, isBlank c = true) {c : Char}
    (hc : c ∈ [',', ']', '\x7d']) (s : List Char) : Follows (b ++ c :: s) := by
  cases b with
  | nil => exact follows_mark hc s
  | cons e b =>
    intro d hd
    cases Option.some.inj hd
    exact .inl (hb _ List.mem_cons_self)

theorem next_closing {b : List Char} (hb : ∀ c ∈ b, isBlank c = true) {closing : Char}
    (hclosing : closing ∈ [']', '\x7d']) (s : List Char) :
    next closing (b ++ closing :: s) = .stop .closed s := by
  have hmark : ∀ c ∈ [']', '\x7d'], isBlank c = false := by
    simp [isBlank]
  unfold next
  rw [trim_append hb, trim_cons_of_not_blank (hmark closing hclosing)]
  simp

theorem next_comma {b : List Char} (hb : ∀ c ∈ b, isBlank c = true) {closing : Char}
    (hclosing : closing ∈ [']', '\x7d']) {s : List Char} (hs : Opens s) :
    next closing (',' :: (b ++ s)) = .more s := by
  have hcomma : ',' ≠ closing := by
    rintro rfl
    exact absurd hclosing (by decide)
  obtain ⟨c, cs, rfl, hblank, hlist, hobject⟩ := hs
  have hc : c ≠ closing := by
    simp only [List.mem_cons, List.not_mem_nil, or_false] at hclosing
    rcases hclosing with rfl | rfl
    · exact hlist
    · exact hobject
  unfold next
  rw [trim_cons_of_not_blank (by decide : isBlank ',' = false)]
  simp only [if_neg hcomma, if_true]
  rw [trim_append hb, trim_cons_of_not_blank hblank]
  simp only [if_neg hc]

/-- A value is found behind blanks as well. -/
theorem value_append {b : List Char} (hb : ∀ c ∈ b, isBlank c = true) (fuel : Nat)
    (s : List Char) : value fuel (b ++ s) = value fuel s := by
  cases fuel with
  | zero => rfl
  | succ fuel => rw [value, value, trim_append hb]

theorem value_list {s : List Char} (hs : Opens s) {b : List Char}
    (hb : ∀ c ∈ b, isBlank c = true) (fuel : Nat) :
    value (fuel + 1) ('[' :: (b ++ s)) =
      (.list (items fuel s).1 (items fuel s).2.1, (items fuel s).2.2) := by
  obtain ⟨c, cs, rfl, hblank, hlist, -⟩ := hs
  rw [value, trim_cons_of_not_blank (by decide : isBlank '[' = false)]
  simp only [trim_append hb, trim_cons_of_not_blank hblank]
  split
  · rename_i h; cases h
  · rename_i h; cases h
    exact absurd rfl hlist
  · rfl

theorem value_object {s : List Char} (hs : Opens s) {b : List Char}
    (hb : ∀ c ∈ b, isBlank c = true) (fuel : Nat) :
    value (fuel + 1) ('\x7b' :: (b ++ s)) =
      (.object (members fuel s).1 (members fuel s).2.1, (members fuel s).2.2) := by
  obtain ⟨c, cs, rfl, hblank, -, hobject⟩ := hs
  rw [value, trim_cons_of_not_blank (by decide : isBlank '\x7b' = false)]
  simp only [trim_append hb, trim_cons_of_not_blank hblank]
  split
  · rename_i h; cases h
  · rename_i h; cases h
    exact absurd rfl hobject
  · rfl

/-- One item in front of what follows it. -/
theorem items_succ (fuel : Nat) (s : List Char) :
    items (fuel + 1) s =
      match next ']' (value fuel s).2 with
      | .stop stop t => ([(value fuel s).1], stop, t)
      | .more t => ((value fuel s).1 :: (items fuel t).1, (items fuel t).2) := rfl

/-- One member in front of what follows it. -/
theorem members_succ {fuel : Nat} {s t u : List Char} {q : Quoted}
    (hkey : value fuel s = (.text q, t)) (hcolon : colon t = .ok u) :
    members (fuel + 1) s =
      match next '\x7d' (value fuel u).2 with
      | .stop stop v => ([(.text q, (value fuel u).1)], stop, v)
      | .more v =>
        ((.text q, (value fuel u).1) :: (members fuel v).1, (members fuel v).2) := by
  rw [members, hkey]
  dsimp only
  generalize colon t = after at hcolon ⊢
  subst hcolon
  rfl

end Scanner

namespace Spacing

/-- The parts of a list or an object with what stands between them. -/
def joined (sp : Spacing) (depth : Nat) (texts : List String) : List Char :=
  (("," ++ sp.line depth).intercalate texts).toList

theorem joined_singleton (sp : Spacing) (depth : Nat) (t : String) :
    sp.joined depth [t] = t.toList := by
  rw [joined, String.intercalate_singleton]

theorem joined_cons_cons (sp : Spacing) (depth : Nat) (t u : String) (texts : List String) :
    sp.joined depth (t :: u :: texts) =
      t.toList ++ ',' :: ((sp.line depth).toList ++ sp.joined depth (u :: texts)) := by
  rw [joined, String.intercalate_cons_cons]
  simp [joined]

theorem toList_enclose_nil (sp : Spacing) (depth : Nat) (opening closing : String) :
    (sp.enclose depth opening closing []).toList = opening.toList ++ closing.toList :=
  String.toList_append

theorem toList_enclose_cons (sp : Spacing) (depth : Nat) (opening closing t : String)
    (texts : List String) :
    (sp.enclose depth opening closing (t :: texts)).toList =
      opening.toList ++ ((sp.line (depth + 1)).toList ++ (sp.joined (depth + 1) (t :: texts) ++
        ((sp.line depth).toList ++ closing.toList))) := by
  simp [enclose, joined]

end Spacing

namespace Json

theorem toList_write_array (sp : Spacing) (depth : Nat) (j : Json) (rest : List Json) :
    (write sp depth (.array (j :: rest))).toList =
      '[' :: ((sp.line (depth + 1)).toList ++
        (sp.joined (depth + 1) (writeItems sp (depth + 1) (j :: rest)) ++
          ((sp.line depth).toList ++ [']']))) := by
  rw [write, writeItems, Spacing.toList_enclose_cons]
  rfl

theorem toList_write_object (sp : Spacing) (depth : Nat) (m : String × Json)
    (rest : List (String × Json)) :
    (write sp depth (.object (m :: rest))).toList =
      '\x7b' :: ((sp.line (depth + 1)).toList ++
        (sp.joined (depth + 1) (writeMembers sp (depth + 1) (m :: rest)) ++
          ((sp.line depth).toList ++ ['\x7d']))) := by
  obtain ⟨k, j⟩ := m
  rw [write, writeMembers, Spacing.toList_enclose_cons]
  rfl

end Json

namespace Scanner

theorem opens_write (sp : Spacing) (depth : Nat) (j : Json) :
    Opens (Json.write sp depth j).toList := by
  cases j with
  | null =>
    rw [Json.write]
    exact ⟨'n', _, rfl, by decide⟩
  | bool b =>
    rw [Json.write]
    cases b
    · exact ⟨'f', _, rfl, by decide⟩
    · exact ⟨'t', _, rfl, by decide⟩
  | number n => exact opens_render n
  | string s => exact opens_quote s
  | array items =>
    cases items with
    | nil =>
      rw [Json.write, Json.writeItems, Spacing.toList_enclose_nil]
      exact ⟨'[', _, rfl, by decide⟩
    | cons j rest =>
      rw [Json.toList_write_array]
      exact ⟨'[', _, rfl, by decide⟩
  | object members =>
    cases members with
    | nil =>
      rw [Json.write, Json.writeMembers, Spacing.toList_enclose_nil]
      exact ⟨'\x7b', _, rfl, by decide⟩
    | cons m rest =>
      rw [Json.toList_write_object]
      exact ⟨'\x7b', _, rfl, by decide⟩

theorem opens_joined (sp : Spacing) (depth : Nat) {t : String} (ht : Opens t.toList)
    (texts : List String) : Opens (sp.joined depth (t :: texts)) := by
  cases texts with
  | nil =>
    rw [Spacing.joined_singleton]
    exact ht
  | cons u texts =>
    rw [Spacing.joined_cons_cons]
    exact ht.append _

theorem opens_joined_items (sp : Spacing) (depth : Nat) (j : Json) (rest : List Json) :
    Opens (sp.joined depth (Json.writeItems sp depth (j :: rest))) :=
  opens_joined sp depth (opens_write sp depth j) _

theorem opens_joined_members (sp : Spacing) (depth : Nat) (m : String × Json)
    (rest : List (String × Json)) :
    Opens (sp.joined depth (Json.writeMembers sp depth (m :: rest))) := by
  refine opens_joined sp depth ?_ _
  rw [String.append_assoc, String.toList_append]
  exact (opens_quote m.1).append _

variable {sp : Spacing} (hsp : sp.IsBlank)

include hsp

mutual

/-- The text of a value is scanned as its outline. The fuel that the scanner is given is twice the
length of the text, of which every bracket, comma and character of a value pays for its own step. -/
theorem value_write (j : Json) : ∀ (depth fuel : Nat) (s : List Char), Follows s →
    2 * (Json.write sp depth j).toList.length ≤ fuel + 1 →
    value (fuel + 1) ((Json.write sp depth j).toList ++ s) = (j.outline, s) := by
  match j with
  | .null =>
    intro depth fuel s hs hfuel
    rw [Json.write]
    rfl
  | .bool b =>
    intro depth fuel s hs hfuel
    rw [Json.write]
    cases b <;> rfl
  | .number n => exact fun _ fuel _ hs _ => value_render hs fuel n
  | .string t => exact fun _ fuel s _ _ => value_quote fuel t s
  | .array [] =>
    intro depth fuel s hs hfuel
    rw [Json.write, Json.writeItems, Spacing.toList_enclose_nil]
    rfl
  | .array (j :: rest) =>
    intro depth fuel s hs hfuel
    rw [Json.toList_write_array] at hfuel ⊢
    simp only [List.length_cons, List.length_append, List.length_nil] at hfuel
    have hitems := items_write (j :: rest) (List.cons_ne_nil j rest) (depth + 1) fuel
      (sp.line depth).toList s (hsp.line depth) (by omega)
    simp only [List.cons_append, List.append_assoc, List.nil_append]
    rw [value_list ((opens_joined_items sp (depth + 1) j rest).append _) (hsp.line (depth + 1)),
      hitems]
    rfl
  | .object [] =>
    intro depth fuel s hs hfuel
    rw [Json.write, Json.writeMembers, Spacing.toList_enclose_nil]
    rfl
  | .object (m :: rest) =>
    intro depth fuel s hs hfuel
    rw [Json.toList_write_object] at hfuel ⊢
    simp only [List.length_cons, List.length_append, List.length_nil] at hfuel
    have hmembers := members_write (m :: rest) (List.cons_ne_nil m rest) (depth + 1) fuel
      (sp.line depth).toList s (hsp.line depth) (by omega)
    simp only [List.cons_append, List.append_assoc, List.nil_append]
    rw [value_object ((opens_joined_members sp (depth + 1) m rest).append _)
      (hsp.line (depth + 1)), hmembers]
    rfl
termination_by structural j

theorem items_write (items : List Json) (hne : items ≠ []) (depth fuel : Nat) (b s : List Char)
    (hb : ∀ c ∈ b, isBlank c = true)
    (hfuel : 2 * (sp.joined depth (Json.writeItems sp depth items)).length < fuel) :
    Scanner.items fuel (sp.joined depth (Json.writeItems sp depth items) ++ (b ++ ']' :: s)) =
      (Json.outlineItems items, .closed, s) := by
  match items with
  | [] => exact absurd rfl hne
  | j :: rest =>
    obtain ⟨fuel, rfl⟩ : ∃ k, fuel = k + 2 := ⟨fuel - 2, by
      have := (opens_joined_items sp depth j rest).length_pos
      omega⟩
    rw [Json.writeItems] at hfuel ⊢
    rw [items_succ, Json.outlineItems]
    cases rest with
    | nil =>
      rw [Json.writeItems, Spacing.joined_singleton] at hfuel ⊢
      rw [value_write j depth fuel _ (follows_append hb (by simp) s) (by omega),
        next_closing hb (by simp)]
      rfl
    | cons i rest =>
      have hrest := items_write (i :: rest) (List.cons_ne_nil i rest) depth (fuel + 1) b s hb
      have hopens := opens_joined_items sp depth i rest
      rw [Json.writeItems, Spacing.joined_cons_cons, ← Json.writeItems] at hfuel ⊢
      simp only [List.length_cons, List.length_append] at hfuel
      rw [List.append_assoc, List.cons_append, List.append_assoc,
        value_write j depth fuel _ (follows_mark (by simp) _) (by omega),
        next_comma (hsp.line depth) (by simp) (hopens.append _)]
      simp only
      rw [hrest (by omega)]
termination_by structural items

theorem members_write (members : List (String × Json)) (hne : members ≠ []) (depth fuel : Nat)
    (b s : List Char) (hb : ∀ c ∈ b, isBlank c = true)
    (hfuel : 2 * (sp.joined depth (Json.writeMembers sp depth members)).length < fuel) :
    Scanner.members fuel
        (sp.joined depth (Json.writeMembers sp depth members) ++ (b ++ '\x7d' :: s)) =
      (Json.outlineMembers members, .closed, s) := by
  match members with
  | [] => exact absurd rfl hne
  | (k, j) :: rest =>
    obtain ⟨fuel, rfl⟩ : ∃ l, fuel = l + 2 := ⟨fuel - 2, by
      have := (opens_joined_members sp depth (k, j) rest).length_pos
      omega⟩
    obtain ⟨cs, hcs, hcolon⟩ := hsp.colon
    have hmember (t : List Char) (ht : Follows t)
        (hlength : 2 * (Json.write sp depth j).toList.length ≤ fuel + 1) :
        Scanner.members (fuel + 2)
            ((Json.quote k ++ sp.colon ++ Json.write sp depth j).toList ++ t) =
          match next '\x7d' t with
          | .stop stop v => ([(.text (.ofString k), j.outline)], stop, v)
          | .more v => ((.text (.ofString k), j.outline) :: (Scanner.members (fuel + 1) v).1,
              (Scanner.members (fuel + 1) v).2) := by
      have hbehind (u : List Char) : colon (':' :: (cs ++ u)) = .ok (cs ++ u) := rfl
      simp only [String.toList_append, List.append_assoc, hcolon, List.cons_append]
      rw [members_succ (value_quote fuel k _) (hbehind _), value_append hcs,
        value_write j depth fuel t ht hlength]
    rw [Json.outlineMembers]
    rw [Json.writeMembers] at hfuel ⊢
    cases rest with
    | nil =>
      rw [Json.writeMembers, Spacing.joined_singleton] at hfuel ⊢
      simp only [String.toList_append, List.length_append] at hfuel
      rw [hmember _ (follows_append hb (by simp) s) (by omega), next_closing hb (by simp)]
      rfl
    | cons m rest =>
      have hrest := members_write (m :: rest) (List.cons_ne_nil m rest) depth (fuel + 1) b s hb
      have hopens := opens_joined_members sp depth m rest
      obtain ⟨l, i⟩ := m
      rw [Json.writeMembers, Spacing.joined_cons_cons, ← Json.writeMembers] at hfuel ⊢
      simp only [String.toList_append, List.length_cons, List.length_append] at hfuel
      rw [List.append_assoc, List.cons_append, List.append_assoc,
        hmember _ (follows_mark (by simp) _) (by omega),
        next_comma (hsp.line depth) (by simp) (hopens.append _)]
      simp only
      rw [hrest (by omega)]
termination_by structural members

end

end Scanner

/-- The whole text of a value is scanned as the outline of that value. -/
theorem Outline.scan_write {sp : Spacing} (hsp : sp.IsBlank) (j : Json) :
    Outline.scan (Json.write sp 0 j).toList = (j.outline, []) := by
  have hvalue := Scanner.value_write hsp j 0 (2 * (Json.write sp 0 j).toList.length + 1) [] nofun
    (by omega)
  rwa [List.append_nil] at hvalue

end DesignBrief
