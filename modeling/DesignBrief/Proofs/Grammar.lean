import DesignBrief.Proofs.Reading
import DesignBrief.Proofs.Spelling

/-!
What the scanner reads was written. If the outline of a text can be skipped, the text is that of a
document, `Document.exists_of_skip`: the scanner and the grammar of texts admit the same.
-/

namespace DesignBrief

/-! ## Tokens -/

theorem Digit.toChar_of_ofChar? {c : Char} {d : Digit} (h : ofChar? c = some d) :
    d.toChar = c := by
  have hdigit : c.isDigit = true := by
    unfold ofChar? at h
    split at h
    · rename_i hc
      exact Bool.and_eq_true_iff.mpr ⟨decide_eq_true hc.1, decide_eq_true hc.2⟩
    · cases h
  obtain ⟨e, rfl⟩ := exists_toChar hdigit
  rw [ofChar?_toChar] at h
  rw [Option.some.inj h]

namespace Scanner

theorem exists_trim (s : List Char) : ∃ b : Blanks, s = b.1 ++ trim s :=
  ⟨⟨s.takeWhile isBlank, fun _ => List.mem_takeWhile_imp⟩, List.takeWhile_append_dropWhile.symm⟩

theorem eq_of_digits {s rest : List Char} {ds : List Digit} (h : digits s = (ds, rest)) :
    s = ds.map Digit.toChar ++ rest := by
  induction s generalizing ds with
  | nil =>
    cases h
    rfl
  | cons c s ih =>
    unfold digits at h
    split at h
    · cases h
      rfl
    · rename_i d hd
      cases h
      rw [List.map_cons, List.cons_append, ← ih rfl, Digit.toChar_of_ofChar? hd]

theorem eq_of_word {w : Word} {cs s rest : List Char} {o : Outline} (h : word w cs s = (o, rest))
    (hskip : o.skip = .ok ()) : s = cs ++ rest ∧ o = .word w := by
  induction cs generalizing s with
  | nil =>
    cases h
    exact ⟨rfl, rfl⟩
  | cons c cs ih =>
    cases s with
    | nil =>
      cases h
      cases hskip
    | cons d s =>
      rw [word] at h
      split at h
      · rename_i hcd
        obtain ⟨hs, ho⟩ := ih h
        exact ⟨by rw [hcd, hs, List.cons_append], ho⟩
      · cases h
        cases hskip

theorem exists_exponent {n : Numeral} {s rest : List Char} {o : Outline}
    (h : exponent n s = (o, rest)) (hskip : o.skip = .ok ()) :
    ∃ plus down ds, ds ≠ [] ∧ s = Numeral.signSpelling plus down ++ ds.map Digit.toChar ++ rest ∧
      o = .number { n with exponent := some (down, ds) } := by
  unfold exponent at h
  split at h
  rename_i down t heq
  have hsign : ∃ plus, s = Numeral.signSpelling plus down ++ t := by
    split at heq
    · cases heq
      exact ⟨true, rfl⟩
    · cases heq
      exact ⟨true, rfl⟩
    · cases heq
      exact ⟨false, rfl⟩
  obtain ⟨plus, hs⟩ := hsign
  -- Behind the sign, if there is one, there are digits.
  split at h
  · cases h
    cases hskip
  · rename_i ds u hne hd
    cases h
    refine ⟨plus, down, ds, hne, ?_, rfl⟩
    rw [hs, eq_of_digits hd, List.append_assoc]

theorem exists_afterDigits {n : Numeral} {s rest : List Char} {o : Outline}
    (hn : n.exponent = none) (h : afterDigits n s = (o, rest)) (hskip : o.skip = .ok ()) :
    ∃ capital plus e, (∀ f ∈ e, f.2 ≠ []) ∧
      s = Numeral.exponentSpelling capital plus e ++ rest ∧
      o = .number { n with exponent := e } := by
  have hmark (capital : Bool) (t : List Char) (ht : exponent n t = (o, rest)) :
      ∃ plus e, (∀ f ∈ e, f.2 ≠ []) ∧ (if capital then 'E' else 'e') :: t =
        Numeral.exponentSpelling capital plus e ++ rest ∧
        o = .number { n with exponent := e } := by
    obtain ⟨plus, down, ds, hds, rfl, ho⟩ := exists_exponent ht hskip
    exact ⟨plus, some (down, ds), fun f hf => Option.some.inj hf ▸ hds, rfl, ho⟩
  unfold afterDigits at h
  split at h
  · exact ⟨false, hmark false _ h⟩
  · exact ⟨true, hmark true _ h⟩
  · cases h
    exact ⟨false, false, none, nofun, rfl, by rw [← hn]⟩

theorem exists_afterWhole {n : Numeral} {s rest : List Char} {o : Outline}
    (hfraction : n.fraction = []) (hn : n.exponent = none) (h : afterWhole n s = (o, rest))
    (hskip : o.skip = .ok ()) :
    ∃ fraction capital plus e, (∀ f ∈ e, f.2 ≠ []) ∧
      s = Numeral.fractionText fraction ++ (Numeral.exponentSpelling capital plus e ++ rest) ∧
      o = .number { n with fraction := fraction, exponent := e } := by
  unfold afterWhole at h
  split at h
  · split at h
    · cases h
      cases hskip
    · rename_i t ds u hne hd
      obtain ⟨capital, plus, e, he, rfl, rfl⟩ :=
        exists_afterDigits (n := { n with fraction := ds }) hn h hskip
      obtain ⟨d, ds, rfl⟩ := List.exists_cons_of_ne_nil hne
      exact ⟨d :: ds, capital, plus, e, he, by rw [eq_of_digits hd]; rfl, rfl⟩
  · obtain ⟨capital, plus, e, he, rfl, rfl⟩ := exists_afterDigits hn h hskip
    exact ⟨[], capital, plus, e, he, rfl, by rw [← hfraction]⟩

theorem exists_figure {negative : Bool} {s rest : List Char} {o : Outline}
    (h : number negative s = (o, rest)) (hskip : o.skip = .ok ()) :
    ∃ f : Figure, f.numeral.negative = negative ∧ s = f.digitsText ++ rest ∧
      o = .number f.numeral := by
  unfold number at h
  split at h
  · cases h
    cases hskip
  · cases h
    cases hskip
  · rename_i ds t hnil hzero hd
    obtain ⟨fraction, capital, plus, e, he, rfl, rfl⟩ := exists_afterWhole rfl rfl h hskip
    have hwhole : ds = [0] ∨ ∃ d es, d ≠ 0 ∧ ds = d :: es := by
      obtain ⟨d, es, rfl⟩ := List.exists_cons_of_ne_nil hnil
      by_cases hd : d = 0
      · subst hd
        cases es with
        | nil => exact .inl rfl
        | cons c es => exact absurd rfl (hzero c es)
      · exact .inr ⟨d, es, hd, rfl⟩
    let n : Numeral := { negative, whole := ds, fraction, exponent := e }
    refine ⟨⟨n, ⟨hwhole, he⟩, capital, plus⟩, rfl, ?_, rfl⟩
    rw [eq_of_digits hd, Figure.digitsText, List.append_assoc, List.append_assoc]

theorem closed_of_check {stop : QuoteEnd} (h : stop.check = .ok ()) : stop = .closed := by
  cases stop <;> first | rfl | cases h

theorem exists_literal {s : List Char} (h : (quoted s).1.stop = .closed) :
    ∃ (l : Literal) (rest : List Char), s = l.behindQuote ++ rest := by
  have hcons (i : Spelling) {t : List Char}
      (ht : ∃ (l : Literal) (rest : List Char), t = l.behindQuote ++ rest) :
      ∃ (l : Literal) (rest : List Char), i.text ++ t = l.behindQuote ++ rest := by
    obtain ⟨l, rest, rfl⟩ := ht
    exact ⟨i :: l, rest, (behindQuote_cons_append i l rest).symm⟩
  fun_induction quoted s with
  | case2 s => exact ⟨[], s, rfl⟩
  | case3 a b c d s n hn ih => exact hcons (.hex a b c d n hn) (ih h)
  | case5 s =>
    change cutHex s = .closed at h
    unfold cutHex at h
    split at h <;> cases h
  | case6 c s _ _ d hd ih => exact hcons (.letter c d hd) (ih h)
  | case10 c s hquote _ _ hslash hlast hcontrol ih =>
    have hplain : isPlain c = true := by
      have hbackslash : c ≠ '\\' := by
        intro hc
        cases s with
        | nil => exact hlast hc rfl
        | cons d s => exact hslash d s hc rfl
      simp only [isPlain, Bool.and_eq_true, bne_iff_ne, decide_eq_true_eq]
      exact ⟨⟨hquote, hbackslash⟩, Nat.not_lt.mp hcontrol⟩
    exact hcons (.plain c hplain) (ih h)
  | _ => cases h

theorem eq_of_next_more {closing : Char} {s t : List Char} (h : next closing s = .more t) :
    ∃ b c : Blanks, s = b.1 ++ ',' :: (c.1 ++ t) := by
  obtain ⟨b, hb⟩ := exists_trim s
  unfold next at h
  split at h
  · cases h
  · rename_i c u hu
    split at h
    · cases h
    · split at h
      · rename_i hcomma
        obtain ⟨c, hc⟩ := exists_trim u
        split at h
        · cases h
        · rename_i d v hv
          split at h
          · cases h
          · cases h
            exact ⟨b, c, by rw [hb, hu, hcomma, hc, hv]⟩
      · cases h

theorem eq_of_next_closed {closing : Char} {s t : List Char}
    (h : next closing s = .stop .closed t) : ∃ b : Blanks, s = b.1 ++ closing :: t := by
  obtain ⟨b, hb⟩ := exists_trim s
  unfold next at h
  split at h
  · cases h
  · rename_i c u hu
    split at h
    · rename_i hclosing
      cases h
      exact ⟨b, by rw [hb, hu, hclosing]⟩
    · split at h
      · split at h
        · cases h
        · split at h <;> cases h
      · cases h

theorem eq_of_colon {s t : List Char} (h : colon s = .ok t) :
    ∃ b : Blanks, s = b.1 ++ ':' :: t := by
  obtain ⟨b, hb⟩ := exists_trim s
  unfold colon at h
  split at h
  · cases h
  · rename_i u hu
    cases h
    exact ⟨b, by rw [hb, hu]⟩
  · cases h

/-! ## Values -/

/-- With so much fuel, the scanner finds only written values, if they can be skipped. -/
def FindsValues (fuel : Nat) : Prop :=
  ∀ s o rest, value fuel s = (o, rest) → o.skip = .ok () →
    ∃ (b : Blanks) (v : Written), s = b.1 ++ (v.characters ++ rest) ∧ v.outline = o

def FindsItems (fuel : Nat) : Prop :=
  ∀ s os stop rest, items fuel s = (os, stop, rest) → Outline.skipItems os = .ok () →
    stop.inSkippedList = .ok () → stop = .closed ∧ ∃ (is : List (Margin × Written)) (pad : Blanks),
      is ≠ [] ∧ s = Written.ofItems is ++ (pad.1 ++ ']' :: rest) ∧ Written.outlineItems is = os

def FindsMembers (fuel : Nat) : Prop :=
  ∀ s os stop rest, members fuel s = (os, stop, rest) → Outline.skipMembers os = .ok () →
    stop.inSkippedObject = .ok () →
      stop = .closed ∧ ∃ (ms : List (Label × Written)) (pad : Blanks),
        ms ≠ [] ∧ s = Written.ofMembers ms ++ (pad.1 ++ '\x7d' :: rest) ∧
          Written.outlineMembers ms = os

theorem exists_ofItems_append (b : Blanks) {is : List (Margin × Written)} (hne : is ≠ []) :
    ∃ js, Written.ofItems js = b.1 ++ Written.ofItems is ∧
      Written.ofMoreItems js = ',' :: (b.1 ++ Written.ofItems is) ∧
      Written.outlineItems js = Written.outlineItems is := by
  obtain ⟨⟨m, v⟩, is, rfl⟩ := List.exists_cons_of_ne_nil hne
  refine ⟨({ m with before := b.append m.before }, v) :: is, ?_, ?_, rfl⟩
  · rw [Written.ofItems, Written.ofItems, Blanks.append, List.append_assoc]
  · rw [Written.ofMoreItems, Written.ofItems, Blanks.append, List.append_assoc]

theorem exists_ofMembers_append (b : Blanks) {ms : List (Label × Written)} (hne : ms ≠ []) :
    ∃ ns, Written.ofMembers ns = b.1 ++ Written.ofMembers ms ∧
      Written.ofMoreMembers ns = ',' :: (b.1 ++ Written.ofMembers ms) ∧
      Written.outlineMembers ns = Written.outlineMembers ms := by
  obtain ⟨⟨l, v⟩, ms, rfl⟩ := List.exists_cons_of_ne_nil hne
  refine ⟨({ l with before := b.append l.before }, v) :: ms, ?_, ?_, rfl⟩
  · rw [Written.ofMembers, Written.ofMembers, Blanks.append, List.append_assoc]
    rfl
  · rw [Written.ofMoreMembers, Written.ofMembers, Blanks.append, List.append_assoc]
    rfl

/-- A list behind its opening bracket. -/
theorem FindsItems.exists_list {fuel : Nat} (h : FindsItems fuel) {s rest : List Char}
    {o : Outline}
    (hs : (match trim s with
      | [] => (Outline.list [] .ended, [])
      | ']' :: s => (.list [] .closed, s)
      | s => let (items, stop, s) := items fuel s; (.list items stop, s)) = (o, rest))
    (hskip : o.skip = .ok ()) :
    ∃ v : Written, '[' :: s = v.characters ++ rest ∧ v.outline = o := by
  obtain ⟨b, hb⟩ := exists_trim s
  generalize trim s = t at hs hb
  subst hb
  split at hs
  · cases hs
    cases hskip
  · cases hs
    refine ⟨.list [] b, ?_, rfl⟩
    simp [Written.characters, Written.ofItems]
  · generalize hfound : items fuel t = found at hs
    obtain ⟨os, stop, u⟩ := found
    cases hs
    obtain ⟨_, hitems, hstop⟩ := bind_eq_ok_iff.mp hskip
    obtain ⟨hclosed, is, pad, hne, hchars, houtline⟩ := h _ _ _ _ hfound hitems hstop
    obtain ⟨js, hjs, -, hsame⟩ := exists_ofItems_append b hne
    refine ⟨.list js pad, ?_, ?_⟩
    · rw [hchars, Written.characters, hjs]
      simp
    · rw [Written.outline, hsame, houtline, hclosed]

/-- An object behind its opening bracket. -/
theorem FindsMembers.exists_object {fuel : Nat} (h : FindsMembers fuel) {s rest : List Char}
    {o : Outline}
    (hs : (match trim s with
      | [] => (Outline.object [] .ended, [])
      | '\x7d' :: s => (.object [] .closed, s)
      | s => let (members, stop, s) := members fuel s; (.object members stop, s)) = (o, rest))
    (hskip : o.skip = .ok ()) :
    ∃ v : Written, '\x7b' :: s = v.characters ++ rest ∧ v.outline = o := by
  obtain ⟨b, hb⟩ := exists_trim s
  generalize trim s = t at hs hb
  subst hb
  split at hs
  · cases hs
    cases hskip
  · cases hs
    refine ⟨.object [] b, ?_, rfl⟩
    simp [Written.characters, Written.ofMembers]
  · generalize hfound : members fuel t = found at hs
    obtain ⟨os, stop, u⟩ := found
    cases hs
    obtain ⟨_, hmembers, hstop⟩ := bind_eq_ok_iff.mp hskip
    obtain ⟨hclosed, ms, pad, hne, hchars, houtline⟩ := h _ _ _ _ hfound hmembers hstop
    obtain ⟨ns, hns, -, hsame⟩ := exists_ofMembers_append b hne
    refine ⟨.object ns pad, ?_, ?_⟩
    · rw [hchars, Written.characters, hns]
      simp
    · rw [Written.outline, hsame, houtline, hclosed]

theorem findsValues_succ {fuel : Nat} (hi : FindsItems fuel) (hm : FindsMembers fuel) :
    FindsValues (fuel + 1) := by
  intro s o rest h hskip
  obtain ⟨b, hb⟩ := exists_trim s
  suffices hvalue : ∃ v : Written, trim s = v.characters ++ rest ∧ v.outline = o by
    obtain ⟨v, hv, ho⟩ := hvalue
    exact ⟨b, v, hv ▸ hb, ho⟩
  rw [value] at h
  split at h
  · cases h
    cases hskip
  · rename_i t ht
    obtain ⟨rfl, rfl⟩ := eq_of_word h hskip
    exact ⟨.word .null, ht, rfl⟩
  · rename_i t ht
    obtain ⟨rfl, rfl⟩ := eq_of_word h hskip
    exact ⟨.word .true, ht, rfl⟩
  · rename_i t ht
    obtain ⟨rfl, rfl⟩ := eq_of_word h hskip
    exact ⟨.word .false, ht, rfl⟩
  · rename_i t ht
    cases h
    obtain ⟨l, u, rfl⟩ := exists_literal (closed_of_check hskip)
    rw [quoted_literal]
    exact ⟨.text l, ht, rfl⟩
  · rename_i t ht
    obtain ⟨f, hnegative, rfl, rfl⟩ := exists_figure h hskip
    refine ⟨.number f, ?_, rfl⟩
    rw [ht, Written.characters, Figure.text, if_pos hnegative]
    rfl
  · rename_i t ht
    rw [ht]
    exact hi.exists_list h hskip
  · rename_i t ht
    rw [ht]
    exact hm.exists_object h hskip
  · rename_i c t _ _ _ _ _ _ _ ht
    split at h
    · obtain ⟨f, hnegative, hf, rfl⟩ := exists_figure h hskip
      refine ⟨.number f, ?_, rfl⟩
      rw [ht, hf, Written.characters, Figure.text, hnegative]
      rfl
    · cases h
      cases hskip

theorem findsItems_succ {fuel : Nat} (hv : FindsValues fuel) (hi : FindsItems fuel) :
    FindsItems (fuel + 1) := by
  intro s os stop rest h hskip hstop
  rw [items_succ] at h
  split at h
  · rename_i stop' t ht
    cases h
    obtain ⟨_, ho, -⟩ := bind_eq_ok_iff.mp hskip
    obtain ⟨b, v, hs, houtline⟩ := hv _ _ _ rfl ho
    cases stop with
    | closed =>
      obtain ⟨c, hc⟩ := eq_of_next_closed ht
      refine ⟨rfl, [(⟨b, c⟩, v)], .none, List.cons_ne_nil _ _, ?_, ?_⟩
      · rw [hs, hc]
        simp [Written.ofItems, Written.ofMoreItems, Blanks.none]
      · simp only [Written.outlineItems, houtline]
    | _ => cases hstop
  · rename_i t ht
    generalize hfound : items fuel t = found at h
    obtain ⟨more, stop', u⟩ := found
    cases h
    obtain ⟨_, ho, hrest⟩ := bind_eq_ok_iff.mp hskip
    obtain ⟨b, v, hs, houtline⟩ := hv _ _ _ rfl ho
    obtain ⟨hclosed, is, pad, hne, hchars, his⟩ := hi _ _ _ _ hfound hrest hstop
    obtain ⟨c, d, hcd⟩ := eq_of_next_more ht
    obtain ⟨js, -, hmore, hsame⟩ := exists_ofItems_append d hne
    refine ⟨hclosed, (⟨b, c⟩, v) :: js, pad, List.cons_ne_nil _ _, ?_, ?_⟩
    · rw [hs, hcd, hchars, Written.ofItems, hmore]
      simp
    · simp only [Written.outlineItems, houtline, hsame, his]

/-- A key behind its blanks. -/
theorem FindsValues.exists_key {fuel : Nat} (h : FindsValues fuel) {s rest : List Char} {q : Quoted}
    (hs : value fuel s = (.text q, rest)) (hskip : q.skip = .ok ()) :
    ∃ (b : Blanks) (l : Literal), s = b.1 ++ (l.text ++ rest) ∧ l.quoted = q := by
  obtain ⟨b, v, hchars, houtline⟩ := h s _ _ hs hskip
  cases v with
  | text l => exact ⟨b, l, hchars, Outline.text.inj houtline⟩
  | _ => cases houtline

/-- A member, whatever blanks are behind it. -/
theorem FindsValues.exists_member {fuel : Nat} (h : FindsValues fuel) {s t u : List Char}
    {q : Quoted} (hkey : value fuel s = (.text q, t)) (hcolon : colon t = .ok u)
    (hq : q.skip = .ok ()) (ho : (value fuel u).1.skip = .ok ()) (after : Blanks) :
    ∃ (l : Label) (v : Written), l.after = after ∧
      s = l.before.1 ++ (l.front ++ (v.characters ++ (value fuel u).2)) ∧
      l.key.quoted = q ∧ v.outline = (value fuel u).1 := by
  obtain ⟨before, key, hs, hk⟩ := h.exists_key hkey hq
  obtain ⟨beforeColon, hu⟩ := eq_of_colon hcolon
  obtain ⟨afterColon, v, hchars, houtline⟩ := h u _ _ rfl ho
  refine ⟨⟨before, key, beforeColon, afterColon, after⟩, v, rfl, ?_, hk, houtline⟩
  rw [hs, hu, Label.front]
  simp [← hchars]

theorem findsMembers_succ {fuel : Nat} (hv : FindsValues fuel) (hm : FindsMembers fuel) :
    FindsMembers (fuel + 1) := by
  intro s os stop rest hmembers hskip hstop
  have h := hmembers
  rw [members] at h
  split at h
  · rename_i q t hkey
    split at h
    · cases h
      cases hstop
    · rename_i u hcolon
      rw [members_succ hkey hcolon] at hmembers
      split at hmembers
      · rename_i stop' w ht
        cases hmembers
        obtain ⟨_, hq, hskip⟩ := bind_eq_ok_iff.mp hskip
        obtain ⟨_, ho, -⟩ := bind_eq_ok_iff.mp hskip
        cases stop with
        | closed =>
          obtain ⟨c, hc⟩ := eq_of_next_closed ht
          obtain ⟨l, v, hafter, hs, hk, houtline⟩ := hv.exists_member hkey hcolon hq ho c
          refine ⟨rfl, [(l, v)], .none, List.cons_ne_nil _ _, ?_, ?_⟩
          · rw [hs, hc, ← hafter]
            simp [Written.ofMembers, Written.ofMoreMembers, Blanks.none]
          · simp only [Written.outlineMembers, houtline, hk]
        | _ => cases hstop
      · rename_i w ht
        generalize hfound : members fuel w = found at hmembers
        obtain ⟨more, stop', x⟩ := found
        cases hmembers
        obtain ⟨_, hq, hskip⟩ := bind_eq_ok_iff.mp hskip
        obtain ⟨_, ho, hrest⟩ := bind_eq_ok_iff.mp hskip
        obtain ⟨hclosed, ms, pad, hne, hchars, hms⟩ := hm _ _ _ _ hfound hrest hstop
        obtain ⟨c, d, hcd⟩ := eq_of_next_more ht
        obtain ⟨ns, -, hmore, hsame⟩ := exists_ofMembers_append d hne
        obtain ⟨l, v, hafter, hs, hk, houtline⟩ := hv.exists_member hkey hcolon hq ho c
        refine ⟨hclosed, (l, v) :: ns, pad, List.cons_ne_nil _ _, ?_, ?_⟩
        · rw [hs, hcd, hchars, Written.ofMembers, hmore, hafter]
          simp
        · simp only [Written.outlineMembers, houtline, hk, hsame, hms]
  · rename_i key t hkey
    cases h
    cases hstop

/-- Whatever the fuel, the scanner finds only what was written, if it can be skipped: fuel that runs
out leaves a place behind that cannot be skipped. -/
theorem finds_written (fuel : Nat) : FindsValues fuel ∧ FindsItems fuel ∧ FindsMembers fuel := by
  induction fuel with
  | zero =>
    refine ⟨?_, ?_, ?_⟩
    · intro s o rest h hskip
      cases h
      cases hskip
    · intro s os stop rest h _ hstop
      cases h
      cases hstop
    · intro s os stop rest h _ hstop
      cases h
      cases hstop
  | succ fuel ih =>
    obtain ⟨hv, hi, hm⟩ := ih
    exact ⟨findsValues_succ hi hm, findsItems_succ hv hi, findsMembers_succ hv hm⟩

end Scanner

/-- A text whose outline can be skipped, and behind which there are only blanks, is the text of a
document. -/
theorem Document.exists_of_skip {s : String} (hskip : (Outline.scan s.toList).1.skip = .ok ())
    (hrest : Scanner.trim (Outline.scan s.toList).2 = []) : ∃ d : Document, d.text = s := by
  obtain ⟨b, v, hchars, -⟩ := (Scanner.finds_written _).1 s.toList _ _ rfl hskip
  obtain ⟨c, hc⟩ := Scanner.exists_trim (Outline.scan s.toList).2
  refine ⟨⟨b, v, c⟩, ?_⟩
  rw [hrest, List.append_nil] at hc
  rw [text, ← hc]
  exact hchars ▸ String.ofList_toList

end DesignBrief
