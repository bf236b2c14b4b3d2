import DesignBrief.Proofs.Composition
import DesignBrief.Proofs.Spelling

/-!
Places in a text. A place is reached by a path that the readers follow too: down through lists,
through entries under any key and through the fields of records. What is read of the whole depends
on the place only through what is read there, `Place.exists_set`, because the fields of a record do
not disturb each other.
-/

namespace DesignBrief

open Reader

/-! ## One part of a row -/

theorem length_of_mapM_eq_ok {α β : Type} {f : α → Except Fault β} {xs : List α} {ys : List β}
    (h : xs.mapM f = .ok ys) : ys.length = xs.length := by
  induction xs generalizing ys with
  | nil =>
    cases h
    rfl
  | cons x xs ih =>
    rw [List.mapM_cons] at h
    obtain ⟨y, -, h⟩ := bind_eq_ok_iff.mp h
    obtain ⟨ys, hys, h⟩ := bind_eq_ok_iff.mp h
    cases h
    rw [List.length_cons, List.length_cons, ih hys]

/-- A row of steps depends on one part only through what its step gives. -/
theorem exists_of_mapM_append {α β : Type} {f : α → Except Fault β} {before after : List α} {x : α}
    {ys : List β} (h : (before ++ x :: after).mapM f = .ok ys) :
    ∃ as b bs, as.length = before.length ∧ f x = .ok b ∧ ys = as ++ b :: bs ∧
      ∀ x' b', f x' = .ok b' → (before ++ x' :: after).mapM f = .ok (as ++ b' :: bs) := by
  rw [List.mapM_append] at h
  obtain ⟨as, has, h⟩ := bind_eq_ok_iff.mp h
  obtain ⟨cs, hcs, h⟩ := bind_eq_ok_iff.mp h
  rw [List.mapM_cons] at hcs
  obtain ⟨b, hb, hcs⟩ := bind_eq_ok_iff.mp hcs
  obtain ⟨bs, hbs, hcs⟩ := bind_eq_ok_iff.mp hcs
  cases hcs
  cases h
  refine ⟨as, b, bs, length_of_mapM_eq_ok has, hb, rfl, fun x' b' hb' => ?_⟩
  rw [List.mapM_append, List.mapM_cons, has, hb', hbs]
  rfl

namespace Record

variable {σ : Type} {R : Record σ} {depth : Nat}

theorem readMembers_append (seen : List String) (acc : σ) (ms ns : List (Outline × Outline)) :
    R.readMembers depth seen acc (ms ++ ns) =
      R.readMembers depth seen acc ms >>= fun x => R.readMembers depth x.1 x.2 ns := by
  induction ms generalizing seen acc with
  | nil => rfl
  | cons m ms ih =>
    obtain ⟨k, v⟩ := m
    simp only [List.cons_append, readMembers, bind_assoc]
    refine bind_congr fun key => ?_
    cases R.field? key with
    | none => simp only [ih, bind_assoc]
    | some f =>
      simp only
      split
      · rfl
      · simp only [ih, bind_assoc]

/-- A field that has been put stays as it is, so it makes no difference when it is put. -/
theorem readMembers_put {f : Slot σ} (hf : f ∈ R.fields) {change : σ → σ}
    (hchange : f.Makes change) {seen : List String} (hseen : f.key ∈ seen) (acc : σ)
    (ms : List (Outline × Outline)) :
    R.readMembers depth seen (change acc) ms =
      (R.readMembers depth seen acc ms).map fun x => (x.1, change x.2) := by
  induction ms generalizing seen acc with
  | nil => rfl
  | cons m ms ih =>
    obtain ⟨k, v⟩ := m
    cases hkey : k.key with
    | error e =>
      rw [readMembers, readMembers, hkey]
      rfl
    | ok key =>
      cases hg : R.field? key with
      | none =>
        rw [readMembers_unknown hkey hg, readMembers_unknown hkey hg, ih hseen]
        cases v.skip <;> rfl
      | some g =>
        rw [readMembers_known hkey hg, readMembers_known hkey hg]
        obtain ⟨hmem, rfl⟩ := mem_of_field? hg
        split
        · rfl
        · rename_i hnew
          rw [List.contains_iff_mem] at hnew
          have hne : f.key ≠ g.key := fun h => hnew (h ▸ hseen)
          cases hput : g.fromText depth v with
          | error e => rfl
          | ok put =>
            have hcommute := R.commute hf hmem hne change put hchange (.inl ⟨depth, v, hput⟩) acc
            show R.readMembers depth (g.key :: seen) (put (change acc)) ms = _
            rw [← hcommute, ih (List.mem_cons_of_mem _ hseen)]
            rfl

/-- The members of an object depend on the value of one of them only through what its field does. -/
theorem exists_of_readMembers_append {k : Outline} {key : String}
    (hkey : k.key = .ok key) {f : Slot σ} (hf : R.field? key = some f) {seen : List String}
    {acc : σ} {before after : List (Outline × Outline)} {o : Outline} {result : List String × σ}
    (h : R.readMembers depth seen acc (before ++ (k, o) :: after) = .ok result) :
    ∃ change rest, f.fromText depth o = .ok change ∧ result.2 = change rest ∧
      ∀ o' change', f.fromText depth o' = .ok change' →
        R.readMembers depth seen acc (before ++ (k, o') :: after) =
          .ok (result.1, change' rest) := by
  obtain ⟨hmem, rfl⟩ := mem_of_field? hf
  rw [readMembers_append] at h
  obtain ⟨found, hfound, h⟩ := bind_eq_ok_iff.mp h
  rw [readMembers_known hkey hf] at h
  split at h
  · cases h
  · rename_i hnew
    obtain ⟨change, hchange, h⟩ := bind_eq_ok_iff.mp h
    rw [readMembers_put hmem (.inl ⟨depth, o, hchange⟩) List.mem_cons_self] at h
    obtain ⟨last, hlast, rfl⟩ := map_eq_ok_iff.mp h
    refine ⟨change, last.2, hchange, rfl, fun o' change' hchange' => ?_⟩
    rw [readMembers_append, hfound]
    show R.readMembers depth found.1 found.2 _ = _
    rw [readMembers_known hkey hf, if_neg hnew, hchange']
    show R.readMembers depth _ (change' found.2) after = _
    rw [readMembers_put hmem (.inl ⟨depth, o', hchange'⟩) List.mem_cons_self, hlast]
    rfl

theorem readItems_put {f : Slot σ} {change : σ → σ} (hchange : f.Makes change) {stop : Stop}
    {index : Nat} {fs : List (Slot σ)} (hfs : ∀ g ∈ fs, f.Commute g) (acc : σ)
    (items : List Outline) :
    R.readItems depth stop index fs (change acc) items =
      (R.readItems depth stop index fs acc items).map change := by
  induction items generalizing index fs acc with
  | nil =>
    cases fs with
    | nil => cases h : stop.afterLast <;> simp only [readItems, h] <;> rfl
    | cons g fs =>
      cases h : stop.inList with
      | error e => simp only [readItems, h]; rfl
      | ok u => cases h' : R.checkRest index (g :: fs) <;> simp only [readItems, h, h'] <;> rfl
  | cons o items ih =>
    cases fs with
    | nil => rfl
    | cons g fs =>
      rw [List.forall_mem_cons] at hfs
      cases hput : g.fromText depth o with
      | error e => simp only [readItems, hput]; rfl
      | ok put =>
        have hcommute := hfs.1 change put hchange (.inl ⟨depth, o, hput⟩) acc
        have hrest : R.readItems depth stop (index + 1) fs (change (put acc)) items = _ :=
          ih hfs.2 (put acc)
        rw [hcommute] at hrest
        simp only [readItems, hput]
        exact hrest

/-- The items of a list depend on one of them only through what its field does. -/
theorem exists_of_readItems_append {stop : Stop} {index : Nat} {fs : List (Slot σ)}
    (hfs : fs.Pairwise Slot.Commute) {acc s : σ} {before after : List Outline} {f : Slot σ}
    (hf : fs[before.length]? = some f) {o : Outline}
    (h : R.readItems depth stop index fs acc (before ++ o :: after) = .ok s) :
    ∃ change rest, f.fromText depth o = .ok change ∧ s = change rest ∧
      ∀ o' change', f.fromText depth o' = .ok change' →
        R.readItems depth stop index fs acc (before ++ o' :: after) = .ok (change' rest) := by
  induction before generalizing index fs acc with
  | nil =>
    cases fs with
    | nil => cases hf
    | cons g fs =>
      cases hf
      obtain ⟨hcommute, -⟩ := List.pairwise_cons.mp hfs
      obtain ⟨change, hchange, h⟩ := bind_eq_ok_iff.mp h
      rw [readItems_put (.inl ⟨depth, o, hchange⟩) hcommute] at h
      obtain ⟨rest, hrest, rfl⟩ := map_eq_ok_iff.mp h
      refine ⟨change, rest, hchange, rfl, fun o' change' hchange' => ?_⟩
      have hput : R.readItems depth stop (index + 1) fs (change' acc) after = _ :=
        readItems_put (.inl ⟨depth, o', hchange'⟩) hcommute acc after
      rw [hrest] at hput
      rw [List.nil_append, readItems, hchange']
      exact hput
  | cons b before ih =>
    cases fs with
    | nil => cases hf
    | cons g fs =>
      obtain ⟨put, hput, h⟩ := bind_eq_ok_iff.mp h
      obtain ⟨change, rest, hchange, hs, hsame⟩ := ih (List.pairwise_cons.mp hfs).2 hf h
      refine ⟨change, rest, hchange, hs, fun o' change' hchange' => ?_⟩
      rw [List.cons_append, readItems, hput]
      exact hsame o' change' hchange'

end Record

/-! ## What is written -/

namespace Written

theorem outlineItems_append (before after : List (Margin × Written)) (m : Margin) (v : Written) :
    outlineItems (before ++ (m, v) :: after) =
      outlineItems before ++ v.outline :: outlineItems after := by
  induction before with
  | nil => rfl
  | cons i before ih => rw [List.cons_append, outlineItems, ih]; rfl

theorem length_outlineItems (items : List (Margin × Written)) :
    (outlineItems items).length = items.length := by
  induction items with
  | nil => rfl
  | cons i items ih => rw [outlineItems, List.length_cons, ih, List.length_cons]

theorem outlineMembers_append (before after : List (Label × Written)) (l : Label) (v : Written) :
    outlineMembers (before ++ (l, v) :: after) =
      outlineMembers before ++ (.text l.key.quoted, v.outline) :: outlineMembers after := by
  induction before with
  | nil => rfl
  | cons m before ih => rw [List.cons_append, outlineMembers, ih]; rfl

theorem length_outlineMembers (members : List (Label × Written)) :
    (outlineMembers members).length = members.length := by
  induction members with
  | nil => rfl
  | cons m members ih => rw [outlineMembers, List.length_cons, ih, List.length_cons]

end Written

theorem Reader.fromText_optional {α : Type} {r : Reader α} {depth : Nat} {v : Written}
    (hv : v ≠ .word .null) :
    r.optional.fromText depth v.outline = (r.fromText depth v.outline).map some := by
  cases v with
  | word w =>
    cases w with
    | null => exact absurd rfl hv
    | _ => rfl
  | _ => rfl

theorem Record.fromText_object {σ : Type} (R : Record σ) (depth : Nat)
    (members : List (Outline × Outline)) :
    R.reader.fromText (depth + 1) (.object members .closed) = (do
      let result ← R.readMembers depth [] R.blank members
      R.checkSeen result.1
      return result.2) := by
  dsimp only [Record.reader]
  cases R.readMembers depth [] R.blank members <;> rfl

/-! ## Frames -/

/-- What is written in a frame is read by `r` only through what `q` reads inside it: it is read as
`set b` if `b` is read inside, where `set` is one of `S` and does not depend on what is inside. -/
def ReadsThrough {α β : Type} (q : Reader β) (r : Reader α) (frame : Written → Written)
    (S : (β → α) → Prop) : Prop :=
  ∀ (depth : Nat) (v : Written) (a : α), v ≠ .word .null →
    r.fromText depth (frame v).outline = .ok a →
    ∃ inner set b, S set ∧ a = set b ∧ q.fromText inner v.outline = .ok b ∧
      ∀ v' b', v' ≠ .word .null → q.fromText inner v'.outline = .ok b' →
        r.fromText depth (frame v').outline = .ok (set b')

namespace ReadsThrough

variable {α β γ : Type} {q : Reader β} {p : Reader γ} {r : Reader α} {f g : Written → Written}
  {S : (γ → α) → Prop} {T : (β → γ) → Prop}

/-- A frame inside a frame. -/
theorem comp (hf : ReadsThrough p r f S) (hg : ReadsThrough q p g T)
    (hnull : ∀ {v}, v ≠ .word .null → g v ≠ .word .null) :
    ReadsThrough q r (fun v => f (g v)) fun set => ∃ s t, T s ∧ S t ∧ set = fun b => t (s b) := by
  intro depth v a hv h
  obtain ⟨middle, t, c, ht, rfl, hc, houter⟩ := hf depth (g v) a (hnull hv) h
  obtain ⟨inner, s, b, hs, rfl, hb, hinner⟩ := hg middle v c hv hc
  refine ⟨inner, fun b => t (s b), b, ⟨s, t, hs, ht, rfl⟩, rfl, hb, fun v' b' hv' hb' => ?_⟩
  exact houter _ _ (hnull hv') (hinner v' b' hv' hb')

theorem mono {S' : (γ → α) → Prop} (hf : ReadsThrough p r f S) (h : ∀ set, S set → S' set) :
    ReadsThrough p r f S' := by
  intro depth v a hv ha
  obtain ⟨inner, set, b, hset, hrest⟩ := hf depth v a hv ha
  exact ⟨inner, set, b, h set hset, hrest⟩

end ReadsThrough

section Frames

variable {α σ : Type} {r : Reader α} {R : Record σ} {f : Slot σ} {put : α → σ → σ}

theorem through_optional (r : Reader α) : ReadsThrough r r.optional (fun v => v) (· = some) := by
  intro depth v a hv h
  rw [fromText_optional hv] at h
  obtain ⟨c, hc, rfl⟩ := map_eq_ok_iff.mp h
  refine ⟨depth, some, c, rfl, rfl, hc, fun v' b' hv' hb' => ?_⟩
  rw [fromText_optional hv', hb']
  rfl

theorem through_item (r : Reader α) (before : List (Margin × Written)) (m : Margin)
    (after : List (Margin × Written)) (pad : Blanks) :
    ReadsThrough r r.list (fun v => .list (before ++ (m, v) :: after) pad) fun set =>
      ∃ xs ys, xs.length = before.length ∧ set = fun b => xs ++ b :: ys := by
  intro depth v a _ h
  cases depth with
  | zero => cases h
  | succ depth =>
    rw [Written.outline, fromText_list, Written.outlineItems_append] at h
    obtain ⟨xs, c, ys, hlength, hc, rfl, hrow⟩ := exists_of_mapM_append h
    rw [Written.length_outlineItems] at hlength
    refine ⟨depth, _, c, ⟨xs, ys, hlength, rfl⟩, rfl, hc, fun v' b' _ hb' => ?_⟩
    rw [Written.outline, fromText_list, Written.outlineItems_append]
    exact hrow _ _ hb'

theorem through_entry (r : Reader α) (what : String) (before : List (Label × Written)) (l : Label)
    (after : List (Label × Written)) (pad : Blanks) :
    ReadsThrough r (r.keyed what) (fun v => .object (before ++ (l, v) :: after) pad) fun set =>
      ∃ xs key ys, xs.length = before.length ∧ set = fun b => xs ++ (key, b) :: ys := by
  intro depth v a _ h
  cases depth with
  | zero => cases h
  | succ depth =>
    rw [Written.outline, fromText_keyed, Written.outlineMembers_append] at h
    obtain ⟨xs, c, ys, hlength, hc, rfl, hrow⟩ := exists_of_mapM_append h
    obtain ⟨key, hkey, hc⟩ := bind_eq_ok_iff.mp hc
    obtain ⟨d, hd, hc⟩ := bind_eq_ok_iff.mp hc
    cases hc
    rw [Written.length_outlineMembers] at hlength
    refine ⟨depth, _, d, ⟨xs, key, ys, hlength, rfl⟩, rfl, hd, fun v' b' _ hb' => ?_⟩
    rw [Written.outline, fromText_keyed, Written.outlineMembers_append]
    refine hrow _ _ ?_
    rw [hkey, hb']
    rfl

theorem through_member {key : String} (hf : R.field? key = some f)
    (hr : f.Reads r put) (before : List (Label × Written)) {l : Label}
    (hl : l.key.quoted.decode = .ok key) (after : List (Label × Written)) (pad : Blanks) :
    ReadsThrough r R.reader (fun v => .object (before ++ (l, v) :: after) pad) fun set =>
      ∃ rest, set = fun b => put b rest := by
  intro depth v a _ h
  cases depth with
  | zero => cases h
  | succ depth =>
    rw [Written.outline, Written.outlineMembers_append, Record.fromText_object] at h
    obtain ⟨result, hresult, h⟩ := bind_eq_ok_iff.mp h
    obtain ⟨_, hseen, h⟩ := bind_eq_ok_iff.mp h
    cases h
    obtain ⟨change, rest, hchange, hvalue, hrow⟩ :=
      Record.exists_of_readMembers_append (k := .text l.key.quoted) hl hf hresult
    rw [hr.fromText] at hchange
    obtain ⟨d, hd, rfl⟩ := map_eq_ok_iff.mp hchange
    refine ⟨depth, _, d, ⟨rest, rfl⟩, hvalue, hd, fun v' b' _ hb' => ?_⟩
    rw [Written.outline, Written.outlineMembers_append, Record.fromText_object,
      hrow _ (put b') (by rw [hr.fromText, hb']; rfl)]
    show (do R.checkSeen result.1; return put b' rest) = _
    rw [hseen]
    rfl

theorem through_position (before : List (Margin × Written))
    (hf : R.fields[before.length]? = some f) (hr : f.Reads r put) (m : Margin)
    (after : List (Margin × Written)) (pad : Blanks) :
    ReadsThrough r R.reader (fun v => .list (before ++ (m, v) :: after) pad) fun set =>
      ∃ rest, set = fun b => put b rest := by
  intro depth v a _ h
  cases depth with
  | zero => cases h
  | succ depth =>
    rw [Written.outline, Written.outlineItems_append] at h
    obtain ⟨change, rest, hchange, hvalue, hrow⟩ :=
      Record.exists_of_readItems_append R.independent (by rwa [Written.length_outlineItems]) h
    rw [hr.fromText] at hchange
    obtain ⟨d, hd, rfl⟩ := map_eq_ok_iff.mp hchange
    refine ⟨depth, _, d, ⟨rest, rfl⟩, hvalue, hd, fun v' b' _ hb' => ?_⟩
    rw [Written.outline, Written.outlineItems_append]
    exact hrow _ (put b') (by rw [hr.fromText, hb']; rfl)

end Frames

/-! ## Places -/

/-- A place in what is written, if the whole is read by `r` and what stands there by `q`. It goes
down through lists, through entries under any key, and through the fields of records, which stand as
the members of an object or as the items of a list. -/
inductive Place {β : Type} (q : Reader β) : {α : Type} → Reader α → Type 1 where
  | here : Place q q
  | optional {α : Type} {r : Reader α} (p : Place q r) : Place q r.optional
  | item {α : Type} {r : Reader α} (before : List (Margin × Written)) (m : Margin) (p : Place q r)
      (after : List (Margin × Written)) (pad : Blanks) : Place q r.list
  | entry {α : Type} {r : Reader α} (what : String) (before : List (Label × Written)) (l : Label)
      (p : Place q r) (after : List (Label × Written)) (pad : Blanks) : Place q (r.keyed what)
  | member {σ α : Type} {R : Record σ} {f : Slot σ} {r : Reader α} {put : α → σ → σ} {key : String}
      (hf : R.field? key = some f) (hr : f.Reads r put) (before : List (Label × Written))
      (l : Label) (hl : l.key.quoted.decode = .ok key)
      (p : Place q r) (after : List (Label × Written)) (pad : Blanks) : Place q R.reader
  | position {σ α : Type} {R : Record σ} {f : Slot σ} {r : Reader α} {put : α → σ → σ}
      (before : List (Margin × Written))
      (hf : R.fields[before.length]? = some f) (hr : f.Reads r put) (m : Margin) (p : Place q r)
      (after : List (Margin × Written)) (pad : Blanks) : Place q R.reader

namespace Place

variable {α β : Type} {q : Reader β} {r : Reader α}

def write {α : Type} {r : Reader α} : Place q r → Written → Written
  | here, v => v
  | optional p, v => p.write v
  | item before m p after pad, v => .list (before ++ (m, p.write v) :: after) pad
  | entry _ before l p after pad, v => .object (before ++ (l, p.write v) :: after) pad
  | member _ _ before l _ p after pad, v => .object (before ++ (l, p.write v) :: after) pad
  | position before _ _ m p after pad, v => .list (before ++ (m, p.write v) :: after) pad

/-- `set b` is a value of the whole with `b` at the place, the same everywhere else for all `b`. -/
def Sets {α : Type} {r : Reader α} : Place q r → (β → α) → Prop
  | here, set => set = id
  | optional p, set => ∃ s, p.Sets s ∧ set = fun b => some (s b)
  | item before _ p _ _, set => ∃ s xs ys, p.Sets s ∧ xs.length = before.length ∧
      set = fun b => xs ++ s b :: ys
  | entry _ before _ p _ _, set => ∃ s xs key ys, p.Sets s ∧ xs.length = before.length ∧
      set = fun b => xs ++ (key, s b) :: ys
  | @member _ _ _ _ _ _ _ put _ _ _ _ _ _ p _ _, set => ∃ s rest, p.Sets s ∧
      set = fun b => put (s b) rest
  | @position _ _ _ _ _ _ _ put _ _ _ _ p _ _, set => ∃ s rest, p.Sets s ∧
      set = fun b => put (s b) rest

theorem write_ne_null {α : Type} {r : Reader α} (p : Place q r) {v : Written}
    (hv : v ≠ .word .null) : p.write v ≠ .word .null := by
  induction p with
  | here => exact hv
  | optional p ih => exact ih
  | _ => exact nofun

/-- What is read of the whole depends on the place only through what is read there. -/
theorem exists_set {α : Type} {r : Reader α} (p : Place q r) : ReadsThrough q r p.write p.Sets := by
  induction p with
  | here => exact fun depth v a _ h => ⟨depth, id, a, rfl, rfl, h, fun v' b' _ hb' => hb'⟩
  | optional p ih =>
    refine ((through_optional _).comp ih p.write_ne_null).mono ?_
    rintro _ ⟨s, _, hs, rfl, rfl⟩
    exact ⟨s, hs, rfl⟩
  | item before m p after pad ih =>
    refine ((through_item _ before m after pad).comp ih p.write_ne_null).mono ?_
    rintro _ ⟨s, _, hs, ⟨xs, ys, hlength, rfl⟩, rfl⟩
    exact ⟨s, xs, ys, hs, hlength, rfl⟩
  | entry what before l p after pad ih =>
    refine ((through_entry _ what before l after pad).comp ih p.write_ne_null).mono ?_
    rintro _ ⟨s, _, hs, ⟨xs, key, ys, hlength, rfl⟩, rfl⟩
    exact ⟨s, xs, key, ys, hs, hlength, rfl⟩
  | member hf hr before l hl p after pad ih =>
    refine ((through_member hf hr before hl after pad).comp ih p.write_ne_null).mono ?_
    rintro _ ⟨s, _, hs, ⟨rest, rfl⟩, rfl⟩
    exact ⟨s, rest, hs, rfl⟩
  | position before hf hr m p after pad ih =>
    refine ((through_position before hf hr m after pad).comp ih p.write_ne_null).mono ?_
    rintro _ ⟨s, _, hs, ⟨rest, rfl⟩, rfl⟩
    exact ⟨s, rest, hs, rfl⟩

end Place

end DesignBrief
