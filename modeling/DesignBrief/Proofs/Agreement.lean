import DesignBrief.Brief.Walk
import DesignBrief.Proofs.ByteOrder
import DesignBrief.Proofs.Composition
import DesignBrief.Proofs.ParsedValues

/-!
A text that is read at once, and one that is parsed to a JSON value first. If no key is repeated, a
reader makes of the value what it makes of the text, because the fields of a record do not disturb
each other, and it refuses both or neither. Only the entries of a response come in the order of
their keys instead of that of the text, `Response.ofText_agrees`.
-/

namespace DesignBrief

open Outline

/-! ## Readers and fields -/

/-- What is read from a text and what is read from its value are related, or both are refused. -/
def Reader.AgreesUpTo {α : Type} (R : α → α → Prop) (r : Reader α) : Prop :=
  ∀ depth o j, Means depth o j → Agree R (r.fromText depth o) (r.fromValue j)

def Reader.Agrees {α : Type} (r : Reader α) : Prop := r.AgreesUpTo Eq

/-- What a field does to a record for a text and for its value keeps records related. -/
def Slot.AgreesUpTo {σ : Type} (R : σ → σ → Prop) (f : Slot σ) : Prop :=
  ∀ depth o j, Means depth o j →
    Agree (fun p q => ∀ s t, R s t → R (p s) (q t)) (f.fromText depth o) (f.fromValue j)

theorem Slot.Reads.agreesUpTo {σ α : Type} {f : Slot σ} {r : Reader α} {put : α → σ → σ}
    {R : α → α → Prop} {S : σ → σ → Prop} (hf : f.Reads r put) (hr : r.AgreesUpTo R)
    (hput : ∀ a b s t, R a b → S s t → S (put a s) (put b t)) : f.AgreesUpTo S := by
  intro depth o j h
  rw [hf.fromText, hf.fromValue]
  exact (hr depth o j h).map fun a b hab s t hst => hput a b s t hab hst

namespace Reader

variable {α : Type} {r : Reader α} {R : α → α → Prop}

theorem agrees_refuse (why : Fault) : (refuse why : Reader α).Agrees :=
  fun _ _ _ _ => .error why why

theorem agrees_text : text.Agrees := by
  intro depth o j h
  cases parsesTo_of_toJson h.parsed with
  | @text _ q s hs =>
    show Agree Eq q.decode (.ok s)
    exact hs ▸ .refl _
  | _ => exact .error _ _

theorem agrees_flag : flag.Agrees := by
  intro depth o j h
  cases parsesTo_of_toJson h.parsed with
  | true => exact .ok rfl
  | false => exact .ok rfl
  | _ => exact .error _ _

theorem agrees_double : double.Agrees := by
  intro depth o j h
  cases parsesTo_of_toJson h.parsed with
  | @number _ n v hv =>
    show Agree Eq (n.value.map Number.toFloat) (.ok v.toFloat)
    exact hv ▸ .refl _
  | _ => exact .error _ _

theorem agrees_unit : unit.Agrees := by
  intro depth o j h
  cases parsesTo_of_toJson h.parsed with
  | null => exact .ok rfl
  | _ => exact .error _ _

theorem agreesUpTo_optional (h : r.AgreesUpTo R) : r.optional.AgreesUpTo (Option.Rel R) := by
  intro depth o j ho
  have hread := h depth o j ho
  cases parsesTo_of_toJson ho.parsed with
  | null => exact .ok .none
  | _ => exact hread.map fun a b hab => .some hab

theorem agrees_optional (h : r.Agrees) : r.optional.Agrees := by
  intro depth o j ho
  refine (agreesUpTo_optional h depth o j ho).imp fun a b hab => ?_
  cases hab with
  | none => rfl
  | some hab => exact congrArg some hab

theorem agrees_list (h : r.Agrees) : r.list.Agrees := by
  intro depth o j ho
  have hkeys := ho.distinct
  cases parsesTo_of_toJson ho.parsed with
  | @list depth items js hjs =>
    have hitems := (means_items hjs hkeys).imp fun o j => h depth o j
    rw [fromText_list]
    exact (Agree.mapM hitems).imp fun as bs => List.forall₂_eq_eq_eq ▸ id
  | object _ => exact .error _ _
  | _ => cases depth <;> exact .error _ _

theorem agrees_name : name.Agrees := by
  intro depth o j ho
  have hkeys := ho.distinct
  cases parsesTo_of_toJson ho.parsed with
  | @text _ q s hs =>
    show Agree Eq q.decode (.ok s)
    exact hs ▸ .refl _
  | @object depth members ms hms =>
    rw [hasDistinctKeys, Bool.and_eq_true, decide_eq_true_eq] at hkeys
    have hmembers := means_members hms hkeys.2
    obtain ⟨sorted, hsorted, hperm, -⟩ :=
      Json.exists_ofMembers (nodup_keys_of_means hmembers hkeys.1)
    rw [hsorted]
    cases hmembers with
    | nil =>
      rw [hperm.eq_nil]
      exact .error _ _
    | @cons m n members ms hm hrest =>
      have hunit := agrees_unit depth m.2 n.2 hm.value
      cases hrest with
      | nil =>
        rw [List.perm_singleton.mp hperm]
        show Agree Eq (do let word ← m.1.key; unit.fromText depth m.2; return word)
          ((unit.fromValue n.2).map fun _ => n.1)
        rw [hm.key]
        exact hunit.bind fun _ _ _ => .ok rfl
      | @cons m' n' _ _ _ _ =>
        -- Of several keys, neither way makes a name.
        obtain ⟨a, b, rest, rfl⟩ : ∃ a b rest, sorted = a :: b :: rest := by
          match sorted, hperm.length_eq with
          | a :: b :: rest, _ => exact ⟨a, b, rest, rfl⟩
        show Agree Eq (do let word ← m.1.key; unit.fromText depth m.2; .error .valueExpected)
          (.error .keywordObject)
        rw [hm.key]
        cases unit.fromText depth m.2 <;> exact .error _ _
  | _ => exact .error _ _

theorem agrees_keyword [Keyword α] : (keyword α).Agrees := by
  intro depth o j ho
  exact (agrees_name depth o j ho).map fun a b hab => congrArg Keyword.ofName hab

theorem map_fst_of_mapM {members : List (String × Json)} {read : Json → Except Fault α}
    {as : List (String × α)}
    (h : (members.mapM fun m => do return (m.1, ← read m.2)) = .ok as) :
    as.map (·.1) = members.map (·.1) := by
  induction members generalizing as with
  | nil =>
    cases h
    rfl
  | cons m rest ih =>
    rw [List.mapM_cons] at h
    obtain ⟨a, ha, h⟩ := bind_eq_ok_iff.mp h
    obtain ⟨as, has, h⟩ := bind_eq_ok_iff.mp h
    obtain ⟨b, -, ha⟩ := bind_eq_ok_iff.mp ha
    cases ha
    cases h
    rw [List.map_cons, List.map_cons, ih has]

/-- The same members, but in the order of their keys. -/
structure Sorts (read sorted : List (String × α)) : Prop where
  perm : sorted.Perm read
  ordered : (sorted.map (·.1)).Pairwise (· < ·)

theorem agreesUpTo_keyed (what : String) (h : r.Agrees) : (r.keyed what).AgreesUpTo Sorts := by
  intro depth o j ho
  have hkeys := ho.distinct
  cases parsesTo_of_toJson ho.parsed with
  | @object depth members ms hms =>
    rw [hasDistinctKeys, Bool.and_eq_true, decide_eq_true_eq] at hkeys
    have hmembers := means_members hms hkeys.2
    obtain ⟨sorted, hsorted, hperm, hordered⟩ :=
      Json.exists_ofMembers (nodup_keys_of_means hmembers hkeys.1)
    rw [fromText_keyed, hsorted]
    have hread : List.Forall₂ (fun m n => Agree Eq (do
          let key ← m.1.key
          let value ← r.fromText depth m.2
          return (key, value)) (do return (n.1, ← r.fromValue n.2))) members ms := by
      refine hmembers.imp fun m n hm => ?_
      rw [hm.key]
      exact (h depth m.2 n.2 hm.value).bind fun a b hab => .ok (hab ▸ rfl)
    have hsame := (Agree.mapM hread).trans (Agree.mapM_perm hperm.symm) fun as bs cs has hbs =>
      (List.forall₂_eq_eq_eq ▸ has : as = bs) ▸ hbs.symm
    refine (hsame.and_right fun cs hcs => ?_).imp fun as cs hcs => ⟨hcs.1, hcs.2⟩
    rw [map_fst_of_mapM hcs]
    exact hordered
  | list _ => exact .error _ _
  | _ => cases depth <;> exact .error _ _

end Reader

/-! ## Records -/

namespace Record

variable {σ : Type} {R : Record σ} {S : σ → σ → Prop} {depth : Nat}

/-- The items of a list go into the fields in their order, on either way. -/
theorem agree_items {fs : List (Slot σ)} (hfields : ∀ f ∈ fs, f.AgreesUpTo S)
    {items : List Outline} {js : List Json} (h : List.Forall₂ (Means depth) items js)
    (count index : Nat) {acc acc' : σ} (hacc : S acc acc') :
    Agree S (R.readItems depth .closed index fs acc items)
      (R.takeItems count index fs acc' js) := by
  induction fs generalizing items js index acc acc' with
  | nil =>
    cases h with
    | nil => exact .ok hacc
    | cons _ _ => exact .error _ _
  | cons f fs ih =>
    obtain ⟨hf, hfs⟩ := List.forall_mem_cons.mp hfields
    cases h with
    | nil =>
      show Agree S (do R.checkRest index (f :: fs); return acc)
        (do R.checkRest index (f :: fs); return acc')
      exact (Agree.refl _).bind fun _ _ _ => .ok hacc
    | cons hitem hrest =>
      exact (hf _ _ _ hitem).bind fun p q hpq => ih hfs hrest (index + 1) (hpq acc acc' hacc)

/-- Two readings of members that saw the same keys and came to related records. -/
def Together (S : σ → σ → Prop) (x y : List String × σ) : Prop := x.1.Perm y.1 ∧ S x.2 y.2

/-- The members of an object are read on either way in one order. -/
theorem agree_members (hfields : ∀ f ∈ R.fields, f.AgreesUpTo S)
    {members : List (Outline × Outline)} {ms : List (String × Json)}
    (h : List.Forall₂ (MeansMember depth) members ms) (hnd : (ms.map (·.1)).Nodup)
    {seen : List String} (hnew : ∀ key ∈ ms.map (·.1), key ∉ seen) {acc acc' : σ}
    (hacc : S acc acc') :
    Agree (Together S) (R.readMembers depth seen acc members) (R.takeMembers seen acc' ms) := by
  induction h generalizing seen acc acc' with
  | nil => exact .ok ⟨.refl seen, hacc⟩
  | @cons m n members ms hm hrest ih =>
    obtain ⟨k, v⟩ := m
    obtain ⟨key, j⟩ := n
    have hkey : k.key = .ok key := hm.key
    obtain ⟨hfresh, hnd⟩ := List.nodup_cons.mp hnd
    obtain ⟨hunseen, hnew⟩ := List.forall_mem_cons.mp hnew
    have hskip : v.skip = .ok () := skip_of_toJson v hm.value.parsed
    rw [takeMembers]
    cases hf : R.field? key with
    | none =>
      rw [readMembers_unknown hkey hf, hskip]
      exact ih hnd hnew hacc
    | some f =>
      have hcontains : ¬ seen.contains key := by simpa using hunseen
      have hlater : ∀ k ∈ ms.map (·.1), k ∉ key :: seen := fun k hk =>
        List.not_mem_cons_of_ne_of_not_mem (fun h => hfresh (h ▸ hk)) (hnew k hk)
      rw [readMembers_known hkey hf, if_neg hcontains]
      exact (hfields f (mem_of_field? hf).1 depth v j hm.value).bind fun p q hpq =>
        ih hnd hlater (hpq acc acc' hacc)

/-- Which keys were seen before makes no difference to the record. -/
theorem takeMembers_seen {seen seen' : List String} (h : seen.Perm seen') (acc : σ)
    (ms : List (String × Json)) :
    Agree (Together Eq) (R.takeMembers seen acc ms) (R.takeMembers seen' acc ms) := by
  induction ms generalizing seen seen' acc with
  | nil => exact .ok ⟨h, rfl⟩
  | cons m rest ih =>
    rw [takeMembers, takeMembers]
    cases R.field? m.1 with
    | none => exact ih h acc
    | some f => exact (Agree.refl _).bind fun p q hpq => hpq ▸ ih (h.cons m.1) (p acc)

/-- Two members under different keys may be taken in either order. -/
theorem takeMembers_swap {m n : String × Json} (hne : m.1 ≠ n.1)
    (seen : List String) (acc : σ) (ms : List (String × Json)) :
    Agree (Together Eq) (R.takeMembers seen acc (m :: n :: ms))
      (R.takeMembers seen acc (n :: m :: ms)) := by
  have hsame (x : Except Fault (List String × σ)) : Agree (Together Eq) x x :=
    (Agree.refl x).imp fun y z hyz => hyz ▸ ⟨.refl y.1, rfl⟩
  simp only [takeMembers]
  cases hf : R.field? m.1 with
  | none => cases R.field? n.1 <;> exact hsame _
  | some f =>
    cases hg : R.field? n.1 with
    | none => exact hsame _
    | some g =>
      have hkeys : f.key ≠ g.key := by
        rw [(mem_of_field? hf).2, (mem_of_field? hg).2]
        exact hne
      have hcommute := R.commute (mem_of_field? hf).1 (mem_of_field? hg).1 hkeys
      show Agree (Together Eq)
        (f.fromValue m.2 >>= fun p => g.fromValue n.2 >>= fun q =>
          R.takeMembers (n.1 :: m.1 :: seen) (q (p acc)) ms)
        (g.fromValue n.2 >>= fun q => f.fromValue m.2 >>= fun p =>
          R.takeMembers (m.1 :: n.1 :: seen) (p (q acc)) ms)
      cases hp : f.fromValue m.2 with
      | error e => cases g.fromValue n.2 <;> exact .error _ _
      | ok p =>
        cases hq : g.fromValue n.2 with
        | error e => exact .error _ _
        | ok q =>
          have hboth := hcommute p q (.inr ⟨_, hp⟩) (.inr ⟨_, hq⟩) acc
          simp only [bind, Except.bind, hboth]
          exact takeMembers_seen (.swap m.1 n.1 seen) _ ms

/-- The members of an object may be taken in any order, if no key is repeated. -/
theorem takeMembers_perm {ms ns : List (String × Json)} (h : ms.Perm ns)
    (hnd : (ms.map (·.1)).Nodup) (seen : List String) (acc : σ) :
    Agree (Together Eq) (R.takeMembers seen acc ms) (R.takeMembers seen acc ns) := by
  induction h generalizing seen acc with
  | nil => exact .ok ⟨.refl seen, rfl⟩
  | cons m _ ih =>
    have hrest := ih (List.nodup_cons.mp hnd).2
    rw [takeMembers, takeMembers]
    cases R.field? m.1 with
    | none => exact hrest seen acc
    | some f => exact (Agree.refl _).bind fun p q hpq => hpq ▸ hrest (m.1 :: seen) (p acc)
  | swap m n ms =>
    rw [List.map_cons, List.map_cons, List.nodup_cons, List.mem_cons, not_or] at hnd
    exact takeMembers_swap hnd.1.1 seen acc ms
  | trans hmn _ ih ih' =>
    refine (ih hnd seen acc).trans (ih' ((hmn.map _).nodup_iff.mp hnd) seen acc) ?_
    exact fun x y z hxy hyz => ⟨hxy.1.trans hyz.1, hxy.2.trans hyz.2⟩

theorem checkSeen_perm {seen seen' : List String} (h : seen.Perm seen') :
    R.checkSeen seen = R.checkSeen seen' := by
  have hcontains (key : String) : seen.contains key = seen'.contains key := by
    rw [Bool.eq_iff_iff, List.contains_iff_mem, List.contains_iff_mem, h.mem_iff]
  simp only [checkSeen, hcontains]

/-- A record is the same on either way, up to a relation that its fields keep. -/
theorem agreesUpTo_reader (hblank : S R.blank R.blank)
    (hfields : ∀ f ∈ R.fields, f.AgreesUpTo S) : R.reader.AgreesUpTo S := by
  intro depth o j ho
  have hkeys := ho.distinct
  cases parsesTo_of_toJson ho.parsed with
  | list hjs =>
    exact agree_items hfields (means_items hjs hkeys) _ 0 hblank
  | @object depth members ms hms =>
    rw [hasDistinctKeys, Bool.and_eq_true, decide_eq_true_eq] at hkeys
    have hmembers := means_members hms hkeys.2
    have hnd := nodup_keys_of_means hmembers hkeys.1
    obtain ⟨sorted, hsorted, hperm, -⟩ := Json.exists_ofMembers hnd
    have hinorder := agree_members hfields hmembers hnd (fun _ _ => List.not_mem_nil) hblank
    have hread : Agree (Together S) (R.readMembers depth [] R.blank members)
        (R.takeMembers [] R.blank sorted) :=
      hinorder.trans (takeMembers_perm hperm.symm hnd [] R.blank) fun x y z hxy hyz =>
        ⟨hxy.1.trans hyz.1, hyz.2 ▸ hxy.2⟩
    rw [hsorted]
    refine hread.bind fun x y hxy => ?_
    show Agree S (do R.checkSeen x.1; return x.2) (do R.checkSeen y.1; return y.2)
    rw [checkSeen_perm hxy.1]
    exact (Agree.refl _).bind fun _ _ _ => .ok hxy.2
  | _ => cases depth <;> exact .error _ _

end Record

/-! ## Design files -/

theorem Reader.closed_agrees : Reader.Closed @Reader.Agrees where
  text := agrees_text
  flag := agrees_flag
  double := agrees_double
  keyword := agrees_keyword
  refuse := agrees_refuse
  optional := agrees_optional
  list := agrees_list
  record hfields := by
    refine Record.agreesUpTo_reader rfl fun f hf => ?_
    obtain ⟨α, r, put, hreads, hr⟩ := hfields f hf
    exact hreads.agreesUpTo hr fun a b s t hab hst => hab ▸ hst ▸ rfl

namespace Response

/-- The same response with its entries in the order of the bytes of their keys. -/
structure KeySorted (r sorted : Response) : Prop where
  rest : sorted = { r with nodes := sorted.nodes }
  nodes : Option.Rel (fun es fs =>
    fs.Perm es ∧ (fs.map fun e => Text.bytes e.1).Pairwise (· < ·)) r.nodes sorted.nodes

/-- What a response says but for its entries does not change if they are sorted. -/
theorem KeySorted.brief_eq {r sorted : Response} (h : r.KeySorted sorted)
    (hdocument : r.document.isSome = true) (limit : DepthLimit) :
    r.brief limit = sorted.brief limit := by
  obtain ⟨document, hdocument⟩ := Option.isSome_iff_exists.mp hdocument
  rw [h.rest]
  simp only [brief, roots, hdocument]

/-- A field that leaves the entries alone and does not look at them. -/
theorem agreesUpTo_field {α : Type} {r : Reader α} {put : α → Response → Response}
    (hr : r.Agrees) (key : String) (hnodes : ∀ a s, (put a s).nodes = s.nodes)
    (hrest : ∀ a s es, put a { s with nodes := es } = { put a s with nodes := es }) :
    (Slot.optional key r put).AgreesUpTo KeySorted := by
  refine (Slot.reads_optional key r put).agreesUpTo hr fun a b s t hab hst => ?_
  subst hab
  refine ⟨?_, ?_⟩
  · rw [hnodes, hst.rest, hrest]
  · rw [hnodes, hnodes]
    exact hst.nodes

theorem agreesUpTo_entries {r : Reader (Option (List (String × Option NodeEntry)))}
    (hr : r.AgreesUpTo (Option.Rel Reader.Sorts)) (key : String) :
    (Slot.optional key r fun es (s : Response) => { s with nodes := es }).AgreesUpTo
      KeySorted := by
  refine (Slot.reads_optional key r _).agreesUpTo hr fun es fs s t hes hst => ?_
  refine ⟨by rw [hst.rest], ?_⟩
  cases hes with
  | none => exact .none
  | some h =>
    have hordered := h.ordered.map Text.bytes fun k l hkl => (Text.lt_iff_bytes_lt k l).mp hkl
    rw [List.map_map] at hordered
    exact .some ⟨h.perm, hordered⟩

theorem agreesUpTo_reader : record.reader.AgreesUpTo KeySorted := by
  have hnode := Reader.closed_agrees.readerTo depthLimit
  have hentry := Reader.agrees_optional Reader.closed_agrees.nodeEntry
  refine Record.agreesUpTo_reader ⟨rfl, .none⟩ ?_
  simp only [record, List.forall_mem_cons, List.not_mem_nil, false_implies, implies_true, and_true]
  refine ⟨?_, ?_, ?_, ?_, ?_⟩
  · exact agreesUpTo_field Reader.agrees_text _ (fun _ _ => rfl) fun _ _ _ => rfl
  · exact agreesUpTo_field Reader.agrees_text _ (fun _ _ => rfl) fun _ _ _ => rfl
  · exact agreesUpTo_field (Reader.agrees_optional Reader.agrees_text) _ (fun _ _ => rfl)
      fun _ _ _ => rfl
  · exact agreesUpTo_field (Reader.agrees_optional hnode) _ (fun _ _ => rfl) fun _ _ _ => rfl
  · exact agreesUpTo_entries (Reader.agreesUpTo_optional (Reader.agreesUpTo_keyed _ hentry)) _

/-- If a text is parsed to a value and no key is repeated in it, both ways to read a response
agree. -/
theorem agree_ofText {s : String} {v : Json}
    (hkeys : (Outline.scan s.toList).1.hasDistinctKeys = true) (hv : Json.ofText s = .ok v) :
    Agree KeySorted (record.reader.ofText s) (record.reader.fromValue v) := by
  unfold Json.ofText at hv
  unfold Reader.ofText
  generalize Outline.scan s.toList = found at hkeys hv ⊢
  obtain ⟨o, rest⟩ := found
  obtain ⟨j, hj, hv⟩ := bind_eq_ok_iff.mp hv
  split at hv
  · rename_i hrest
    cases hv
    have hread := agreesUpTo_reader depthLimit o v ⟨hj, hkeys⟩
    simp only [hrest, if_true, bind_pure]
    exact hread
  · cases hv

/-- A text in which no key is repeated, and the value that it is parsed to, are both read as a
response or both refused. The response is the same but for its entries, which are in the order of
the text on one way and in the order of the bytes of their keys on the other. So the briefs are the
same if there is a document. -/
theorem ofText_agrees {s : String} {v : Json}
    (hkeys : (Outline.scan s.toList).1.hasDistinctKeys = true) (hv : Json.ofText s = .ok v) :
    ((∃ r, ofText s = .ok r) ↔ ∃ r, ofJson v = .ok r) ∧
      ∀ r r', ofText s = .ok r → ofJson v = .ok r' → r.KeySorted r' ∧
        (r.document.isSome = true → ∀ limit, r.brief limit = r'.brief limit) := by
  have hagree := agree_ofText hkeys hv
  unfold ofText ofJson
  generalize record.reader.ofText s = x at hagree
  generalize record.reader.fromValue v = y at hagree
  cases hagree with
  | error e f => exact ⟨⟨nofun, nofun⟩, nofun⟩
  | @ok a b hab =>
    refine ⟨⟨fun _ => ⟨b, rfl⟩, fun _ => ⟨a, rfl⟩⟩, fun r r' hr hr' => ?_⟩
    cases hr
    cases hr'
    exact ⟨hab, hab.brief_eq⟩

/-- Entries that are not in the order of their keys, a keyword as an object and an unknown field. -/
theorem ofText_agrees_entries :
    let s := "\x7b\"nodes\":\x7b\"9\":null,\"10\":null\x7d,\"x\":7,\"document\":\x7b\"layoutMode\":\x7b\"A\":null\x7d\x7d\x7d"
    let keys (r : Response) : Option (List String) := r.nodes.map fun es => es.map (·.1)
    ∃ v r r', (Outline.scan s.toList).1.hasDistinctKeys = true ∧ Json.ofText s = .ok v ∧
      ofText s = .ok r ∧ ofJson v = .ok r' ∧ keys r = some ["9", "10"] ∧
      keys r' = some ["10", "9"] ∧ r.KeySorted r' ∧ r.brief none = r'.brief none := by
  intro s keys
  let v := Json.object [
    ("document", .object [("layoutMode", .object [("A", .null)])]),
    ("nodes", .object [("10", .null), ("9", .null)]),
    ("x", .number (.integer 7))]
  have hkeys : (Outline.scan s.toList).1.hasDistinctKeys = true := by decide +kernel
  have hv : Json.ofText s = .ok v := by
    subst s v
    cbv
  have hread : (ofText s).map (fun r => (r.document.isSome, keys r)) =
      .ok (true, some ["9", "10"]) := by
    decide +kernel
  have hread' : (ofJson v).map keys = .ok (some ["10", "9"]) := by decide +kernel
  cases hr : ofText s with
  | error e => rw [hr] at hread; cases hread
  | ok r =>
    cases hr' : ofJson v with
    | error e => rw [hr'] at hread'; cases hread'
    | ok r' =>
      obtain ⟨-, hsame⟩ := ofText_agrees hkeys hv
      obtain ⟨hsorted, hbrief⟩ := hsame r r' hr hr'
      rw [hr] at hread
      rw [hr'] at hread'
      obtain ⟨hdocument, hkeysof⟩ := Prod.mk.inj (Except.ok.inj hread)
      exact ⟨v, r, r', hkeys, hv, rfl, hr', hkeysof, Except.ok.inj hread', hsorted,
        hbrief hdocument none⟩

end Response

end DesignBrief
