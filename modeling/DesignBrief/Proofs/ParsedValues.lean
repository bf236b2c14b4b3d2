import DesignBrief.Json.Generic
import DesignBrief.Proofs.Reading

/-!
Texts and the JSON values that they are parsed to. `Outline.Means` relates the two as long as no
object repeats a key; in the value the members of an object come in the order of their keys,
`Json.exists_ofMembers`. Two ways to make something of both agree if they fail together and what
they make is related, `Agree`.
-/

namespace DesignBrief

/-! ## Results that agree -/

/-- Two results that are both faults, or related values. -/
inductive Agree {α β : Type} (R : α → β → Prop) : Except Fault α → Except Fault β → Prop
  | ok {a : α} {b : β} (h : R a b) : Agree R (.ok a) (.ok b)
  | error (e f : Fault) : Agree R (.error e) (.error f)

namespace Agree

variable {α β γ δ : Type} {R : α → β → Prop} {S : γ → δ → Prop} {x : Except Fault α}
  {y : Except Fault β}

theorem map (h : Agree R x y) {f : α → γ} {g : β → δ} (hfg : ∀ a b, R a b → S (f a) (g b)) :
    Agree S (x.map f) (y.map g) := by
  cases h with
  | ok h => exact .ok (hfg _ _ h)
  | error e f => exact .error e f

theorem imp (h : Agree R x y) {T : α → β → Prop} (hRT : ∀ a b, R a b → T a b) : Agree T x y := by
  cases h with
  | ok h => exact .ok (hRT _ _ h)
  | error e f => exact .error e f

/-- What is known of the second result may be added. -/
theorem and_right (h : Agree R x y) {P : β → Prop} (hP : ∀ b, y = .ok b → P b) :
    Agree (fun a b => R a b ∧ P b) x y := by
  cases h with
  | ok h => exact .ok ⟨h, hP _ rfl⟩
  | error e f => exact .error e f

theorem bind (h : Agree R x y) {f : α → Except Fault γ} {g : β → Except Fault δ}
    (hfg : ∀ a b, R a b → Agree S (f a) (g b)) : Agree S (x >>= f) (y >>= g) := by
  cases h with
  | ok h => exact hfg _ _ h
  | error e f => exact .error e f

theorem refl (x : Except Fault α) : Agree Eq x x := by
  cases x with
  | ok a => exact .ok rfl
  | error e => exact .error e e

/-- One step after the other. -/
theorem trans {z : Except Fault γ} {T : β → γ → Prop} {U : α → γ → Prop} (hxy : Agree R x y)
    (hyz : Agree T y z) (h : ∀ a b c, R a b → T b c → U a c) : Agree U x z := by
  cases hxy with
  | error e f =>
    cases hyz with
    | error _ g => exact .error e g
  | ok hab =>
    cases hyz with
    | ok hbc => exact .ok (h _ _ _ hab hbc)

theorem mapM {f : α → Except Fault γ} {g : β → Except Fault δ} {xs : List α} {ys : List β}
    (h : List.Forall₂ (fun a b => Agree S (f a) (g b)) xs ys) :
    Agree (List.Forall₂ S) (xs.mapM f) (ys.mapM g) := by
  induction h with
  | nil => exact .ok .nil
  | cons hab _ ih =>
    rw [List.mapM_cons, List.mapM_cons]
    exact hab.bind fun c d hcd => ih.bind fun cs ds hcds => .ok (.cons hcd hcds)

/-- What is made of a list item by item comes in the order of the list. -/
theorem mapM_perm {f : α → Except Fault γ} {xs ys : List α} (h : xs.Perm ys) :
    Agree List.Perm (xs.mapM f) (ys.mapM f) := by
  induction h with
  | nil => exact .ok .nil
  | cons a _ ih =>
    rw [List.mapM_cons, List.mapM_cons]
    refine (refl (f a)).bind fun c d hcd => ih.bind fun cs ds hcds => ?_
    subst hcd
    exact .ok (hcds.cons c)
  | swap a b xs =>
    simp only [List.mapM_cons, bind_assoc, pure_bind]
    cases f a with
    | error e =>
      cases f b with
      | error e' => exact .error e' e
      | ok d => exact .error e e
    | ok c =>
      cases f b with
      | error e' => exact .error e' e'
      | ok d => exact (refl (xs.mapM f)).bind fun cs ds hcds => .ok (hcds ▸ .swap c d cs)
  | trans _ _ ih ih' => exact ih.trans ih' fun _ _ _ => List.Perm.trans

end Agree

/-! ## Texts that are parsed -/

namespace Outline

/-- The ways in which an outline is parsed. -/
inductive ParsesTo : Nat → Outline → Json → Prop
  | null {depth : Nat} : ParsesTo depth (.word .null) .null
  | true {depth : Nat} : ParsesTo depth (.word .true) (.bool true)
  | false {depth : Nat} : ParsesTo depth (.word .false) (.bool false)
  | number {depth : Nat} {n : Numeral} {v : Number} (h : n.value = .ok v) :
      ParsesTo depth (.number n) (.number v)
  | text {depth : Nat} {q : Quoted} {s : String} (h : q.decode = .ok s) :
      ParsesTo depth (.text q) (.string s)
  | list {depth : Nat} {items : List Outline} {js : List Json}
      (h : itemsToJson depth items = .ok js) :
      ParsesTo (depth + 1) (.list items .closed) (.array js)
  | object {depth : Nat} {members : List (Outline × Outline)} {ms : List (String × Json)}
      (h : membersToJson depth members = .ok ms) :
      ParsesTo (depth + 1) (.object members .closed) (.ofMembers ms)

theorem parsesTo_of_toJson {depth : Nat} {o : Outline} {j : Json} (h : o.toJson depth = .ok j) :
    ParsesTo depth o j := by
  cases o with
  | word w =>
    cases w <;> simp only [toJson, Except.ok.injEq] at h <;> subst h
    exacts [.null, .true, .false]
  | number n =>
    simp only [toJson] at h
    obtain ⟨v, hv, rfl⟩ := map_eq_ok_iff.mp h
    exact .number hv
  | text q =>
    simp only [toJson] at h
    obtain ⟨s, hs, rfl⟩ := map_eq_ok_iff.mp h
    exact .text hs
  | list items stop =>
    cases depth with
    | zero => cases h
    | succ depth =>
      obtain ⟨js, hjs, h⟩ := bind_eq_ok_iff.mp h
      cases stop <;> cases h
      exact .list hjs
  | object members stop =>
    cases depth with
    | zero => cases h
    | succ depth =>
      obtain ⟨ms, hms, h⟩ := bind_eq_ok_iff.mp h
      cases stop <;> cases h
      exact .object hms
  | badWord w ended => cases h
  | badNumber ended => cases h
  | broken why => cases h

end Outline

/-- A string that is decoded ends by its quote. -/
theorem Quoted.stop_of_characters {stop : QuoteEnd} {ps : List Piece} {cs : List Char}
    (h : characters stop ps = .ok cs) : stop = .closed := by
  fun_induction characters stop ps generalizing cs with
  | case1 => cases stop <;> first | rfl | cases h
  | case2 c rest ih =>
    obtain ⟨ds, hds, -⟩ := map_eq_ok_iff.mp h
    exact ih hds
  | case3 => cases h
  | case4 => cases h
  | case5 => cases h
  | case6 n _ _ m rest _ ih =>
    obtain ⟨ds, hds, -⟩ := map_eq_ok_iff.mp h
    exact ih hds
  | case7 => cases h
  | case8 n rest _ _ ih =>
    obtain ⟨ds, hds, -⟩ := map_eq_ok_iff.mp h
    exact ih hds

theorem Quoted.skip_of_decode {q : Quoted} {s : String} (h : q.decode = .ok s) :
    q.skip = .ok () := by
  obtain ⟨cs, hcs, -⟩ := map_eq_ok_iff.mp h
  rw [skip, stop_of_characters hcs]
  rfl

namespace Outline

mutual

/-- Whatever is parsed may be skipped. -/
theorem skip_of_toJson {depth : Nat} {j : Json} : (o : Outline) → o.toJson depth = .ok j →
    o.skip = .ok ()
  | .word _, _ => rfl
  | .number _, _ => rfl
  | .text q, h => by
    obtain ⟨s, hs, -⟩ := map_eq_ok_iff.mp h
    exact Quoted.skip_of_decode hs
  | .list items stop, h => by
    cases parsesTo_of_toJson h with
    | list hitems => rw [skip, skipItems_of_itemsToJson items hitems]; rfl
  | .object members stop, h => by
    cases parsesTo_of_toJson h with
    | object hmembers => rw [skip, skipMembers_of_membersToJson members hmembers]; rfl
  | .badWord _ _, h => by cases h
  | .badNumber _, h => by cases h
  | .broken _, h => by cases h
termination_by structural o => o

theorem skipItems_of_itemsToJson {depth : Nat} {js : List Json} : (items : List Outline) →
    itemsToJson depth items = .ok js → skipItems items = .ok ()
  | [], _ => rfl
  | o :: rest, h => by
    obtain ⟨j, hj, h⟩ := bind_eq_ok_iff.mp h
    obtain ⟨js, hjs, -⟩ := bind_eq_ok_iff.mp h
    rw [skipItems, skip_of_toJson o hj, skipItems_of_itemsToJson rest hjs]
    rfl
termination_by structural items => items

theorem skipMembers_of_membersToJson {depth : Nat} {ms : List (String × Json)} :
    (members : List (Outline × Outline)) → membersToJson depth members = .ok ms →
    skipMembers members = .ok ()
  | [], _ => rfl
  | (k, v) :: rest, h => by
    obtain ⟨key, hkey, h⟩ := bind_eq_ok_iff.mp h
    obtain ⟨j, hj, h⟩ := bind_eq_ok_iff.mp h
    obtain ⟨ms, hms, -⟩ := bind_eq_ok_iff.mp h
    cases k with
    | text q =>
      rw [skipMembers, Quoted.skip_of_decode hkey, skip_of_toJson v hj,
        skipMembers_of_membersToJson rest hms]
      rfl
    | _ => cases hkey
termination_by structural members => members

end

mutual

/-- Whether no object in an outline repeats a key. -/
def hasDistinctKeys : Outline → Bool
  | .list items _ => itemsHaveDistinctKeys items
  | .object members _ =>
    decide (members.map fun m => m.1.key).Nodup && membersHaveDistinctKeys members
  | .word _ => true
  | .number _ => true
  | .text _ => true
  | .badWord _ _ => true
  | .badNumber _ => true
  | .broken _ => true
termination_by structural o => o

def itemsHaveDistinctKeys : List Outline → Bool
  | [] => true
  | o :: rest => hasDistinctKeys o && itemsHaveDistinctKeys rest
termination_by structural items => items

def membersHaveDistinctKeys : List (Outline × Outline) → Bool
  | [] => true
  | (_, v) :: rest => hasDistinctKeys v && membersHaveDistinctKeys rest
termination_by structural members => members

end

/-- An outline that is parsed to a value and in which no object repeats a key. -/
structure Means (depth : Nat) (o : Outline) (j : Json) : Prop where
  parsed : o.toJson depth = .ok j
  distinct : o.hasDistinctKeys = true

variable {depth : Nat}

theorem means_items {items : List Outline} {js : List Json}
    (h : itemsToJson depth items = .ok js) (hkeys : itemsHaveDistinctKeys items = true) :
    List.Forall₂ (Means depth) items js := by
  induction items generalizing js with
  | nil =>
    cases h
    exact .nil
  | cons o rest ih =>
    rw [itemsHaveDistinctKeys, Bool.and_eq_true] at hkeys
    obtain ⟨j, hj, h⟩ := bind_eq_ok_iff.mp h
    obtain ⟨js, hjs, h⟩ := bind_eq_ok_iff.mp h
    cases h
    exact .cons ⟨hj, hkeys.1⟩ (ih hjs hkeys.2)

structure MeansMember (depth : Nat) (m : Outline × Outline) (n : String × Json) : Prop where
  key : m.1.key = .ok n.1
  value : Means depth m.2 n.2

theorem means_members {members : List (Outline × Outline)} {ms : List (String × Json)}
    (h : membersToJson depth members = .ok ms) (hkeys : membersHaveDistinctKeys members = true) :
    List.Forall₂ (MeansMember depth) members ms := by
  induction members generalizing ms with
  | nil =>
    cases h
    exact .nil
  | cons m rest ih =>
    obtain ⟨k, v⟩ := m
    rw [membersHaveDistinctKeys, Bool.and_eq_true] at hkeys
    obtain ⟨key, hkey, h⟩ := bind_eq_ok_iff.mp h
    obtain ⟨j, hj, h⟩ := bind_eq_ok_iff.mp h
    obtain ⟨ms, hms, h⟩ := bind_eq_ok_iff.mp h
    cases h
    exact .cons ⟨hkey, hj, hkeys.1⟩ (ih hms hkeys.2)

theorem map_key_of_means {members : List (Outline × Outline)} {ms : List (String × Json)}
    (h : List.Forall₂ (MeansMember depth) members ms) :
    members.map (fun m => m.1.key) = (ms.map (·.1)).map .ok := by
  induction h with
  | nil => rfl
  | cons hm _ ih => rw [List.map_cons, List.map_cons, List.map_cons, hm.key, ih]

/-- The keys of an object are distinct in the value as well. -/
theorem nodup_keys_of_means {members : List (Outline × Outline)} {ms : List (String × Json)}
    (h : List.Forall₂ (MeansMember depth) members ms)
    (hkeys : (members.map fun m => m.1.key).Nodup) : (ms.map (·.1)).Nodup := by
  rw [map_key_of_means h] at hkeys
  exact hkeys.of_map _

end Outline

/-! ## Objects with their members ordered -/

namespace Json

theorem insertMember_perm {key : String} {members : List (String × Json)}
    (h : key ∉ members.map (·.1)) (value : Json) :
    (insertMember key value members).Perm ((key, value) :: members) := by
  induction members with
  | nil => exact .refl _
  | cons m rest ih =>
    obtain ⟨k, v⟩ := m
    rw [List.map_cons, List.mem_cons, not_or] at h
    rw [insertMember, if_neg h.1]
    split
    · exact .refl _
    · exact ((ih h.2).cons (k, v)).trans (.swap (key, value) (k, v) rest)

/-- The keys of members are in their order, and none is there twice. -/
def Ordered (members : List (String × Json)) : Prop := (members.map (·.1)).Pairwise (· < ·)

theorem ordered_nil : Ordered [] := List.Pairwise.nil

theorem mem_keys_insertMember {key k : String} {value : Json} {members : List (String × Json)}
    (h : k ∈ (insertMember key value members).map (·.1)) : k = key ∨ k ∈ members.map (·.1) := by
  induction members with
  | nil => exact .inl (List.mem_singleton.mp h)
  | cons m rest ih =>
    obtain ⟨l, v⟩ := m
    rw [insertMember] at h
    split at h
    · exact List.mem_cons.mp h
    · split at h
      · rcases List.mem_cons.mp h with rfl | h
        · exact .inl rfl
        · exact .inr (List.mem_cons_of_mem _ h)
      · rcases List.mem_cons.mp h with rfl | h
        · exact .inr List.mem_cons_self
        · exact (ih h).imp_right (List.mem_cons_of_mem _)

theorem Ordered.insertMember {members : List (String × Json)} (h : Ordered members) (key : String)
    (value : Json) : Ordered (insertMember key value members) := by
  induction members with
  | nil => exact List.pairwise_singleton _ _
  | cons m rest ih =>
    obtain ⟨k, v⟩ := m
    obtain ⟨hk, hrest⟩ := List.pairwise_cons.mp h
    rw [Json.insertMember]
    split
    · rename_i hlt
      refine List.pairwise_cons.mpr ⟨fun l hl => ?_, h⟩
      rcases List.mem_cons.mp hl with rfl | hl
      · exact hlt
      · exact hlt.trans (hk l hl)
    · split
      · rename_i heq
        subst heq
        exact h
      · rename_i hlt hne
        refine List.pairwise_cons.mpr ⟨fun l hl => ?_, ih hrest⟩
        rcases mem_keys_insertMember hl with rfl | hl
        · exact lt_of_le_of_ne (not_lt.mp hlt) fun h => hne h.symm
        · exact hk l hl

theorem foldl_insertMember_perm {members before : List (String × Json)}
    (h : ((before ++ members).map (·.1)).Nodup) :
    (members.foldl (fun sorted m => insertMember m.1 m.2 sorted) before).Perm
      (before ++ members) := by
  induction members generalizing before with
  | nil =>
    rw [List.append_nil]
    exact .refl before
  | cons m rest ih =>
    have hperm : (before ++ m :: rest).Perm (m :: before ++ rest) := List.perm_middle
    have hnd : ((m :: before ++ rest).map (·.1)).Nodup := (hperm.map _).nodup_iff.mp h
    have hnew : m.1 ∉ before.map (·.1) := by
      intro hm
      rw [List.cons_append, List.map_cons, List.map_append] at hnd
      exact (List.nodup_cons.mp hnd).1 (List.mem_append_left _ hm)
    have hinsert := (insertMember_perm hnew m.2).append_right rest
    have hrest := ih ((hinsert.map _).nodup_iff.mpr hnd)
    exact (hrest.trans hinsert).trans hperm.symm

theorem Ordered.foldl_insertMember {before : List (String × Json)} (h : Ordered before)
    (members : List (String × Json)) :
    Ordered (members.foldl (fun sorted m => Json.insertMember m.1 m.2 sorted) before) := by
  induction members generalizing before with
  | nil => exact h
  | cons m rest ih => exact ih (h.insertMember m.1 m.2)

/-- If no key is repeated, an object has its members in the order of their keys. -/
theorem exists_ofMembers {members : List (String × Json)} (h : (members.map (·.1)).Nodup) :
    ∃ sorted, ofMembers members = .object sorted ∧ sorted.Perm members ∧ Ordered sorted :=
  ⟨_, rfl, foldl_insertMember_perm h, ordered_nil.foldl_insertMember members⟩

end Json

end DesignBrief
