import DesignBrief.Brief.Walk
import DesignBrief.Proofs.Grammar
import DesignBrief.Proofs.Places
import DesignBrief.Proofs.Skipping

/-!
Design files of a newer schema. A member that is unknown to a record changes nothing there, and
another string where a keyword is expected is read as another keyword. So no such text is refused,
`Response.ofText_newer`.
-/

namespace DesignBrief

open Reader

/-! ## Edits -/

mutual

/-- Whatever is written can be skipped, however deep and with whatever numbers. -/
theorem Written.skip_outline (v : Written) : v.outline.skip = .ok () := by
  match v with
  | .word _ => rfl
  | .number _ => rfl
  | .text _ => rfl
  | .list items _ =>
    rw [outline, Outline.skip, skipItems_outlineItems items]
    rfl
  | .object members _ =>
    rw [outline, Outline.skip, skipMembers_outlineMembers members]
    rfl
termination_by structural v

theorem Written.skipItems_outlineItems (items : List (Margin × Written)) :
    Outline.skipItems (outlineItems items) = .ok () := by
  match items with
  | [] => rfl
  | (_, v) :: rest =>
    rw [outlineItems, Outline.skipItems, skip_outline v]
    exact skipItems_outlineItems rest
termination_by structural items

theorem Written.skipMembers_outlineMembers (members : List (Label × Written)) :
    Outline.skipMembers (outlineMembers members) = .ok () := by
  match members with
  | [] => rfl
  | (l, v) :: rest =>
    have hkey : l.key.quoted.skip = .ok () := rfl
    rw [outlineMembers, Outline.skipMembers, hkey, skip_outline v]
    exact skipMembers_outlineMembers rest
termination_by structural members

end

/-- A member that no field of the record reads makes no difference. -/
theorem Record.fromText_insert {σ : Type} {R : Record σ} {before after : List (Label × Written)}
    {l : Label} {name : String} (hl : l.key.quoted.decode = .ok name) (hname : R.field? name = none)
    (v : Written) (pad : Blanks) (depth : Nat) :
    R.reader.fromText depth (Written.object (before ++ (l, v) :: after) pad).outline =
      R.reader.fromText depth (Written.object (before ++ after) pad).outline := by
  cases depth with
  | zero => rfl
  | succ depth =>
    have happend : Written.outlineMembers (before ++ after) =
        Written.outlineMembers before ++ Written.outlineMembers after := by
      induction before with
      | nil => rfl
      | cons m before ih => rw [List.cons_append, Written.outlineMembers, ih]; rfl
    have hmembers : R.readMembers depth [] R.blank
          (Written.outlineMembers (before ++ (l, v) :: after)) =
        R.readMembers depth [] R.blank (Written.outlineMembers (before ++ after)) := by
      rw [Written.outlineMembers_append, happend, readMembers_append, readMembers_append]
      refine bind_congr fun found => ?_
      rw [readMembers_unknown (k := .text l.key.quoted) hl hname, v.skip_outline]
      rfl
    rw [Written.outline, Written.outline, fromText_object, fromText_object, hmembers]

theorem Reader.ofText_document {α : Type} {r : Reader α} {d : Document} {a : α} :
    r.ofText d.text = .ok a ↔ r.fromText depthLimit d.value.outline = .ok a := by
  have hblank : Scanner.trim d.after.1 = [] := by
    have htrim := Scanner.trim_append d.after.2 []
    rwa [List.append_nil] at htrim
  rw [ofText_eq_ok_iff, Outline.scan_document]
  exact and_iff_left hblank

namespace Response

theorem ofText_document {d : Document} {r : Response} :
    ofText d.text = .ok r ↔ record.reader.fromText depthLimit d.value.outline = .ok r :=
  mapError_eq_ok_iff.trans Reader.ofText_document

/-- What is read as a response is the text of a document. -/
theorem exists_document_of_ofText {s : String} {r : Response} (h : ofText s = .ok r) :
    ∃ d : Document, d.text = s := by
  obtain ⟨hread, hrest⟩ := Reader.ofText_eq_ok_iff.mp (mapError_eq_ok_iff.mp h)
  exact Document.exists_of_skip (skips_reader _ _ _ hread) hrest

/-- A newer schema makes no text of a response unreadable. The text is that of a document. In any
object of it that is read as a record, another member may be put at any position: if its key is
not that of a field, the same response is read, whatever its value. And where a keyword is expected
there may be any other string that is not cut off in the middle of a character: what is read is
the same response, but with another keyword at that place. -/
theorem ofText_newer {s : String} {r : Response} (h : ofText s = .ok r) :
    (∃ d : Document, d.text = s) ∧ ∀ d : Document, d.text = s →
      (∀ {σ : Type} {R : Record σ} (p : Place R.reader record.reader)
          (before after : List (Label × Written)) (pad : Blanks),
        d.value = p.write (.object (before ++ after) pad) →
        ∀ (l : Label) (v : Written) (name : String), l.key.quoted.decode = .ok name →
          R.field? name = none →
          ofText { d with value := p.write (.object (before ++ (l, v) :: after) pad) }.text =
            .ok r) ∧
      (∀ {κ : Type} [Keyword κ] (p : Place (keyword κ) record.reader) (t : Literal),
        d.value = p.write (.text t) →
        ∀ (u : Literal) (name : String), u.quoted.decode = .ok name →
          ∃ set old, p.Sets set ∧ t.quoted.decode = .ok old ∧ r = set (Keyword.ofName old) ∧
            ofText { d with value := p.write (.text u) }.text =
              .ok (set (Keyword.ofName name))) := by
  refine ⟨exists_document_of_ofText h, ?_⟩
  rintro d rfl
  rw [ofText_document] at h
  constructor
  · intro σ R p before after pad hd l v name hl hname
    rw [hd] at h
    obtain ⟨inner, set, b, -, rfl, hb, hsame⟩ := p.exists_set _ _ _ (by nofun) h
    rw [ofText_document]
    refine hsame _ b nofun ?_
    rw [Record.fromText_insert hl hname, hb]
  · intro κ _ p t hd u name hu
    rw [hd] at h
    obtain ⟨inner, set, k, hset, rfl, hk, hsame⟩ := p.exists_set _ _ _ (by nofun) h
    obtain ⟨old, hold, rfl⟩ := map_eq_ok_iff.mp hk
    refine ⟨set, old, hset, hold, rfl, ?_⟩
    rw [ofText_document]
    exact hsame _ _ nofun (map_eq_ok_iff.mpr ⟨name, hu, rfl⟩)

/-- An unknown member behind a layout mode, and another layout mode. -/
theorem ofText_newer_layoutMode :
    let s := "\x7b\"document\":\x7b\"layoutMode\":\"NONE\"\x7d\x7d"
    let s' := "\x7b\"document\":\x7b\"layoutMode\":\"NONE\",\"a\":[[1E999]]\x7d\x7d"
    let s'' := "\x7b\"document\":\x7b\"layoutMode\":\"X\"\x7d\x7d"
    let mode (r : Response) : Option (Option LayoutMode) :=
      r.document.map (·.attributes.layoutMode)
    ∃ r r', ofText s = .ok r ∧ ofText s' = .ok r ∧ ofText s'' = .ok r' ∧
      mode r = some (some .none) ∧ mode r' = some (some .unknown) := by
  intro s s' s'' mode
  have hread : (ofText s).map mode = .ok (some (some .none)) := by decide +kernel
  cases h : ofText s with
  | error e => rw [h] at hread; cases hread
  | ok r =>
    let name (t : String) : Literal :=
      t.toList.filterMap fun c => if h : Scanner.isPlain c = true then some (.plain c h) else none
    let document : Label := { key := name "document" }
    let layoutMode : Label := { key := name "layoutMode" }
    let figure : Figure :=
      ⟨⟨false, [1], [], some (false, [9, 9, 9])⟩, ⟨.inr ⟨1, [], by decide, rfl⟩, by simp⟩, true, false⟩
    let deep : Written := .list [({}, .list [({}, .number figure)] .none)] .none
    let none : Written := .object [(layoutMode, .text (name "NONE"))] .none
    let d : Document := { value := .object [(document, none)] .none }
    have hd : d.text = s := by decide +kernel
    let node : Record Node := Node.record (Node.readerTo 126)
    let inResponse {β : Type} {q : Reader β} (p : Place q node.reader) : Place q record.reader :=
      .member (show record.field? "document" = some record.fields[3] from rfl)
        (Slot.reads_optional _ _ _) [] document (by decide +kernel) (.optional p) [] .none
    let inNode : Place (keyword LayoutMode) node.reader :=
      .member
        (show node.field? "layoutMode" = some node.fields[18] from rfl)
        (Slot.reads_optional _ _ _) [] layoutMode (by decide +kernel) (.optional .here) [] .none
    obtain ⟨-, hnewer⟩ := ofText_newer h
    obtain ⟨hinsert, hrename⟩ := hnewer d hd
    have hs' := hinsert (inResponse .here) [(layoutMode, .text (name "NONE"))]
      [] .none rfl { key := name "a" } deep "a" (by decide +kernel) (by decide +kernel)
    obtain ⟨set, old, hset, hold, hr, hs''⟩ := hrename (inResponse inNode)
      (name "NONE") rfl (name "X") "X" (by decide +kernel)
    have htext' : Document.text { value := (inResponse .here).write (.object ([(layoutMode,
        .text (name "NONE"))] ++ [({ key := name "a" }, deep)]) .none) } = s' := by
      decide +kernel
    have htext'' : Document.text { value := (inResponse inNode).write (.text (name "X")) } = s'' := by
      decide +kernel
    rw [htext'] at hs'
    rw [htext''] at hs''
    rw [h] at hread
    obtain ⟨_, _, ⟨_, ⟨_, _, ⟨_, rfl, rfl⟩, rfl⟩, rfl⟩, rfl⟩ := hset
    exact ⟨r, _, rfl, hs', hs'', Except.ok.inj hread, rfl⟩

end Response

end DesignBrief
