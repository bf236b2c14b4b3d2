import DesignBrief.Proofs.Undoing
import DesignBrief.Scene.Printer

/-!
A design file that is written and read again. Every type of a design file is undone by its reader,
field by field in the order in which they are written; nodes by induction on the generations that
the reader goes down. So a response that is legible is read as it was, `Response.ofText_write`.
-/

namespace DesignBrief

open Reader Record

variable {depth : Nat}

/-! ## Records without children -/

theorem Point.undoes : Point.record.reader.Undoes depth Point.toJson :=
  Record.undoes (by decide) fun _ _ _ => .required undoes_double <| .required undoes_double .nil

theorem Box.undoes : Box.record.reader.Undoes depth Box.toJson :=
  Record.undoes (by decide) fun _ _ _ => .optional undoes_double <| .optional undoes_double <|
    .optional undoes_double <| .optional undoes_double .nil

theorem Edges.undoes : Edges.record.reader.Undoes depth Edges.toJson :=
  Record.undoes (by decide) fun _ _ _ => .optional undoes_double <| .optional undoes_double <|
    .optional undoes_double <| .optional undoes_double .nil

theorem Color.undoes : Color.record.reader.Undoes depth Color.toJson :=
  Record.undoes (by decide) fun _ _ _ => .optional undoes_double <| .optional undoes_double <|
    .optional undoes_double <| .optional undoes_double .nil

theorem ColorStop.undoes : ColorStop.record.reader.Undoes depth ColorStop.toJson :=
  Record.undoes (by decide) fun _ _ _ => .required undoes_double <| .required Color.undoes .nil

/-! ## Fields that may be missing -/

section Missing

variable {α : Type} {r : Reader α} {write : α → Json}

theorem undoes_text? : text.optional.Undoes depth (Json.ofOption .string) :=
  undoes_text.optional nofun

theorem undoes_flag? : flag.optional.Undoes depth (Json.ofOption .bool) :=
  undoes_flag.optional nofun

theorem undoes_double? : double.optional.Undoes depth (Json.ofOption Json.real) :=
  undoes_double.optional nofun

theorem undoes_keyword? [Keyword α] :
    (keyword α).optional.Undoes depth (Json.ofOption Json.keyword) :=
  undoes_keyword.optional nofun

theorem undoes_list? (h : ∀ e < depth, r.Undoes e write) :
    r.list.optional.Undoes depth (Json.ofOption (Json.ofList write)) :=
  (Undoes.list h).optional fun _ => by cases depth <;> exact nofun

theorem undoes_record? {σ : Type} {r : Record σ} {write : σ → Json}
    (h : r.reader.Undoes depth write) : r.reader.optional.Undoes depth (Json.ofOption write) :=
  h.optional fun _ => by cases depth <;> exact nofun

end Missing

theorem Paint.undoes : Paint.record.reader.Undoes depth Paint.toJson :=
  Record.undoes (by decide) fun _ _ _ =>
    .required undoes_keyword <| .optional undoes_flag? <| .optional undoes_double? <|
    .optional (undoes_record? Color.undoes) <| .optional (undoes_list? fun _ _ => Point.undoes) <|
    .optional (undoes_list? fun _ _ => ColorStop.undoes) <| .optional undoes_text? <|
    .optional undoes_keyword? .nil

theorem Effect.undoes : Effect.record.reader.Undoes depth Effect.toJson :=
  Record.undoes (by decide) fun _ _ _ =>
    .required undoes_keyword <| .optional undoes_flag? <| .optional undoes_double <|
    .optional (undoes_record? Color.undoes) <| .optional (undoes_record? Point.undoes) <|
    .optional undoes_double? .nil

theorem TypeStyle.undoes : TypeStyle.record.reader.Undoes depth TypeStyle.toJson :=
  Record.undoes (by decide) fun _ _ _ =>
    .optional undoes_text? <| .optional undoes_double? <| .optional undoes_double? <|
    .optional undoes_double? <| .optional undoes_double? <| .optional undoes_text? <|
    .optional undoes_text? <| .optional undoes_text? .nil

/-! ## Nodes -/

namespace Node

/-- The members of a node, those of its attributes around its children. -/
def members (n : Node) : List (String × Json) :=
  n.attributes.head ++ ("children", .ofOption (.ofList toJson) n.children) :: n.attributes.tail

theorem listToJson_eq_map (nodes : List Node) : listToJson nodes = nodes.map toJson := by
  induction nodes with
  | nil => rfl
  | cons n rest ih => rw [listToJson, ih, List.map_cons]

theorem toJson_eq (n : Node) : n.toJson = .object n.members := by
  obtain ⟨a, _ | children⟩ := n
  · rfl
  · rw [toJson, listToJson_eq_map]
    rfl

theorem restores_own {α : Type} {key : String} {r : Reader α} {write : α → Json}
    {put : α → Attributes → Attributes} {v : α} {fs : List (Slot Node)} {ms : List (String × Json)}
    {a : Attributes} {children : Option (List Node)} {n : Node} (h : r.Undoes depth write)
    (rest : Restores depth fs ms ⟨put v a, children⟩ n) :
    Restores depth (own key r put :: fs) ((key, write v) :: ms) ⟨a, children⟩ n := by
  let putOwn (v : α) (n : Node) : Node := { n with attributes := put v n.attributes }
  show Restores depth (.optional key r putOwn :: fs) _ _ _
  exact .optional h rest

theorem restores_record {child : Reader Node}
    (hchild : child.list.optional.Undoes depth (.ofOption (.ofList toJson))) (n : Node) :
    Restores depth (record child).fields n.members (record child).blank n := by
  obtain ⟨a, children⟩ := n
  cases a
  unfold record members Attributes.head Attributes.tail
  simp only [List.cons_append, List.nil_append]
  refine restores_own undoes_text <| restores_own undoes_text <| restores_own undoes_text <|
    restores_own undoes_flag? <| .optional hchild <|
    restores_own (undoes_record? Box.undoes) <|
    restores_own (undoes_list? fun _ _ => Paint.undoes) <|
    restores_own (undoes_list? fun _ _ => Paint.undoes) <| restores_own undoes_double? <|
    restores_own (undoes_record? Edges.undoes) <|
    restores_own (undoes_list? fun _ _ => undoes_double) <|
    restores_own (undoes_list? fun _ _ => Effect.undoes) <|
    restores_own (undoes_record? TypeStyle.undoes) <|
    restores_own undoes_text? <| restores_own undoes_double? <| restores_own undoes_double? <|
    restores_own (undoes_list? fun _ _ => undoes_double) <| restores_own undoes_flag? <|
    restores_own undoes_keyword? <| restores_own undoes_keyword? <| restores_own undoes_keyword? <|
    restores_own undoes_keyword? <| restores_own undoes_double? <| restores_own undoes_double? <|
    restores_own undoes_double? <| restores_own undoes_double? <| restores_own undoes_double? <|
    restores_own undoes_keyword? <| restores_own undoes_keyword? <| restores_own undoes_double? <|
    restores_own undoes_keyword? <| restores_own undoes_keyword? <| restores_own undoes_keyword? <|
    restores_own undoes_flag? .nil

/-- Who reads the children makes no difference to the keys. -/
theorem nodup_keys_record (child : Reader Node) : (record child).keys.Nodup := by
  have hkeys : (record child).keys = (record (.refuse .tooDeep)).keys := rfl
  rw [hkeys]
  decide

theorem undoes_record {child : Reader Node}
    (hchild : ∀ e, e + 1 < depth → child.Undoes e toJson) :
    (record child).reader.Undoes depth toJson := by
  have hmembers : toJson = fun n => Json.object n.members := funext toJson_eq
  have hfields (e : Nat) (he : e < depth) (n : Node) :
      Restores e (record child).fields n.members (record child).blank n := by
    refine restores_record ?_ n
    exact undoes_list? fun d hd => hchild d (by omega)
  rw [hmembers]
  exact Record.undoes (nodup_keys_record child) hfields

/-- Each generation opens a bracket for the node and one for its children, so the reader goes down
far enough. -/
theorem undoes_readerTo {generations : Nat} (h : depth ≤ generations) :
    (readerTo generations).Undoes depth toJson := by
  induction generations generalizing depth with
  | zero => exact undoes_record fun e he => absurd he (by omega)
  | succ g ih => exact undoes_record fun e he => ih (by omega)

end Node

/-! ## Responses -/

theorem NodeEntry.undoes (h : depth ≤ depthLimit) :
    NodeEntry.record.reader.Undoes depth toJson :=
  Record.undoes (by decide) fun _ he _ =>
    .required (Node.undoes_readerTo (he.le.trans h)) .nil

theorem Response.undoes (h : depth ≤ depthLimit) : Response.record.reader.Undoes depth toJson :=
  Record.undoes (by decide) fun e he _ =>
    .optional undoes_text <| .optional undoes_text <| .optional undoes_text? <|
    .optional (undoes_record? (Node.undoes_readerTo (he.le.trans h))) <|
    .optional ((Undoes.keyed _ fun d hd =>
      undoes_record? (NodeEntry.undoes (by omega))).optional (by cases e <;> exact nofun)) .nil

/-- A response is read as it was written if its text opens no more brackets than may be opened and
tells its doubles exactly, whatever blanks are put between its tokens. -/
theorem Response.ofText_write {r : Response} {sp : Spacing} (hsp : sp.IsBlank)
    (hnesting : r.toJson.nesting ≤ 127) (hreals : ∀ x ∈ r.toJson.reals, Double.ReadsBack x) :
    ofText (Json.write sp 0 r.toJson) = .ok r := by
  have hread := (undoes (Nat.le_refl depthLimit)).ofText hsp ⟨hnesting, hreals⟩
  rw [ofText, hread]
  rfl

/-- Entries under one id, one of them missing, with names that are not known, a list without items
and a negative zero. -/
theorem Response.ofText_write_entries :
    let r : Response :=
      { name := "\"Draft\"\n", thumbnailUrl := some ""
        nodes := some
          [("1:2", some ⟨⟨{ id := "1:2", box := some { x := -0, width := 12.5 }
                            fills := some [{ kind := .unknown, opacity := some 0.1 }]
                            layoutMode := some .unknown, strokeDashes := some [] },
              some [⟨{ visible := some false }, some []⟩, {}]⟩⟩),
            ("1:2", none)] }
    r.toJson.nesting ≤ 127 ∧ (∀ x ∈ r.toJson.reals, Double.ReadsBack x) ∧
      ofText (Json.write .compact 0 r.toJson) = .ok r := by
  intro r
  have hnesting : r.toJson.nesting ≤ 127 := by decide +kernel
  have hreals : ∀ x ∈ r.toJson.reals, Double.ReadsBack x := by decide +kernel
  exact ⟨hnesting, hreals, ofText_write Spacing.isBlank_compact hnesting hreals⟩

end DesignBrief
