import DesignBrief.Proofs.Notation
import DesignBrief.Proofs.Told

/-!
What is printed of effects, and read back. A shadow is printed by its lengths and its colour, a blur
by its radius. Every effect ends in a closing bracket and holds no other, so the values of the style
sheet properties fall apart at the brackets into the effects they were joined from, and these at
blanks into their parts: `EffectTexts.read_css`. So two nodes have the same effects just if the same
is printed for each kind of effect, in whatever way the kinds are mixed,
`Effects.ofAttributes_eq_iff`.
-/

namespace DesignBrief

/-! ## Texts of effects -/

/-- The texts of the lengths of a shadow, and of its colour. -/
structure ShadowText where
  x : String
  y : String
  radius : String
  spread : String
  color : String
deriving DecidableEq

/-- The texts of effects by their kinds, for each in the order of the effects. -/
structure EffectTexts where
  dropShadows : List ShadowText := []
  innerShadows : List ShadowText := []
  /-- The texts of radii. -/
  layerBlurs : List String := []
  backgroundBlurs : List String := []
deriving DecidableEq

/-- What is printed of a shadow: without offset it falls straight down, without spread it has its
own size, without colour it is black. -/
def ShadowText.ofEffect (e : Effect) : ShadowText where
  x := Css.px (e.offset.getD ⟨0, 0⟩).x
  y := Css.px (e.offset.getD ⟨0, 0⟩).y
  radius := Css.px e.radius
  spread := Css.px (e.spread.getD 0)
  color := Css.rgba (e.color.getD { r := 0, g := 0, b := 0, a := 1 })

def ShadowText.css (inset : Bool) (s : ShadowText) : String :=
  (if inset then "inset " else "") ++ s.x ++ " " ++ s.y ++ " " ++ s.radius ++ " " ++ s.spread ++ " "
    ++ s.color

namespace EffectTexts

/-- The effects of a node that are not hidden. -/
def shown (a : Attributes) : List Effect :=
  (a.effects.getD []).filter fun e => e.visible ≠ some false

theorem shown_eq (a : Attributes) : shown a = shownOf (·.visible) a.effects := by
  refine List.filter_congr fun e _ => ?_
  show decide (e.visible ≠ some false) = isShown e.visible
  rcases e.visible with _ | _ | _ <;> rfl

/-- What is printed of those effects, each kind for itself. -/
def ofAttributes (a : Attributes) : EffectTexts where
  dropShadows := ((shown a).filter fun e => e.kind = .dropShadow).map .ofEffect
  innerShadows := ((shown a).filter fun e => e.kind = .innerShadow).map .ofEffect
  layerBlurs := ((shown a).filter fun e => e.kind = .layerBlur).map fun e => Css.px e.radius
  backgroundBlurs :=
    ((shown a).filter fun e => e.kind = .backgroundBlur).map fun e => Css.px e.radius

def blur (radius : String) : String := "blur(" ++ radius ++ ")"

/-- Effects as values of style sheet properties. -/
def css (isText : Bool) (t : EffectTexts) : Effects :=
  let shadows := Effects.join? ", "
    (t.dropShadows.map (ShadowText.css false) ++ t.innerShadows.map (ShadowText.css true))
  { boxShadow := if isText then none else shadows
    textShadow := if isText then shadows else none
    filter := Effects.join? " " (t.layerBlurs.map blur)
    backdropFilter := Effects.join? " " (t.backgroundBlurs.map blur) }

end EffectTexts

theorem Css.rgba_black : rgba { r := 0, g := 0, b := 0, a := 1 } = "rgba(0, 0, 0, 1)" := by
  decide +kernel

namespace Effects

theorem shadow_eq (e : Effect) :
    shadow e = (ShadowText.ofEffect e).css (e.kind = .innerShadow) := by
  have hcolor : (e.color.map Css.rgba).getD "rgba(0, 0, 0, 1)" = (ShadowText.ofEffect e).color := by
    rw [ShadowText.ofEffect]
    cases e.color with
    | none => exact Css.rgba_black.symm
    | some c => rfl
  rw [shadow, hcolor, ShadowText.css]
  simp only [decide_eq_true_eq]
  rfl

theorem map_shadow_ofKind (kind : EffectKind) (es : List Effect) :
    (ofKind kind es).map shadow =
      ((ofKind kind es).map ShadowText.ofEffect).map (ShadowText.css (kind = .innerShadow)) := by
  rw [List.map_map]
  refine List.map_congr_left fun e he => ?_
  have hkind : e.kind = kind := by simpa using (List.mem_filter.mp he).2
  rw [shadow_eq, hkind]
  rfl

/-- The effects of a node are told by what is printed of them. -/
theorem ofAttributes_eq_css (a : Attributes) :
    ofAttributes a = (EffectTexts.ofAttributes a).css (a.kind = "TEXT") := by
  simp only [ofAttributes, EffectTexts.ofAttributes, EffectTexts.shown_eq, EffectTexts.css,
    Attributes.effects?, getD_nonempty?, shownOf, List.map_append, map_shadow_ofKind, List.map_map,
    decide_eq_true_eq]
  rfl

end Effects

/-! ## Pieces of a value -/

/-- A text that ends in a closing bracket and holds no other. -/
def Closed (t : String) : Prop := ∃ piece, ')' ∉ piece ∧ t.toList = piece ++ [')']

theorem Closed.append {s t : String} (hs : ')' ∉ s.toList) (ht : Closed t) : Closed (s ++ t) := by
  obtain ⟨piece, hpiece, ht⟩ := ht
  refine ⟨s.toList ++ piece, List.not_mem_append hs hpiece, ?_⟩
  rw [String.toList_append, ht, List.append_assoc]

/-- What stands in front of each closing bracket of a value, without what separates the parts. -/
def pieces (separator : String) : Option String → List (List Char)
  | none => []
  | some t =>
    ((separator ++ t).toList.splitOn ')').dropLast.map fun piece => piece.drop separator.length

theorem splitOn_intercalate {separator : String} (hsep : ')' ∉ separator.toList)
    {parts : List String} (hne : parts ≠ []) (h : ∀ t ∈ parts, Closed t) :
    (separator ++ separator.intercalate parts).toList.splitOn ')' =
      (parts.map fun t => separator.toList ++ t.toList.dropLast) ++ [[]] := by
  induction parts with
  | nil => exact absurd rfl hne
  | cons t rest ih =>
    rw [List.forall_mem_cons] at h
    obtain ⟨⟨piece, hpiece, ht⟩, hrest⟩ := h
    have hfree : ')' ∉ separator.toList ++ piece := List.not_mem_append hsep hpiece
    cases rest with
    | nil =>
      have hone : (separator ++ separator.intercalate [t]).toList =
          (separator.toList ++ piece) ++ ')' :: [] := by
        simp [ht]
      rw [hone, splitOn_append_cons hfree]
      simp [ht]
    | cons u rest =>
      have hmore : (separator ++ separator.intercalate (t :: u :: rest)).toList =
          (separator.toList ++ piece) ++
            ')' :: (separator ++ separator.intercalate (u :: rest)).toList := by
        simp [String.intercalate_cons_cons, ht]
      rw [hmore, splitOn_append_cons hfree, ih (List.cons_ne_nil u rest) hrest]
      simp [ht]

/-- The pieces of joined texts are the texts without their closing brackets. -/
theorem pieces_join? {separator : String} (hsep : ')' ∉ separator.toList) {parts : List String}
    (h : ∀ t ∈ parts, Closed t) :
    pieces separator (Effects.join? separator parts) = parts.map fun t => t.toList.dropLast := by
  cases parts with
  | nil => rfl
  | cons t rest =>
    have hjoin : Effects.join? separator (t :: rest) =
        some (separator.intercalate (t :: rest)) := rfl
    rw [hjoin, pieces, splitOn_intercalate hsep (List.cons_ne_nil t rest) h,
      List.dropLast_concat, List.map_map]
    refine List.map_congr_left fun u _ => ?_
    exact List.drop_left' String.length_toList

/-! ## Reading texts of effects -/

/-- The parts of a shadow do not run into each other or into what stands around it. -/
structure ShadowText.Legible (s : ShadowText) : Prop where
  x : Css.Solid s.x
  y : Css.Solid s.y
  radius : Css.Solid s.radius
  spread : Css.Solid s.spread
  color : Closed s.color
  not_inset : s.x ≠ "inset"

namespace ShadowText

/-- A shadow by its words; the colour is all that is left behind the four lengths. -/
def ofWords (words : List (List Char)) : ShadowText where
  x := String.ofList (words.getD 0 [])
  y := String.ofList (words.getD 1 [])
  radius := String.ofList (words.getD 2 [])
  spread := String.ofList (words.getD 3 [])
  color := String.ofList ([' '].intercalate (words.drop 4) ++ [')'])

/-- A shadow by its piece of a value, and whether it falls inside. -/
def read (piece : List Char) : Bool × ShadowText :=
  let words := piece.splitOn ' '
  if words.head? = some "inset".toList then (true, ofWords words.tail) else (false, ofWords words)

variable {s : ShadowText}

theorem Legible.closed_css (h : s.Legible) (inset : Bool) : Closed (s.css inset) := by
  refine Closed.append ?_ h.color
  have hx := h.x.not_mem (c := ')') (by decide)
  have hy := h.y.not_mem (c := ')') (by decide)
  have hradius := h.radius.not_mem (c := ')') (by decide)
  have hspread := h.spread.not_mem (c := ')') (by decide)
  cases inset <;> simp [hx, hy, hradius, hspread]

/-- The four lengths of a shadow and its colour, of which the closing bracket is left out. -/
def line (s : ShadowText) (piece : List Char) : List Char :=
  s.x.toList ++ ' ' :: (s.y.toList ++ ' ' :: (s.radius.toList ++ ' ' :: (s.spread.toList ++
    ' ' :: piece)))

theorem toList_css {piece : List Char} (hpiece : s.color.toList = piece ++ [')']) (inset : Bool) :
    (s.css inset).toList = (if inset then "inset ".toList else []) ++ s.line piece ++ [')'] := by
  cases inset <;> simp [css, line, hpiece]

theorem splitOn_line (h : s.Legible) (piece : List Char) :
    (s.line piece).splitOn ' ' =
      s.x.toList :: s.y.toList :: s.radius.toList :: s.spread.toList :: piece.splitOn ' ' := by
  rw [line, splitOn_append_cons (h.x.not_mem (by decide)),
    splitOn_append_cons (h.y.not_mem (by decide)),
    splitOn_append_cons (h.radius.not_mem (by decide)),
    splitOn_append_cons (h.spread.not_mem (by decide))]

theorem ofWords_splitOn_line (h : s.Legible) {piece : List Char}
    (hpiece : s.color.toList = piece ++ [')']) : ofWords ((s.line piece).splitOn ' ') = s := by
  rw [splitOn_line h]
  simp [ofWords, List.intercalate_splitOn, ← hpiece]

theorem read_css (h : s.Legible) (inset : Bool) :
    read (s.css inset).toList.dropLast = (inset, s) := by
  obtain ⟨piece, -, hpiece⟩ := h.color
  rw [toList_css hpiece, List.dropLast_concat, read]
  cases inset with
  | true =>
    have hwords : ("inset ".toList ++ s.line piece).splitOn ' ' =
        "inset".toList :: (s.line piece).splitOn ' ' :=
      @splitOn_append_cons ' ' "inset".toList (by decide) _
    simp only [if_true, hwords, List.head?_cons, List.tail_cons, ofWords_splitOn_line h hpiece]
  | false =>
    have hne : s.x.toList ≠ "inset".toList := fun heq => h.not_inset (String.toList_inj.mp heq)
    have hfirst : ((s.line piece).splitOn ' ').head? ≠ some "inset".toList := by
      rw [splitOn_line h]
      exact fun heq => hne (Option.some.inj heq)
    simp only [Bool.false_eq_true, if_false, List.nil_append, hfirst,
      ofWords_splitOn_line h hpiece]

end ShadowText

namespace EffectTexts

def readBlur (piece : List Char) : String := String.ofList (piece.drop "blur(".length)

/-- The texts that the effects of a node were made of. -/
def read (e : Effects) : EffectTexts :=
  let shadows := (pieces ", " (e.boxShadow.or e.textShadow)).map ShadowText.read
  { dropShadows := (shadows.filter (!·.1)).map (·.2)
    innerShadows := (shadows.filter (·.1)).map (·.2)
    layerBlurs := (pieces " " e.filter).map readBlur
    backgroundBlurs := (pieces " " e.backdropFilter).map readBlur }

/-- No text of an effect runs into what stands around it. -/
structure Legible (t : EffectTexts) : Prop where
  dropShadows : ∀ s ∈ t.dropShadows, s.Legible
  innerShadows : ∀ s ∈ t.innerShadows, s.Legible
  layerBlurs : ∀ r ∈ t.layerBlurs, Css.Solid r
  backgroundBlurs : ∀ r ∈ t.backgroundBlurs, Css.Solid r

theorem toList_blur (radius : String) :
    (blur radius).toList = "blur(".toList ++ radius.toList ++ [')'] := by
  simp [blur]

theorem closed_blur {radius : String} (h : Css.Solid radius) : Closed (blur radius) := by
  have hfree := h.not_mem (c := ')') (by decide)
  exact ⟨"blur(".toList ++ radius.toList, by simp [hfree], toList_blur radius⟩

theorem readBlur_blur (radius : String) : readBlur (blur radius).toList.dropLast = radius := by
  rw [readBlur, toList_blur, List.dropLast_concat, List.drop_left' String.length_toList,
    String.ofList_toList]

theorem map_readBlur_pieces {radii : List String} (h : ∀ r ∈ radii, Css.Solid r) :
    (pieces " " (Effects.join? " " (radii.map blur))).map readBlur = radii := by
  have hclosed : ∀ t ∈ radii.map blur, Closed t :=
    List.forall_mem_map.mpr fun r hr => closed_blur (h r hr)
  rw [pieces_join? (by decide) hclosed, List.map_map, List.map_map]
  exact (List.map_congr_left fun r _ => readBlur_blur r).trans (List.map_id radii)

theorem closed_of_mem_map_css {shadows : List ShadowText} (h : ∀ s ∈ shadows, s.Legible)
    (inset : Bool) : ∀ t ∈ shadows.map (ShadowText.css inset), Closed t := by
  intro t ht
  obtain ⟨s, hs, rfl⟩ := List.mem_map.mp ht
  exact (h s hs).closed_css inset

theorem map_read_css {shadows : List ShadowText} (h : ∀ s ∈ shadows, s.Legible) (inset : Bool) :
    (shadows.map (ShadowText.css inset)).map (fun t => ShadowText.read t.toList.dropLast) =
      shadows.map (Prod.mk inset) := by
  rw [List.map_map]
  refine List.map_congr_left fun s hs => ?_
  rw [Function.comp_apply, ShadowText.read_css (h s hs)]

theorem map_read_pieces {drops inners : List ShadowText} (hdrops : ∀ s ∈ drops, s.Legible)
    (hinners : ∀ s ∈ inners, s.Legible) :
    (pieces ", " (Effects.join? ", "
      (drops.map (ShadowText.css false) ++ inners.map (ShadowText.css true)))).map ShadowText.read =
      drops.map (Prod.mk false) ++ inners.map (Prod.mk true) := by
  have hclosed := List.forall_mem_append.mpr
    ⟨closed_of_mem_map_css hdrops false, closed_of_mem_map_css hinners true⟩
  rw [pieces_join? (by decide) hclosed, List.map_map, List.map_append]
  rw [← map_read_css hdrops false, ← map_read_css hinners true]
  rfl

/-- Of effects whose texts are legible all texts are read back, drop shadows apart from inner
ones. -/
theorem read_css {t : EffectTexts} (h : t.Legible) (isText : Bool) : read (t.css isText) = t := by
  have hshadows := map_read_pieces h.dropShadows h.innerShadows
  have hor : (t.css isText).boxShadow.or (t.css isText).textShadow = Effects.join? ", "
      (t.dropShadows.map (ShadowText.css false) ++ t.innerShadows.map (ShadowText.css true)) := by
    cases isText <;> simp [css]
  rw [read, hor, hshadows]
  simp only [css, map_readBlur_pieces h.layerBlurs, map_readBlur_pieces h.backgroundBlurs,
    List.filter_append, List.filter_map, List.map_append, List.map_map]
  simp [Function.comp_def]

end EffectTexts

/-! ## The effects of a node -/

namespace Css

theorem px_ne_inset (x : Float) : px x ≠ "inset" := by
  intro h
  have hlast := congrArg (fun t => t.toList.getLast?) h
  simp [px] at hlast

theorem closed_rgba (c : Color) : Closed (rgba c) := by
  have hchannel (n : Nat) : ')' ∉ Nat.toDigits 10 n := by
    simpa [Nat.repr] using (solid_repr n).not_mem (c := ')') (by decide)
  have halpha : ')' ∉ (number (Rounding.toHundredths c.a)).toList :=
    (solid_number _).not_mem (by decide)
  have hclose : Closed ")" := ⟨[], List.not_mem_nil, rfl⟩
  refine Closed.append ?_ hclose
  simp [hchannel, halpha]

end Css

theorem ShadowText.legible_ofEffect (e : Effect) : (ofEffect e).Legible where
  x := Css.solid_px _
  y := Css.solid_px _
  radius := Css.solid_px _
  spread := Css.solid_px _
  color := Css.closed_rgba _
  not_inset := Css.px_ne_inset _

theorem EffectTexts.legible_ofAttributes (a : Attributes) : (ofAttributes a).Legible where
  dropShadows := List.forall_mem_map.mpr fun _ _ => ShadowText.legible_ofEffect _
  innerShadows := List.forall_mem_map.mpr fun _ _ => ShadowText.legible_ofEffect _
  layerBlurs := List.forall_mem_map.mpr fun _ _ => Css.solid_px _
  backgroundBlurs := List.forall_mem_map.mpr fun _ _ => Css.solid_px _

theorem EffectTexts.read_ofAttributes (a : Attributes) :
    read (Effects.ofAttributes a) = ofAttributes a := by
  rw [Effects.ofAttributes_eq_css, read_css (legible_ofAttributes a)]

/-- Two nodes, both texts or neither, have the same effects just if the same is printed of their
shown effects of each kind. What is printed of them is read back from the effects, and how effects
of different kinds are mixed makes no difference. -/
theorem Effects.ofAttributes_eq_iff {a b : Attributes}
    (hkind : a.kind = "TEXT" ↔ b.kind = "TEXT") :
    (ofAttributes a = ofAttributes b ↔ EffectTexts.ofAttributes a = EffectTexts.ofAttributes b) ∧
      EffectTexts.read (ofAttributes a) = EffectTexts.ofAttributes a ∧
      ((∀ kind, (EffectTexts.shown a).filter (fun e => e.kind = kind) =
          (EffectTexts.shown b).filter fun e => e.kind = kind) →
        ofAttributes a = ofAttributes b) := by
  have hsame (h : EffectTexts.ofAttributes a = EffectTexts.ofAttributes b) :
      ofAttributes a = ofAttributes b := by
    rw [ofAttributes_eq_css, ofAttributes_eq_css, h, decide_eq_decide.mpr hkind]
  refine ⟨⟨fun h => ?_, hsame⟩, EffectTexts.read_ofAttributes a, fun h => hsame ?_⟩
  · rw [← EffectTexts.read_ofAttributes a, h, EffectTexts.read_ofAttributes b]
  · simp only [EffectTexts.ofAttributes, h]

/-- A text with a drop shadow behind an inner one, one with the values of the drop shadow spelled
out, which stands in front, and one in which the shadows have exchanged their kinds. -/
theorem Effects.ofAttributes_eq_iff_mixed :
    let a : Attributes :=
      { kind := "TEXT"
        effects := some [{ kind := .innerShadow, radius := 2, offset := some ⟨0, 1⟩ },
          { kind := .layerBlur, visible := some false, radius := 1 },
          { kind := .layerBlur, radius := 3 }, { kind := .dropShadow, radius := 0.5 }] }
    let b : Attributes :=
      { kind := "TEXT"
        effects := some [{ kind := .dropShadow, radius := 0.5, offset := some ⟨0, 0⟩
                           spread := some 0, color := some { a := 1 } },
          { kind := .innerShadow, radius := 2, offset := some ⟨0, 1⟩ },
          { kind := .layerBlur, radius := 3 }] }
    let c : Attributes :=
      { kind := "TEXT"
        effects := some [{ kind := .dropShadow, radius := 2, offset := some ⟨0, 1⟩ },
          { kind := .layerBlur, radius := 3 }, { kind := .innerShadow, radius := 0.5 }] }
    (a.kind = "TEXT" ↔ b.kind = "TEXT") ∧ (a.kind = "TEXT" ↔ c.kind = "TEXT") ∧
      ofAttributes a =
        { textShadow := some ("0px 0px 0.5px 0px rgba(0, 0, 0, 1), " ++
            "inset 0px 1px 2px 0px rgba(0, 0, 0, 1)")
          filter := some "blur(3px)" } ∧
      ofAttributes a = ofAttributes b ∧ ofAttributes a ≠ ofAttributes c ∧
      (EffectTexts.read (ofAttributes c)).dropShadows =
        [{ x := "0px", y := "1px", radius := "2px", spread := "0px"
           color := "rgba(0, 0, 0, 1)" }] := by
  intro a b c
  have hb : a.kind = "TEXT" ↔ b.kind = "TEXT" := Iff.rfl
  have hc : a.kind = "TEXT" ↔ c.kind = "TEXT" := Iff.rfl
  have hsame : EffectTexts.ofAttributes a = EffectTexts.ofAttributes b := by decide +kernel
  have hother : EffectTexts.ofAttributes a ≠ EffectTexts.ofAttributes c := by decide +kernel
  obtain ⟨hiff, -, -⟩ := ofAttributes_eq_iff hb
  obtain ⟨hiff', -, -⟩ := ofAttributes_eq_iff hc
  obtain ⟨-, hread, -⟩ := ofAttributes_eq_iff hc.symm
  refine ⟨hb, hc, by decide +kernel, hiff.mpr hsame, mt hiff'.mp hother, ?_⟩
  rw [hread]
  decide +kernel

end DesignBrief
