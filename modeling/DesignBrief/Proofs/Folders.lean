import DesignBrief.Command.Files
import DesignBrief.Proofs.Reading

/-!
What is in the directory that a path leads to. What can be read there, and whether a file can be
written, depends on its entries alone, and writing a file sets one of them: after it the same path
leads to the same directory, `FileTree.exists_write`. This is not plain from the tree, where a file
below a directory is a part of it, so that writing changes every directory on the way.
-/

namespace DesignBrief

/-! ## Directories along names -/

namespace Entry

variable {e : Entry} {es inner : List (String × Entry)} {name : String} {names : List String}

/-- What is in the directory that a row of names leads to. -/
def along? : List String → List (String × Entry) → Option (List (String × Entry))
  | [], es => some es
  | name :: names, es =>
    match es.lookup name with
    | some (.directory inner) => along? names inner
    | _ => none

theorem along?_cons_of_lookup (h : es.lookup name = some (.directory inner))
    (names : List String) : along? (name :: names) es = along? names inner := by
  rw [along?, h]

theorem exists_of_along?_cons {found : List (String × Entry)}
    (h : along? (name :: names) es = some found) :
    ∃ inner, es.lookup name = some (.directory inner) ∧ along? names inner = some found := by
  rw [along?] at h
  split at h
  next inner hlookup => exact ⟨inner, hlookup, h⟩
  next => cases h

theorem along?_append (names more : List String) (es : List (String × Entry)) :
    along? (names ++ more) es = (along? names es).bind (along? more) := by
  induction names generalizing es with
  | nil => rfl
  | cons name names ih =>
    rw [List.cons_append, along?, along?]
    split
    next inner hlookup => exact ih inner
    next => rfl

theorem inside_of_lookup (h : es.lookup name = some (.directory inner)) :
    inside name es = inner := by
  rw [inside, h]
  rfl

theorem put_cons_append (e : Entry) (first : String) (names : List String) (name : String)
    (es : List (String × Entry)) :
    put e (first :: (names ++ [name])) es =
      set first (.directory (put e (names ++ [name]) (inside first es))) es := by
  cases names <;> rfl

/-- Where an entry is put, it is set. -/
theorem along?_put_self (h : along? names es = some inner) :
    along? names (put e (names ++ [name]) es) = some (set name e inner) := by
  induction names generalizing es with
  | nil =>
    cases h
    rfl
  | cons first names ih =>
    obtain ⟨next, hlookup, hrest⟩ := exists_of_along?_cons h
    rw [List.cons_append, put_cons_append, along?_cons_of_lookup (lookup_set_self ..),
      inside_of_lookup hlookup]
    exact ih hrest

/-- Putting an entry where there is no directory takes no directory away. -/
theorem isSome_along?_put {others : List String} (hnone : along? (names ++ [name]) es = none)
    (h : (along? others es).isSome) : (along? others (put e (names ++ [name]) es)).isSome := by
  induction names generalizing es others with
  | nil =>
    cases others with
    | nil => rfl
    | cons other others =>
      obtain ⟨found, hfound⟩ := Option.isSome_iff_exists.mp h
      obtain ⟨inner, hlookup, -⟩ := exists_of_along?_cons hfound
      have hne : other ≠ name := by
        rintro rfl
        rw [List.nil_append, along?_cons_of_lookup hlookup] at hnone
        cases hnone
      rw [List.nil_append, put, along?, lookup_set_of_ne hne]
      rwa [along?] at h
  | cons first names ih =>
    cases others with
    | nil => rfl
    | cons other others =>
      rw [List.cons_append, put_cons_append]
      by_cases hother : other = first
      · subst hother
        obtain ⟨found, hfound⟩ := Option.isSome_iff_exists.mp h
        obtain ⟨inner, hlookup, hrest⟩ := exists_of_along?_cons hfound
        rw [List.cons_append, along?_cons_of_lookup hlookup] at hnone
        rw [along?_cons_of_lookup (lookup_set_self ..), inside_of_lookup hlookup]
        exact ih hnone (Option.isSome_iff_exists.mpr ⟨found, hrest⟩)
      · rw [along?, lookup_set_of_ne hother]
        rwa [along?] at h

end Entry

/-! ## Trails -/

namespace FileTree

variable {t t' : FileTree} {trail : Trail}

/-- A trail that is in the tree. -/
def IsReal (t : FileTree) : Trail → Prop
  | [] => True
  | (name, es) :: trail =>
    (t.entriesAt trail).lookup name = some (.directory es) ∧ t.IsReal trail

theorem names_cons (name : String) (es : List (String × Entry)) (trail : Trail) :
    names ((name, es) :: trail) = names trail ++ [name] := by
  simp [names]

theorem names_tail (trail : Trail) : names trail.tail = (names trail).dropLast := by
  cases trail with
  | nil => rfl
  | cons x trail => simp [names]

theorem IsReal.tail (h : t.IsReal trail) : t.IsReal trail.tail := by
  cases trail with
  | nil => exact h
  | cons x trail => exact h.2

/-- The names on a trail lead to what is at its end. -/
theorem IsReal.along? (h : t.IsReal trail) :
    Entry.along? (names trail) t.root = some (t.entriesAt trail) := by
  induction trail with
  | nil => rfl
  | cons x trail ih =>
    obtain ⟨name, es⟩ := x
    rw [names_cons, Entry.along?_append, ih h.2]
    exact Entry.along?_cons_of_lookup h.1 []

theorem IsReal.along?_name (h : t.IsReal trail) (name : String) :
    Entry.along? (names trail ++ [name]) t.root = Entry.along? [name] (t.entriesAt trail) := by
  rw [Entry.along?_append, h.along?]
  rfl

theorem entry_eq_ok_iff {name : String} {e : Entry} :
    t.entry? trail name = .ok e ↔
      name.utf8ByteSize ≤ Path.nameLimit ∧ (t.entriesAt trail).lookup name = some e := by
  unfold entry?
  split
  next hlong => exact ⟨nofun, fun h => absurd hlong (Nat.not_lt.mpr h.1)⟩
  next hshort =>
    cases (t.entriesAt trail).lookup name with
    | none => simp
    | some found => simpa using fun _ => Nat.le_of_not_lt hshort

/-- Where every directory is still there, a path that could be followed can be followed, along the
same names. -/
theorem exists_follow {parts : List String} {last other : Trail}
    (hkeep : ∀ row, (Entry.along? row t.root).isSome → (Entry.along? row t'.root).isSome)
    (h : t.IsReal trail) (hother : t'.IsReal other) (hnames : names other = names trail)
    (hfollow : t.follow trail parts = .ok last) :
    ∃ last', t'.follow other parts = .ok last' ∧ t'.IsReal last' ∧ names last' = names last := by
  -- What is on the two trails may differ, so it is their names that the induction keeps the same.
  induction parts generalizing trail other with
  | nil =>
    cases hfollow
    exact ⟨other, rfl, hother, hnames⟩
  | cons part rest ih =>
    rw [FileTree.follow] at hfollow ⊢
    split at hfollow
    next hstays =>
      rw [if_pos hstays]
      exact ih h hother hnames hfollow
    next hleads =>
    rw [if_neg hleads]
    split at hfollow
    next hup =>
      rw [if_pos hup]
      refine ih h.tail hother.tail ?_ hfollow
      rw [names_tail, names_tail, hnames]
    next hdown =>
    rw [if_neg hdown]
    split at hfollow
    next es hentry =>
      obtain ⟨hsize, hlookup⟩ := entry_eq_ok_iff.mp hentry
      have hthere := hkeep (names trail ++ [part]) (by
        rw [h.along?_name, Entry.along?_cons_of_lookup hlookup]
        rfl)
      rw [← hnames, hother.along?_name] at hthere
      obtain ⟨found, hfound⟩ := Option.isSome_iff_exists.mp hthere
      obtain ⟨inner, hinner, -⟩ := Entry.exists_of_along?_cons hfound
      have hreal : t.IsReal ((part, es) :: trail) := ⟨hlookup, h⟩
      have hreal' : t'.IsReal ((part, inner) :: other) := ⟨hinner, hother⟩
      rw [entry_eq_ok_iff.mpr ⟨hsize, hinner⟩]
      refine ih hreal hreal' ?_ hfollow
      rw [names_cons, names_cons, hnames]
    next => cases hfollow
    next => cases hfollow

theorem IsReal.follow {parts : List String} {last : Trail} (h : t.IsReal trail)
    (hfollow : t.follow trail parts = .ok last) : t.IsReal last := by
  obtain ⟨last', hfollow', hreal, -⟩ := exists_follow (fun _ hrow => hrow) h h rfl hfollow
  cases hfollow.symm.trans hfollow'
  exact hreal

/-- A file that is put where there is no directory changes the entries there and nothing else on
the way. -/
theorem exists_follow_put {parts : List String} {name : String} {e : Entry}
    (h : t.follow [] parts = .ok trail)
    (hfree : ∀ inner, (t.entriesAt trail).lookup name ≠ some (.directory inner)) :
    ∃ trail', (t.put trail name e).follow [] parts = .ok trail' ∧
      (t.put trail name e).entriesAt trail' = Entry.set name e (t.entriesAt trail) := by
  have hstart : t.IsReal [] := trivial
  have hstart' : (t.put trail name e).IsReal [] := trivial
  have hreal : t.IsReal trail := hstart.follow h
  have hnone : Entry.along? (names trail ++ [name]) t.root = none := by
    rw [hreal.along?_name]
    cases hfound : Entry.along? [name] (t.entriesAt trail) with
    | none => rfl
    | some found =>
      obtain ⟨inner, hlookup, -⟩ := Entry.exists_of_along?_cons hfound
      exact absurd hlookup (hfree inner)
  obtain ⟨trail', hfollow, hreal', hnames⟩ :=
    exists_follow (fun row => Entry.isSome_along?_put hnone) hstart hstart' rfl h
  refine ⟨trail', hfollow, ?_⟩
  have hset := hreal'.along?
  rw [hnames] at hset
  exact Option.some.inj (hset.symm.trans (Entry.along?_put_self hreal.along?))

theorem follow_append (t : FileTree) (trail : Trail) (parts more : List String) :
    t.follow trail (parts ++ more) = t.follow trail parts >>= fun last => t.follow last more := by
  induction parts generalizing trail with
  | nil => rfl
  | cons part parts ih =>
    rw [List.cons_append, follow, follow]
    split
    · exact ih trail
    split
    · exact ih trail.tail
    split
    · exact ih _
    · rfl
    · rfl

end FileTree

/-! ## Paths inside a directory -/

namespace Path

/-- A name that something in a directory can have. -/
structure IsName (name : String) : Prop where
  noSlash : '/' ∉ name.toList
  leads : leads name = true
  notUp : name ≠ ".."

/-- The parts of a path inside a directory that lead to the directory. -/
def partsInside (dir : String) : List String := (parts (join dir "")).dropLast

theorem parts_append_slash (path : List Char) {name : String} (h : '/' ∉ name.toList) :
    ((path ++ '/' :: name.toList).splitOn '/').map String.ofList =
      (path.splitOn '/').map String.ofList ++ [name] := by
  rw [List.splitOn_append_cons_self, List.splitOn_eq_singleton h, List.map_append]
  simp

theorem exists_toList_join (dir : String) :
    ∃ path, ∀ name, (join dir name).toList = path ++ '/' :: name.toList := by
  by_cases hslash : dir.toList.getLast? = some '/'
  · obtain ⟨path, hpath⟩ := List.getLast?_eq_some_iff.mp hslash
    refine ⟨path, fun name => ?_⟩
    rw [join, if_pos hslash, String.toList_append, hpath]
    simp
  · refine ⟨dir.toList, fun name => ?_⟩
    rw [join, if_neg hslash, String.toList_append, String.toList_append, List.append_assoc]
    rfl

theorem exists_parts_join (dir : String) :
    ∃ first rest, partsInside dir = first :: rest ∧
      ∀ name, '/' ∉ name.toList → parts (join dir name) = (first :: rest) ++ [name] := by
  obtain ⟨path, hpath⟩ := exists_toList_join dir
  have hparts (name : String) (h : '/' ∉ name.toList) :
      parts (join dir name) = (path.splitOn '/').map String.ofList ++ [name] := by
    rw [parts, hpath, parts_append_slash path h]
  have hinside : partsInside dir = (path.splitOn '/').map String.ofList := by
    rw [partsInside, hparts "" (by decide), List.dropLast_concat]
  cases hrow : (path.splitOn '/').map String.ofList with
  | nil => exact absurd (List.map_eq_nil_iff.mp hrow) (List.splitOn_ne_nil '/' path)
  | cons first rest =>
    rw [hrow] at hparts hinside
    exact ⟨first, rest, hinside, hparts⟩

end Path

namespace FileTree

variable {t : FileTree} {dir name : String} {es : List (String × Entry)}

/-- The parts that lead from the root to a directory. -/
def route (t : FileTree) (dir : String) : List String :=
  match Path.partsInside dir with
  | "" :: parts => parts
  | parts => t.home ++ parts

theorem targetFrom_name (t : FileTree) (start : Trail) (parts : List String)
    (h : Path.IsName name) : t.targetFrom start (parts ++ [name]).reverse =
      (t.follow start parts).map fun trail => .name trail name false := by
  have hleads := h.leads
  simp only [Path.leads, Bool.and_eq_true, bne_iff_ne, ne_eq] at hleads
  have hempty : (name == "") = false := beq_false_of_ne hleads.1
  rw [List.reverse_append, List.reverse_singleton, List.singleton_append, targetFrom,
    List.dropWhile_cons_of_neg (by simp [hempty])]
  simp only [List.reverse_reverse, if_neg hleads.2, if_neg h.notUp, List.head?_cons,
    Option.some_beq_some, hempty]
  cases t.follow start parts <;> rfl

/-- A path inside a directory ends at a name in it, if it is followed at all. -/
theorem target_join (t : FileTree) (dir : String) (h : Path.IsName name) :
    t.target (Path.join dir name) =
      if Path.pathLimit < (Path.join dir name).utf8ByteSize then .error .blocked
      else (t.follow [] (t.route dir)).map fun trail => .name trail name false := by
  obtain ⟨first, rest, hinside, hparts⟩ := Path.exists_parts_join dir
  rw [target, hparts name h.noSlash, route, hinside]
  congr 1
  by_cases hfirst : first = ""
  · subst hfirst
    refine Eq.trans ?_ (targetFrom_name t [] rest h)
    cases rest <;> rfl
  · have hroute : (match first :: rest with
        | "" :: parts => parts
        | parts => t.home ++ parts) = t.home ++ first :: rest := by
      split
      next parts heq => exact absurd (List.cons.inj heq).1 hfirst
      next => rfl
    rw [hroute, follow_append]
    split
    next heq => exact absurd (List.cons.inj heq).1 hfirst
    next parts heq => exact absurd (List.cons.inj heq).1 hfirst
    next =>
      cases t.follow [] t.home with
      | error obstacle => rfl
      | ok trail => exact targetFrom_name t trail (first :: rest) h

/-- What is in the directory that a path leads to. -/
def folder? (t : FileTree) (dir : String) : Option (List (String × Entry)) :=
  match t.follow [] (t.route dir) with
  | .ok trail => some (t.entriesAt trail)
  | .error _ => none

/-- A directory has room for a file: nothing is too long, and no directory has its name. -/
structure HasRoom (dir : String) (es : List (String × Entry)) (name : String) : Prop where
  path_le : (Path.join dir name).utf8ByteSize ≤ Path.pathLimit
  name_le : name.utf8ByteSize ≤ Path.nameLimit
  free : ∀ inner, es.lookup name ≠ some (.directory inner)

theorem HasRoom.set {other content : String} (h : HasRoom dir es name) :
    HasRoom dir (Entry.set other (.file content) es) name where
  path_le := h.path_le
  name_le := h.name_le
  free inner := by
    by_cases hother : name = other
    · subst hother
      rw [Entry.lookup_set_self]
      nofun
    · rw [Entry.lookup_set_of_ne hother]
      exact h.free inner

theorem exists_target_join (h : Path.IsName name)
    (hsize : (Path.join dir name).utf8ByteSize ≤ Path.pathLimit)
    (hfolder : t.folder? dir = some es) :
    ∃ trail, t.follow [] (t.route dir) = .ok trail ∧ t.entriesAt trail = es ∧
      t.target (Path.join dir name) = .ok (.name trail name false) := by
  rw [folder?] at hfolder
  split at hfolder
  next trail hfollow =>
    refine ⟨trail, hfollow, Option.some.inj hfolder, ?_⟩
    rw [target_join t dir h, if_neg (Nat.not_lt.mpr hsize), hfollow]
    rfl
  next => cases hfolder

/-- A file in a directory has the content that is in the entries of the directory. -/
theorem read_join {content : String} (h : Path.IsName name)
    (hpath : (Path.join dir name).utf8ByteSize ≤ Path.pathLimit)
    (hname : name.utf8ByteSize ≤ Path.nameLimit) (hfolder : t.folder? dir = some es)
    (hfile : es.lookup name = some (.file content)) :
    t.read (Path.join dir name) = .ok content := by
  obtain ⟨trail, -, rfl, htarget⟩ := exists_target_join h hpath hfolder
  simp only [read, htarget, entry_eq_ok_iff.mpr ⟨hname, hfile⟩]

/-- A file can be written only into a directory that is there and has room for it. -/
theorem exists_of_write {content : String} (h : Path.IsName name)
    (hwrite : (t.write (Path.join dir name) content).1 = true) :
    ∃ es, t.folder? dir = some es ∧ HasRoom dir es name := by
  have htarget := target_join t dir h
  rw [write] at hwrite
  split at htarget
  next => simp [htarget] at hwrite
  next hsize =>
  cases hfollow : t.follow [] (t.route dir) with
  | error obstacle =>
    rw [hfollow] at htarget
    simp [htarget, Except.map] at hwrite
  | ok trail =>
    rw [hfollow] at htarget
    simp only [htarget, Except.map, entry?] at hwrite
    refine ⟨t.entriesAt trail, by rw [folder?, hfollow], Nat.le_of_not_lt hsize, ?_, ?_⟩
    · by_contra hname
      simp [Nat.not_le.mp hname] at hwrite
    · intro inner hlookup
      by_cases hname : Path.nameLimit < name.utf8ByteSize <;> simp [hname, hlookup] at hwrite

/-- A file that there is room for can be written, and it is set among the entries. -/
theorem exists_write (content : String) (h : Path.IsName name) (hroom : HasRoom dir es name)
    (hfolder : t.folder? dir = some es) :
    ∃ t', t.write (Path.join dir name) content = (true, t') ∧
      t'.folder? dir = some (Entry.set name (.file content) es) := by
  obtain ⟨trail, hfollow, rfl, htarget⟩ := exists_target_join h hroom.path_le hfolder
  obtain ⟨trail', hfollow', hset⟩ := exists_follow_put (e := .file content) hfollow hroom.free
  refine ⟨t.put trail name (.file content), ?_, ?_⟩
  · have hname : ¬ Path.nameLimit < name.utf8ByteSize := Nat.not_lt.mpr hroom.name_le
    simp only [write, htarget, entry?, if_neg hname]
    cases hlookup : (t.entriesAt trail).lookup name with
    | none => rfl
    | some e =>
      cases e with
      | file old => rfl
      | directory inner => exact absurd hlookup (hroom.free inner)
  · have hroute : (t.put trail name (.file content)).route dir = t.route dir := rfl
    rw [folder?, hroute, hfollow', ← hset]

end FileTree
end DesignBrief
