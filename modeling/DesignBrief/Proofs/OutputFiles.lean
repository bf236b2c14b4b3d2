import DesignBrief.Proofs.Folders
import DesignBrief.Proofs.Jobs

/-!
The files that a job writes. A file is named after the last part of its input's path, so inputs with
the same stem share a file, and each writes over what the one before it wrote. Whenever all inputs
can be rendered and all files can be written, the job is done, and each file holds the rendering of
the last input that it is named after, `Job.run_writes`. So all renderings are kept just if no two
inputs with the same stem have different ones; a job with two such inputs loses one of them and is
done all the same, `Job.exists_overwritten`.
-/

namespace DesignBrief

/-! ## Names of files -/

namespace Path

theorem not_mem_of_mem_splitOn {sep : Char} {cs piece : List Char}
    (h : piece ∈ cs.splitOn sep) : sep ∉ piece := by
  induction cs generalizing piece with
  | nil =>
    rw [List.splitOn_nil, List.mem_singleton] at h
    exact h ▸ List.not_mem_nil
  | cons c cs ih =>
    rw [List.splitOn_cons_eq_if_modifyHead] at h
    split at h
    next =>
      obtain rfl | hrest := List.mem_cons.mp h
      · exact List.not_mem_nil
      · exact ih hrest
    next hsep =>
      cases hpieces : cs.splitOn sep with
      | nil => exact absurd hpieces (List.splitOn_ne_nil sep cs)
      | cons first rest =>
        rw [hpieces] at ih h
        obtain rfl | hrest := List.mem_cons.mp h
        · have hne : sep ≠ c := fun heq => hsep (beq_iff_eq.mpr heq.symm)
          exact List.not_mem_cons_of_ne_of_not_mem hne (ih List.mem_cons_self)
        · exact ih (List.mem_cons_of_mem _ hrest)

theorem noSlash_of_mem_parts {path part : String} (h : part ∈ parts path) :
    '/' ∉ part.toList := by
  obtain ⟨cs, hcs, rfl⟩ := List.mem_map.mp h
  rw [String.toList_ofList]
  exact not_mem_of_mem_splitOn hcs

theorem mem_parts_of_fileName? {path name : String} (h : fileName? path = some name) :
    name ∈ parts path := by
  rw [fileName?] at h
  split at h
  next => cases h
  next => exact (List.mem_filter.mp (List.mem_of_getLast? h)).1

theorem withoutSuffix_subset (name : String) : (withoutSuffix name).toList ⊆ name.toList := by
  rw [withoutSuffix]
  split
  next dot c before heq =>
    rw [String.toList_ofList]
    have hsub := (List.dropWhile_suffix (p := (· != '.')) (l := name.toList.reverse)).subset
    rw [heq] at hsub
    intro x hx
    exact List.mem_reverse.mp (hsub (List.mem_cons_of_mem _ (List.mem_reverse.mp hx)))
  next => exact List.Subset.refl _

theorem noSlash_stem (path : String) : '/' ∉ (stem path).toList := by
  rw [stem]
  split
  next name hname =>
    exact fun h => noSlash_of_mem_parts (mem_parts_of_fileName? hname) (withoutSuffix_subset name h)
  next => decide

end Path

namespace Job

/-- The name of the file that the rendering of an input goes to. -/
def outputName (input : String) : String := Path.stem input ++ ".simplified.json"

theorem outputName_eq_iff {a b : String} :
    outputName a = outputName b ↔ Path.stem a = Path.stem b := String.append_left_inj _

theorem isName_outputName (input : String) : Path.IsName (outputName input) := by
  have hlong (short : String) (hshort : short.length < 16) : outputName input ≠ short := by
    rintro rfl
    rw [outputName, String.length_append] at hshort
    have : ".simplified.json".length = 16 := by decide
    omega
  refine ⟨?_, ?_, hlong ".." (by decide)⟩
  · rw [outputName, String.toList_append, List.mem_append, not_or]
    exact ⟨Path.noSlash_stem input, by decide⟩
  · simp [Path.leads, hlong "" (by decide), hlong "." (by decide)]

/-! ## One file after the other -/

/-- What is in a directory once renderings have been written into it. -/
def filled (renderings : List (String × String)) (es : List (String × Entry)) :
    List (String × Entry) :=
  renderings.foldl (fun es r => Entry.set (outputName r.1) (.file r.2) es) es

theorem lookup_filled_of_ne {renderings : List (String × String)} {name : String}
    (h : ∀ r ∈ renderings, outputName r.1 ≠ name) (es : List (String × Entry)) :
    (filled renderings es).lookup name = es.lookup name := by
  induction renderings generalizing es with
  | nil => rfl
  | cons r renderings ih =>
    rw [List.forall_mem_cons] at h
    rw [filled, List.foldl_cons]
    exact (ih h.2 _).trans (Entry.lookup_set_of_ne h.1.symm ..)

/-- The last rendering under a name is the one that is there. -/
theorem lookup_filled_append_cons {before after : List (String × String)} {r : String × String}
    (h : ∀ later ∈ after, outputName later.1 ≠ outputName r.1) (es : List (String × Entry)) :
    (filled (before ++ r :: after) es).lookup (outputName r.1) = some (.file r.2) := by
  rw [filled, List.foldl_append, List.foldl_cons]
  exact (lookup_filled_of_ne h _).trans (Entry.lookup_set_self ..)

theorem writeAll_workspace {renderings : List (String × String)} {t : FileTree} {dir : String}
    {es : List (String × Entry)} (hfolder : t.folder? dir = some es)
    (hroom : ∀ r ∈ renderings, FileTree.HasRoom dir es (outputName r.1)) :
    ∃ t', writeAll FileTree.workspace dir renderings t = (.done "", t') ∧
      t'.folder? dir = some (filled renderings es) := by
  induction renderings generalizing t es with
  | nil => exact ⟨t, rfl, hfolder⟩
  | cons r renderings ih =>
    rw [List.forall_mem_cons] at hroom
    obtain ⟨input, rendering⟩ := r
    obtain ⟨t₁, hwrite, hfolder₁⟩ :=
      FileTree.exists_write rendering (isName_outputName input) hroom.1 hfolder
    obtain ⟨t₂, hrest, hfolder₂⟩ := ih hfolder₁ fun r hr => (hroom.2 r hr).set
    refine ⟨t₂, ?_, hfolder₂⟩
    rw [← hrest]
    show (match t.write (target dir input) rendering with
      | (done, t') => (if done then writeAll FileTree.workspace dir renderings
          else return .failed (.writing (target dir input)) : StateM FileTree Outcome) t') = _
    rw [target, ← outputName, hwrite]
    rfl

variable {job : Job} {t t₁ t₂ : FileTree} {dir : String} {renderings : List (String × String)}

/-- A job with a directory to write to writes its renderings once the directory is there. -/
theorem run_eq_writeAll (hdir : job.outDir = some dir)
    (hmade : FileTree.workspace.makeDirectories dir t = (true, t₁))
    (hall : job.renderAll (t.contents job.inputs) = .ok renderings) :
    job.run FileTree.workspace t = writeAll FileTree.workspace dir renderings t₁ := by
  rw [run_workspace, hall, deliver, hdir]
  show (match FileTree.workspace.makeDirectories dir t with
    | (made, t') => (if made then writeAll FileTree.workspace dir renderings
        else return .failed (.makingDirectory dir) : StateM FileTree Outcome) t') = _
  rw [hmade]
  rfl

/-- Renderings are written to their ends if each file can be written by itself. -/
theorem exists_writeAll
    (hwritten : ∀ r ∈ renderings, ∃ text, (t₁.write (target dir r.1) text).1 = true) :
    ∃ t₂, writeAll FileTree.workspace dir renderings t₁ = (.done "", t₂) ∧
      ∀ before r after, renderings = before ++ r :: after →
        (∀ later ∈ after, outputName later.1 ≠ outputName r.1) →
          t₂.read (target dir r.1) = .ok r.2 := by
  have hroom : ∀ r ∈ renderings,
      ∃ es, t₁.folder? dir = some es ∧ FileTree.HasRoom dir es (outputName r.1) := by
    intro r hr
    obtain ⟨text, htext⟩ := hwritten r hr
    exact FileTree.exists_of_write (isName_outputName r.1) htext
  cases hfirst : renderings with
  | nil => exact ⟨t₁, rfl, by simp⟩
  | cons first rest =>
    rw [← hfirst]
    obtain ⟨es, hfolder, -⟩ := hroom first (hfirst ▸ List.mem_cons_self)
    have hroom : ∀ r ∈ renderings, FileTree.HasRoom dir es (outputName r.1) := by
      intro r hr
      obtain ⟨es', hfolder', hspace⟩ := hroom r hr
      cases hfolder.symm.trans hfolder'
      exact hspace
    obtain ⟨t₂, hrun, hfolder₂⟩ := writeAll_workspace hfolder hroom
    refine ⟨t₂, hrun, ?_⟩
    intro before r after hsplit hlast
    have hspace := hroom r (by simp [hsplit])
    rw [hsplit] at hfolder₂
    exact FileTree.read_join (isName_outputName r.1) hspace.path_le hspace.name_le hfolder₂
      (lookup_filled_append_cons hlast es)

/-- The file for an input holds its rendering. -/
def IsKept (job : Job) (t t' : FileTree) (dir path : String) : Prop :=
  ∃ text, job.Renders t path text ∧ t'.read (target dir path) = .ok text

/-- An input, and behind it none with its stem. -/
theorem exists_last_of_stem {inputs : List String} {path : String} (h : path ∈ inputs) :
    ∃ before last after, inputs = before ++ last :: after ∧ Path.stem last = Path.stem path ∧
      ∀ later ∈ after, Path.stem later ≠ Path.stem last := by
  cases hfound : inputs.reverse.find? fun other => Path.stem other == Path.stem path with
  | none =>
    rw [List.find?_eq_none] at hfound
    exact absurd BEq.rfl (hfound path (List.mem_reverse.mpr h))
  | some last =>
    obtain ⟨hstem, after, before, hsplit, hafter⟩ := List.find?_eq_some_iff_append.mp hfound
    rw [beq_iff_eq] at hstem
    refine ⟨before.reverse, last, after.reverse, ?_, hstem, ?_⟩
    · rw [← List.reverse_reverse inputs, hsplit]
      simp
    · intro later hlater
      rw [hstem]
      simpa using hafter later (List.mem_reverse.mp hlater)

/-- A job whose inputs can all be rendered and whose files can all be written, each by itself, is
done. The file for an input holds its rendering if no later input has the same stem, and all files
do so just if no two inputs with the same stem have different renderings. -/
theorem run_writes {job : Job} {t t₁ : FileTree} {dir : String} (hdir : job.outDir = some dir)
    (hmade : FileTree.workspace.makeDirectories dir t = (true, t₁))
    (hwritten : ∀ path ∈ job.inputs, ∃ text, (t₁.write (target dir path) text).1 = true)
    (hrendered : ∀ path ∈ job.inputs, ∃ text, job.Renders t path text) :
    ∃ t₂, job.run FileTree.workspace t = (.done "", t₂) ∧
      (∀ before path after, job.inputs = before ++ path :: after →
        (∀ later ∈ after, Path.stem later ≠ Path.stem path) → job.IsKept t t₂ dir path) ∧
      ((∀ path ∈ job.inputs, job.IsKept t t₂ dir path) ↔
        ∀ a ∈ job.inputs, ∀ b ∈ job.inputs, Path.stem a = Path.stem b →
          ∀ text, job.Renders t a text ↔ job.Renders t b text) := by
  obtain ⟨renderings, hall, hparts⟩ := exists_renderAll_eq_ok hrendered
  have hinputs : job.inputs = renderings.map (·.1) := by
    rw [map_fst_of_renderAll hall, FileTree.contents, List.map_map]
    exact (List.map_id _).symm
  rw [hinputs, List.forall₂_map_left_iff, List.forall₂_same] at hparts
  have hfiles : ∀ r ∈ renderings, ∃ text, (t₁.write (target dir r.1) text).1 = true := by
    intro r hr
    exact hwritten r.1 (hinputs ▸ List.mem_map_of_mem hr)
  obtain ⟨t₂, hrun, hread⟩ := exists_writeAll hfiles
  have hlast : ∀ before path after, job.inputs = before ++ path :: after →
      (∀ later ∈ after, Path.stem later ≠ Path.stem path) → job.IsKept t t₂ dir path := by
    intro before path after hsplit hstem
    rw [hinputs] at hsplit
    obtain ⟨before, others, hrow, -, hothers⟩ := List.map_eq_append_iff.mp hsplit
    obtain ⟨r, after, rfl, rfl, rfl⟩ := List.map_eq_cons_iff.mp hothers
    refine ⟨r.2, (hparts r (by simp [hrow])).2, hread before r after hrow fun later hlater => ?_⟩
    rw [ne_eq, outputName_eq_iff]
    exact hstem later.1 (List.mem_map_of_mem hlater)
  refine ⟨t₂, (run_eq_writeAll hdir hmade hall).trans hrun, hlast, ?_⟩
  constructor
  · intro hkept a ha b hb hstem
    obtain ⟨text, hrender, hread⟩ := hkept a ha
    obtain ⟨text', hrender', hread'⟩ := hkept b hb
    have htarget : target dir a = target dir b := by rw [target, target, hstem]
    rw [htarget, hread'] at hread
    cases Except.ok.inj hread
    exact fun other => ⟨fun h => h.unique hrender ▸ hrender', fun h => h.unique hrender' ▸ hrender⟩
  · intro hsame path hpath
    obtain ⟨before, last, after, hsplit, hstem, hafter⟩ := exists_last_of_stem hpath
    obtain ⟨text, hrender, hread⟩ := hlast before last after hsplit hafter
    have hmem : last ∈ job.inputs := by simp [hsplit]
    have htarget : target dir path = target dir last := by rw [target, target, hstem]
    exact ⟨text, (hsame path hpath last hmem hstem.symm text).mpr hrender, htarget ▸ hread⟩

/-- Two inputs with different stems, and a directory that is made for them inside another. -/
theorem run_writes_apart :
    let t : FileTree := {
      root := [("x.json", .file "\x7b\"name\":\"x\",\"document\":\x7b\x7d\x7d"),
        ("y.json", .file "\x7b\"name\":\"y\",\"document\":\x7b\x7d\x7d")] }
    let job : Job :=
      { inputs := ["x.json", "y.json"], outDir := some "a/b", limit := none, isCompact := true }
    ∃ t₂, job.run FileTree.workspace t = (.done "", t₂) ∧
      ∀ path ∈ job.inputs, job.IsKept t t₂ "a/b" path := by
  intro t job
  let made := FileTree.workspace.makeDirectories "a/b" t
  have hdir : job.outDir = some "a/b" := rfl
  have hmade : made = (true, made.2) := Prod.ext (by decide +kernel) rfl
  have hwritten : ∀ path ∈ job.inputs, (made.2.write (target "a/b" path) "").1 = true := by
    decide +kernel
  have hsome : ∀ path ∈ job.inputs, (job.render path (t.read path)).toOption.isSome = true := by
    decide +kernel
  have hrendered : ∀ path ∈ job.inputs, ∃ text, job.Renders t path text := by
    intro path hpath
    obtain ⟨text, htext⟩ := exists_eq_ok_of_isSome (hsome path hpath)
    exact ⟨text, render_eq_ok_iff.mp htext⟩
  have hstems : ∀ a ∈ job.inputs, ∀ b ∈ job.inputs, Path.stem a = Path.stem b → a = b := by
    decide +kernel
  obtain ⟨t₂, hrun, -, hkept⟩ :=
    run_writes hdir hmade (fun path hpath => ⟨"", hwritten path hpath⟩) hrendered
  refine ⟨t₂, hrun, hkept.mpr ?_⟩
  intro a ha b hb hstem
  obtain rfl := hstems a ha b hb hstem
  exact fun text => Iff.rfl

/-- A job is done although one of its two renderings is lost: the inputs have one stem, and no file
holds what the first one is rendered as. -/
theorem exists_overwritten :
    ∃ (job : Job) (t : FileTree) (dir path text : String),
      job.inputs.Nodup ∧ job.outDir = some dir ∧
      (FileTree.workspace.makeDirectories dir t).1 = true ∧
      (∀ input ∈ job.inputs,
        ((FileTree.workspace.makeDirectories dir t).2.write (target dir input) text).1 = true) ∧
      (∀ input ∈ job.inputs, ∃ text, job.Renders t input text) ∧
      path ∈ job.inputs ∧ job.Renders t path text ∧
      (job.run FileTree.workspace t).1 = .done "" ∧
      ∀ file ∈ (job.run FileTree.workspace t).2.files, file.2 ≠ text := by
  let t : FileTree := {
    root := [
      ("a", .directory [("x.json", .file "\x7b\"name\":\"a\",\"document\":\x7b\x7d\x7d")]),
      ("b", .directory [("x.json", .file "\x7b\"name\":\"b\",\"document\":\x7b\x7d\x7d")])] }
  let job : Job :=
    { inputs := ["a/x.json", "b/x.json"], outDir := some "out", limit := none, isCompact := true }
  let text (name : String) : String :=
    "\x7b\"name\":\"" ++ name ++ "\",\"lastModified\":\"\",\"thumbnailUrl\":\"\",\"nodes\":[]," ++
      "\"globalVars\":\x7b\"styles\":\x7b\x7d\x7d\x7d"
  have hfirst : job.Renders t "a/x.json" (text "a") :=
    render_eq_ok_iff.mp (by decide +kernel)
  have hsecond : job.Renders t "b/x.json" (text "b") :=
    render_eq_ok_iff.mp (by decide +kernel)
  refine ⟨job, t, "out", "a/x.json", text "a", by decide, rfl, by decide +kernel,
    by decide +kernel, ?_, by decide, hfirst, by decide +kernel, by decide +kernel⟩
  exact List.forall_mem_cons.mpr ⟨⟨_, hfirst⟩, List.forall_mem_singleton.mpr ⟨_, hsecond⟩⟩

end Job
end DesignBrief
