import DesignBrief.Command.Run
import DesignBrief.Proofs.Calls
import DesignBrief.Proofs.Reading

/-!
What a job does, in two steps: it reads and renders its inputs, and then delivers the renderings.
What a file is rendered as, and why it cannot be rendered, is told by what is read, walked and
written, `Job.Renders` and `Job.Fails`; there is just one of the two, `Job.exists_fails_iff`.
Reading changes nothing, so a job on a tree of files delivers what comes of the contents that its
inputs have in that tree, `Job.run_workspace`.
-/

namespace DesignBrief

namespace Job

variable {job : Job}

/-! ## One input -/

/-- The file under a path holds a response, and the text is what is written of its brief. -/
def Renders (job : Job) (t : FileTree) (path text : String) : Prop :=
  ∃ content response brief, t.read path = .ok content ∧ Response.ofText content = .ok response ∧
    response.brief job.limit = .ok brief ∧
    text = if job.isCompact then brief.toJson.compact else brief.toJson.pretty

/-- Why the file under a path is not rendered. -/
inductive Fails (job : Job) (t : FileTree) (path : String) : Trouble → Prop where
  | notOpened (h : t.read path = .error .notOpened) : Fails job t path (.opening path)
  | notRead (h : t.read path = .error .notRead) : Fails job t path (.reading path)
  | malformed {content : String} {failure : Failure} (hread : t.read path = .ok content)
      (h : Response.ofText content = .error failure) : Fails job t path (.reading path)
  | rootless {content : String} {response : Response} {failure : Failure}
      (hread : t.read path = .ok content) (hresponse : Response.ofText content = .ok response)
      (h : response.brief job.limit = .error failure) : Fails job t path (.walking path)

variable {t : FileTree} {path : String}

theorem render_ok (job : Job) (path content : String) :
    job.render path (.ok content) =
      (Response.ofText content).mapError (fun _ => Trouble.reading path) >>= fun response =>
        (response.brief job.limit).mapError (fun _ => Trouble.walking path) >>= fun brief =>
          .ok (if job.isCompact then brief.toJson.compact else brief.toJson.pretty) := rfl

theorem render_response {content : String} {response : Response}
    (h : Response.ofText content = .ok response) :
    job.render path (.ok content) =
      (response.brief job.limit).mapError (fun _ => Trouble.walking path) >>= fun brief =>
        .ok (if job.isCompact then brief.toJson.compact else brief.toJson.pretty) := by
  rw [render_ok, h]
  rfl

theorem render_eq_ok_iff {text : String} :
    job.render path (t.read path) = .ok text ↔ job.Renders t path text := by
  cases hread : t.read path with
  | error why =>
    refine ⟨fun h => ?_, fun ⟨content, _, _, hcontent, _⟩ => ?_⟩
    · cases why <;> cases h
    · cases hread.symm.trans hcontent
  | ok content =>
    constructor
    · intro h
      rw [render_ok] at h
      obtain ⟨response, hresponse, h⟩ := bind_eq_ok_iff.mp h
      obtain ⟨brief, hbrief, h⟩ := bind_eq_ok_iff.mp h
      exact ⟨content, response, brief, hread, mapError_eq_ok_iff.mp hresponse,
        mapError_eq_ok_iff.mp hbrief, (Except.ok.inj h).symm⟩
    · rintro ⟨found, response, brief, hfound, hresponse, hbrief, rfl⟩
      cases hread.symm.trans hfound
      rw [render_response hresponse, hbrief]
      rfl

theorem render_eq_error_iff {trouble : Trouble} :
    job.render path (t.read path) = .error trouble ↔ job.Fails t path trouble := by
  constructor
  · intro h
    cases hread : t.read path with
    | error why =>
      rw [hread] at h
      cases why with
      | notOpened => cases h; exact .notOpened hread
      | notRead => cases h; exact .notRead hread
    | ok content =>
      rw [hread] at h
      cases hresponse : Response.ofText content with
      | error failure =>
        rw [render_ok, hresponse] at h
        cases h
        exact .malformed hread hresponse
      | ok response =>
        rw [render_response hresponse] at h
        cases hbrief : response.brief job.limit with
        | error failure =>
          rw [hbrief] at h
          cases h
          exact .rootless hread hresponse hbrief
        | ok brief => rw [hbrief] at h; cases h
  · intro h
    cases h with
    | notOpened h => rw [h]; rfl
    | notRead h => rw [h]; rfl
    | malformed hread h => rw [hread, render_ok, h]; rfl
    | rootless hread hresponse h => rw [hread, render_response hresponse, h]; rfl

theorem Renders.unique {x y : String} (hx : job.Renders t path x) (hy : job.Renders t path y) :
    x = y := by
  rw [← render_eq_ok_iff] at hx hy
  exact Except.ok.inj (hx.symm.trans hy)

/-- A file is not rendered just if there is a reason. -/
theorem exists_fails_iff :
    (∃ trouble, job.Fails t path trouble) ↔ ∀ text, ¬ job.Renders t path text := by
  simp only [← render_eq_error_iff, ← render_eq_ok_iff]
  cases job.render path (t.read path) <;> simp

/-! ## All inputs -/

theorem renderAll_cons (job : Job) (path : String) (content : Except Unreadable String)
    (rest : List (String × Except Unreadable String)) :
    job.renderAll ((path, content) :: rest) =
      job.render path content >>= fun first =>
        job.renderAll rest >>= fun others => .ok ((path, first) :: others) := rfl

/-- The renderings of all inputs, each with its path, if every one can be rendered. -/
theorem renderAll_eq_ok_iff {contents : List (String × Except Unreadable String)}
    {renderings : List (String × String)} :
    job.renderAll contents = .ok renderings ↔
      List.Forall₂ (fun c r => r.1 = c.1 ∧ job.render c.1 c.2 = .ok r.2) contents renderings := by
  induction contents generalizing renderings with
  | nil =>
    rw [List.forall₂_nil_left_iff]
    exact ⟨fun h => (Except.ok.inj h).symm, fun h => h ▸ rfl⟩
  | cons c contents ih =>
    obtain ⟨path, content⟩ := c
    rw [renderAll_cons, bind_eq_ok_iff, List.forall₂_cons_left_iff]
    constructor
    · rintro ⟨first, hfirst, h⟩
      obtain ⟨others, hothers, h⟩ := bind_eq_ok_iff.mp h
      cases h
      exact ⟨(path, first), others, ⟨rfl, hfirst⟩, ih.mp hothers, rfl⟩
    · rintro ⟨⟨name, first⟩, others, ⟨hname, hfirst⟩, hothers, rfl⟩
      cases hname
      exact ⟨first, hfirst, bind_eq_ok_iff.mpr ⟨others, ih.mpr hothers, rfl⟩⟩

/-- If one input cannot be rendered, there are no renderings. -/
theorem exists_renderAll_eq_error {contents : List (String × Except Unreadable String)}
    {c : String × Except Unreadable String} (hc : c ∈ contents) {trouble : Trouble}
    (h : job.render c.1 c.2 = .error trouble) :
    ∃ first, job.renderAll contents = .error first := by
  induction contents with
  | nil => cases hc
  | cons d contents ih =>
    obtain ⟨path, content⟩ := d
    rw [renderAll_cons]
    cases hd : job.render path content with
    | error first => exact ⟨first, rfl⟩
    | ok text =>
      obtain hhead | htail := List.mem_cons.mp hc
      · subst hhead
        rw [hd] at h
        cases h
      · obtain ⟨first, hfirst⟩ := ih htail
        exact ⟨first, by rw [hfirst]; rfl⟩

variable {m : Type → Type} [Monad m]

/-- What a job does with its renderings, or with the trouble that there was. -/
def deliver (ws : Workspace m) (job : Job) :
    Except Trouble (List (String × String)) → m Outcome
  | .error trouble => return .failed trouble
  | .ok renderings =>
    match job.outDir with
    | none => return .done (String.join (renderings.map fun r => r.2 ++ "\n"))
    | some dir => do
      if ← ws.makeDirectories dir then writeAll ws dir renderings
      else return .failed (.makingDirectory dir)

theorem run_eq (ws : Workspace m) (job : Job) :
    job.run ws = (do
      let contents ← job.inputs.mapM fun path => return (path, ← ws.read path)
      job.deliver ws (job.renderAll contents)) := by
  unfold run
  congr

end Job

/-- What the files under some paths hold. -/
def FileTree.contents (t : FileTree) (paths : List String) :
    List (String × Except Unreadable String) :=
  paths.map fun path => (path, t.read path)

theorem FileTree.mem_contents {t : FileTree} {paths : List String} {path : String}
    (h : path ∈ paths) : (path, t.read path) ∈ t.contents paths :=
  List.mem_map.mpr ⟨path, h, rfl⟩

/-- If every input can be rendered, there are all renderings, in the order of the inputs. -/
theorem Job.exists_renderAll_eq_ok {job : Job} {t : FileTree} {paths : List String}
    (h : ∀ path ∈ paths, ∃ text, job.Renders t path text) :
    ∃ renderings, job.renderAll (t.contents paths) = .ok renderings ∧
      List.Forall₂ (fun path r => r.1 = path ∧ job.Renders t path r.2) paths renderings := by
  induction paths with
  | nil => exact ⟨[], rfl, .nil⟩
  | cons path paths ih =>
    rw [List.forall_mem_cons] at h
    obtain ⟨⟨text, htext⟩, hrest⟩ := h
    obtain ⟨renderings, hall, hparts⟩ := ih hrest
    refine ⟨(path, text) :: renderings, ?_, .cons ⟨rfl, htext⟩ hparts⟩
    show renderAll job ((path, t.read path) :: t.contents paths) = _
    rw [renderAll_cons, render_eq_ok_iff.mpr htext, hall]
    rfl

theorem Job.run_workspace (job : Job) (t : FileTree) :
    job.run FileTree.workspace t =
      job.deliver FileTree.workspace (job.renderAll (t.contents job.inputs)) t := by
  let read (path : String) : StateM FileTree (String × Except Unreadable String) := do
    return (path, ← FileTree.workspace.read path)
  have hread (paths : List String) : Calls.run read paths t = (t.contents paths, t) := by
    induction paths with
    | nil => rfl
    | cons path paths ih =>
      rw [Calls.run_cons]
      show ((path, t.read path) :: (Calls.run read paths t).1, (Calls.run read paths t).2) = _
      rw [ih]
      rfl
  rw [run_eq]
  show job.deliver FileTree.workspace (job.renderAll (Calls.run read job.inputs t).1)
    (Calls.run read job.inputs t).2 = _
  rw [hread]

end DesignBrief
