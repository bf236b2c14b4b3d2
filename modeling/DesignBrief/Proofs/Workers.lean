import DesignBrief.Proofs.Jobs

/-!
Inputs rendered by workers. Each input has a worker that reads it and renders it, at any time; once
one has failed, others may be given up. Whatever the order, the workers come to an end, and they end
with the renderings that the inputs have on their own or with the trouble of an input that cannot
be rendered, `Pool.Sound.result`. So a job delivers all or nothing, `Job.delivers_all_or_nothing`.
-/

namespace DesignBrief

/-- How far a worker is with its input. -/
inductive Progress where
  | waiting
  /-- The input has been read. -/
  | holding (content : Except Unreadable String)
  | finished (rendering : Except Trouble String)
  /-- The input has been given up. -/
  | skipped

namespace Progress

def isOver : Progress → Bool
  | finished _ | skipped => true
  | waiting | holding _ => false

def left : Progress → Nat
  | waiting => 2
  | holding _ => 1
  | finished _ | skipped => 0

/-- What a worker holds or has finished with is what comes of its input. -/
def Agrees (job : Job) (t : FileTree) (path : String) : Progress → Prop
  | holding content => content = t.read path
  | finished rendering => rendering = job.render path (t.read path)
  | waiting | skipped => True

def IsCalm : Progress → Prop
  | waiting | holding _ | finished (.ok _) => True
  | finished (.error _) | skipped => False

end Progress

/-- The workers of a job in the order of their inputs, and the trouble of the first that failed. -/
structure Pool where
  workers : List (String × Progress)
  trouble? : Option Trouble := none

namespace Pool

def start (inputs : List String) : Pool := { workers := inputs.map fun path => (path, .waiting) }

/-- The trouble that is kept when a worker finishes: the first one. -/
def keep : Option Trouble → Except Trouble String → Option Trouble
  | some trouble, _ => some trouble
  | none, .error trouble => some trouble
  | none, .ok _ => none

variable {job : Job} {t : FileTree}

/-- One worker does one thing: it reads its input, it renders it, or it gives it up. -/
inductive Step (job : Job) (t : FileTree) : Pool → Pool → Prop where
  | read (before after : List (String × Progress)) (path : String) (trouble? : Option Trouble) :
      Step job t ⟨before ++ (path, .waiting) :: after, trouble?⟩
        ⟨before ++ (path, .holding (t.read path)) :: after, trouble?⟩
  | render (before after : List (String × Progress)) (path : String)
      (content : Except Unreadable String) (trouble? : Option Trouble) :
      Step job t ⟨before ++ (path, .holding content) :: after, trouble?⟩
        ⟨before ++ (path, .finished (job.render path content)) :: after,
          keep trouble? (job.render path content)⟩
  | skip (before after : List (String × Progress)) (path : String) (trouble : Trouble) :
      Step job t ⟨before ++ (path, .waiting) :: after, some trouble⟩
        ⟨before ++ (path, .skipped) :: after, some trouble⟩

/-- A pool is reached from the start of a job by steps of its workers. -/
def Reaches (job : Job) (t : FileTree) (p : Pool) : Prop :=
  Relation.ReflTransGen (Step job t) (start job.inputs) p

def isOver (p : Pool) : Bool := p.workers.all fun w => w.2.isOver

def rendering? : String × Progress → Option (String × String)
  | (path, .finished (.ok text)) => some (path, text)
  | _ => none

/-- What the workers come to: the renderings in the order of the inputs, or the trouble. -/
def result (p : Pool) : Except Trouble (List (String × String)) :=
  match p.trouble? with
  | some trouble => .error trouble
  | none => .ok (p.workers.filterMap rendering?)

/-! ## What the workers keep -/

/-- The workers have the inputs of the job, and what they came to is what comes of these. -/
structure Sound (job : Job) (t : FileTree) (p : Pool) : Prop where
  inputs : p.workers.map (·.1) = job.inputs
  agrees : ∀ w ∈ p.workers, w.2.Agrees job t w.1
  trouble : ∀ e ∈ p.trouble?, ∃ path ∈ job.inputs, job.render path (t.read path) = .error e
  calm : p.trouble? = none → ∀ w ∈ p.workers, w.2.IsCalm

theorem sound_start (job : Job) (t : FileTree) : (start job.inputs).Sound job t where
  inputs := by
    rw [start, List.map_map]
    exact List.map_id _
  agrees := by simp [start, Progress.Agrees]
  trouble := nofun
  calm := by simp [start, Progress.IsCalm]

theorem forall_replace {P : String × Progress → Prop} {before after : List (String × Progress)}
    {w v : String × Progress} (h : ∀ u ∈ before ++ w :: after, P u) (hv : P v) :
    ∀ u ∈ before ++ v :: after, P u := by
  rw [List.forall_mem_append, List.forall_mem_cons] at h ⊢
  exact ⟨h.1, hv, h.2.2⟩

/-- A worker that goes on keeps its input. -/
theorem inputs_replace {before after : List (String × Progress)} {path : String}
    (x y : Progress) : (before ++ (path, x) :: after).map (·.1) =
      (before ++ (path, y) :: after).map (·.1) := by
  simp

theorem Step.sound {p q : Pool} (hstep : Step job t p q) (h : p.Sound job t) : q.Sound job t := by
  obtain ⟨hinputs, hagrees, htrouble, hcalm⟩ := h
  cases hstep with
  | read before after path trouble? =>
    refine ⟨?_, forall_replace hagrees rfl, htrouble, fun hnone => ?_⟩
    · rw [← hinputs, inputs_replace]
    · exact forall_replace (hcalm hnone) trivial
  | render before after path content trouble? =>
    have hcontent : content = t.read path := hagrees (path, .holding content) (by simp)
    have hpath : path ∈ job.inputs := by
      rw [← hinputs]
      simp
    subst hcontent
    refine ⟨?_, forall_replace hagrees rfl, ?_, fun hnone => ?_⟩
    · rw [← hinputs, inputs_replace]
    · intro e he
      cases trouble? with
      | some trouble => exact htrouble e he
      | none =>
        cases hr : job.render path (t.read path) with
        | ok text => rw [hr] at he; cases he
        | error trouble =>
          rw [hr] at he
          cases he
          exact ⟨path, hpath, hr⟩
    · cases trouble? with
      | some trouble => cases hnone
      | none =>
        refine forall_replace (hcalm rfl) ?_
        cases hr : job.render path (t.read path) with
        | ok text => trivial
        | error trouble => rw [hr] at hnone; cases hnone
  | skip before after path trouble =>
    refine ⟨?_, forall_replace hagrees trivial, htrouble, nofun⟩
    rw [← hinputs, inputs_replace]

theorem Reaches.sound {p : Pool} (h : Reaches job t p) : p.Sound job t := by
  induction h with
  | refl => exact sound_start job t
  | tail _ hstep ih => exact hstep.sound ih

/-- Workers that all have finished well come to the renderings of their inputs. -/
theorem renderAll_of_workers {workers : List (String × Progress)}
    (h : ∀ w ∈ workers, w.2.Agrees job t w.1 ∧ w.2.IsCalm ∧ w.2.isOver = true) :
    job.renderAll (t.contents (workers.map (·.1))) = .ok (workers.filterMap rendering?) := by
  rw [Job.renderAll_eq_ok_iff]
  induction workers with
  | nil => exact .nil
  | cons w workers ih =>
    rw [List.forall_mem_cons] at h
    obtain ⟨⟨hagrees, hcalm, hover⟩, hrest⟩ := h
    obtain ⟨path, progress⟩ := w
    cases progress with
    | finished rendering =>
      cases rendering with
      | ok text => exact .cons ⟨rfl, hagrees.symm⟩ (ih hrest)
      | error trouble => cases hcalm
    | waiting => cases hover
    | holding content => cases hover
    | skipped => cases hcalm

/-- The workers come to what comes of the inputs on their own: to all renderings, or to the trouble
of one that cannot be rendered. -/
theorem Sound.result {p : Pool} (h : p.Sound job t) (hover : p.isOver = true) :
    (∃ renderings, job.renderAll (t.contents job.inputs) = .ok renderings ∧
        p.result = .ok renderings) ∨
      ∃ path ∈ job.inputs, ∃ trouble, job.render path (t.read path) = .error trouble ∧
        p.result = .error trouble := by
  cases htrouble : p.trouble? with
  | none =>
    left
    rw [isOver, List.all_eq_true] at hover
    refine ⟨p.workers.filterMap rendering?, ?_, by rw [Pool.result, htrouble]⟩
    rw [← h.inputs]
    exact renderAll_of_workers fun w hw =>
      ⟨h.agrees w hw, h.calm htrouble w hw, hover w hw⟩
  | some trouble =>
    right
    obtain ⟨path, hpath, hrender⟩ := h.trouble trouble htrouble
    exact ⟨path, hpath, trouble, hrender, by rw [Pool.result, htrouble]⟩

/-! ## The workers come to an end -/

def left (p : Pool) : Nat := (p.workers.map fun w => w.2.left).sum

theorem Step.left_lt {p q : Pool} (h : Step job t p q) : q.left < p.left := by
  cases h <;> simp [left, Progress.left]

/-- As long as a worker is not at its end, some worker can do something. -/
theorem exists_step {p : Pool} (h : p.isOver = false) : ∃ q, Step job t p q := by
  rw [isOver, List.all_eq_false] at h
  obtain ⟨⟨path, progress⟩, hw, hleft⟩ := h
  obtain ⟨workers, trouble?⟩ := p
  obtain ⟨before, after, rfl⟩ := List.append_of_mem hw
  cases progress with
  | waiting => exact ⟨_, .read before after path trouble?⟩
  | holding content => exact ⟨_, .render before after path content trouble?⟩
  | finished rendering => exact absurd rfl hleft
  | skipped => exact absurd rfl hleft

theorem exists_over (p : Pool) :
    ∃ q, Relation.ReflTransGen (Step job t) p q ∧ q.isOver = true := by
  induction hn : p.left using Nat.strongRecOn generalizing p with
  | ind n ih =>
    cases hover : p.isOver with
    | true => exact ⟨p, .refl, hover⟩
    | false =>
      obtain ⟨q, hq⟩ : ∃ q, Step job t p q := exists_step hover
      obtain ⟨last, hlast, hend⟩ := ih q.left (hn ▸ hq.left_lt) q rfl
      exact ⟨last, .head hq hlast, hend⟩

/-! ## One after the other -/

/-- Once there is trouble, all that have not begun can be given up. -/
theorem reaches_skipped (before : List (String × Progress)) (paths : List String)
    (trouble : Trouble) :
    Relation.ReflTransGen (Step job t)
      ⟨before ++ paths.map fun path => (path, .waiting), some trouble⟩
      ⟨before ++ paths.map fun path => (path, .skipped), some trouble⟩ := by
  induction paths generalizing before with
  | nil => exact .refl
  | cons path paths ih =>
    have hrest := ih (before ++ [(path, .skipped)])
    rw [List.append_assoc, List.append_assoc] at hrest
    exact .head (.skip before _ path trouble) hrest

/-- If each worker does its work before the next one begins, what is kept is the first trouble. -/
theorem exists_in_order (before : List (String × Progress))
    (hbefore : before.all fun w => w.2.isOver) (paths : List String) :
    ∃ p, Relation.ReflTransGen (Step job t)
        ⟨before ++ paths.map fun path => (path, .waiting), none⟩ p ∧ p.isOver = true ∧
      ∀ trouble, job.renderAll (t.contents paths) = .error trouble → p.trouble? = some trouble := by
  induction paths generalizing before with
  | nil => exact ⟨_, .refl, by simpa [isOver] using hbefore, nofun⟩
  | cons path paths ih =>
    let waiting : List (String × Progress) := paths.map fun path => (path, .waiting)
    let rendering := job.render path (t.read path)
    have hfirst : Relation.ReflTransGen (Step job t) ⟨before ++ (path, .waiting) :: waiting, none⟩
        ⟨(before ++ [(path, .finished rendering)]) ++ waiting, keep none rendering⟩ := by
      rw [List.append_assoc]
      exact .head (.read before waiting path none) (.single (.render before waiting path _ none))
    cases hr : job.render path (t.read path) with
    | error trouble =>
      have hall : job.renderAll (t.contents (path :: paths)) = .error trouble := by
        show job.renderAll ((path, t.read path) :: t.contents paths) = _
        rw [Job.renderAll_cons, hr]
        rfl
      simp only [rendering, hr, keep] at hfirst
      refine ⟨_, hfirst.trans (reaches_skipped _ paths trouble), ?_, fun first h => ?_⟩
      · simpa [isOver, Progress.isOver] using hbefore
      · rw [hall] at h
        exact congrArg some (Except.error.inj h)
    | ok text =>
      simp only [rendering, hr, keep] at hfirst
      obtain ⟨p, hp, hover, htrouble⟩ := ih (before ++ [(path, .finished (.ok text))]) (by
        simpa [Progress.isOver] using hbefore)
      refine ⟨p, hfirst.trans hp, hover, fun trouble h => htrouble trouble ?_⟩
      change job.renderAll ((path, t.read path) :: t.contents paths) = _ at h
      rw [Job.renderAll_cons, hr] at h
      cases hrest : job.renderAll (t.contents paths) with
      | error first => rw [hrest] at h; exact h
      | ok others => rw [hrest] at h; cases h

end Pool

namespace Job

/-- A job that takes its inputs one after the other is one way for the workers to come to an end. -/
theorem exists_pool_eq_run (job : Job) (t : FileTree) :
    ∃ p : Pool, p.Reaches job t ∧ p.isOver = true ∧
      job.deliver FileTree.workspace p.result t = job.run FileTree.workspace t := by
  obtain ⟨p, hp, hover, htrouble⟩ : ∃ p : Pool, p.Reaches job t ∧ p.isOver = true ∧ _ :=
    Pool.exists_in_order [] rfl job.inputs
  refine ⟨p, hp, hover, ?_⟩
  rw [run_workspace]
  rcases hp.sound.result hover with ⟨renderings, hall, hresult⟩ | ⟨path, hpath, trouble, hrender, -⟩
  · rw [hresult, hall]
  · obtain ⟨first, hfirst⟩ := exists_renderAll_eq_error (FileTree.mem_contents hpath) hrender
    rw [Pool.result, htrouble first hfirst, hfirst]

/-- A job with a single input and no directory to write to prints its rendering. -/
theorem run_alone {job : Job} {t : FileTree} {path text : String}
    (hdir : job.outDir = none) (h : job.Renders t path text) :
    { job with inputs := [path] }.run FileTree.workspace t = (.done (text ++ "\n"), t) := by
  have hall : Job.renderAll { job with inputs := [path] } (t.contents [path]) =
      .ok [(path, text)] := by
    rw [renderAll_eq_ok_iff]
    exact .cons ⟨rfl, render_eq_ok_iff.mpr h⟩ .nil
  rw [run_workspace, hall, deliver, hdir]
  simp [String.join]
  rfl

/-- A job delivers all or nothing, and in the order of its inputs, in whatever order its workers
come to their ends. The workers are never stuck, and one way to their ends is to take the inputs one
after the other. If every input holds a response of which a brief can be made and there is no
directory to write to, what is printed are these briefs in the order of the inputs, each as it is
printed for that input alone. If some input does not, the job fails with the trouble of such an
input: nothing is printed and no file is touched. -/
theorem delivers_all_or_nothing (job : Job) (t : FileTree) :
    (∃ p : Pool, p.Reaches job t ∧ p.isOver = true ∧
      job.deliver FileTree.workspace p.result t = job.run FileTree.workspace t) ∧
    ∀ p : Pool, p.Reaches job t →
      (∃ q, Relation.ReflTransGen (Pool.Step job t) p q ∧ q.isOver = true) ∧
      (p.isOver = true → job.outDir = none →
        (∀ path ∈ job.inputs, ∃ text, job.Renders t path text) →
          ∃ texts : List String,
            List.Forall₂ (fun path text => job.Renders t path text ∧
              { job with inputs := [path] }.run FileTree.workspace t = (.done (text ++ "\n"), t))
              job.inputs texts ∧
            job.deliver FileTree.workspace p.result t =
              (.done (String.join (texts.map fun text => text ++ "\n")), t)) ∧
      (p.isOver = true → (∃ path ∈ job.inputs, ∀ text, ¬ job.Renders t path text) →
        ∃ path ∈ job.inputs, ∃ trouble, job.Fails t path trouble ∧
          job.deliver FileTree.workspace p.result t = (.failed trouble, t)) := by
  refine ⟨exists_pool_eq_run job t, fun p hp => ⟨p.exists_over, ?_, ?_⟩⟩
  · intro hover hdir hall
    obtain ⟨renderings, hrenderings, hparts⟩ := exists_renderAll_eq_ok hall
    rcases hp.sound.result hover with ⟨_, hsame, hresult⟩ | ⟨path, hpath, trouble, hrender, -⟩
    · cases hsame.symm.trans hrenderings
      refine ⟨renderings.map (·.2), ?_, ?_⟩
      · rw [List.forall₂_map_right_iff]
        exact hparts.imp fun path r hr => ⟨hr.2, run_alone hdir hr.2⟩
      · rw [hresult, deliver, hdir, List.map_map]
        rfl
    · obtain ⟨text, htext⟩ := hall path hpath
      exact absurd htext (exists_fails_iff.mp ⟨trouble, render_eq_error_iff.mp hrender⟩ text)
  · rintro hover ⟨path, hpath, hno⟩
    obtain ⟨trouble, hfails⟩ := exists_fails_iff.mpr hno
    rcases hp.sound.result hover with ⟨_, hall, -⟩ | ⟨failing, hfailing, first, hfirst, hresult⟩
    · obtain ⟨first, hfirst⟩ :=
        exists_renderAll_eq_error (FileTree.mem_contents hpath) (render_eq_error_iff.mpr hfails)
      cases hfirst.symm.trans hall
    · refine ⟨failing, hfailing, first, render_eq_error_iff.mp hfirst, ?_⟩
      rw [hresult]
      rfl

/-- Two inputs of which the second one is finished first, and one that is given up and not written
to its directory because another one, in which a bracket is missing, cannot be read. -/
theorem delivers_all_or_nothing_backwards :
    let content (id : String) : String :=
      "\x7b\"document\":\x7b\"children\":[\x7b\"id\":\"" ++ id ++ "\"\x7d]\x7d\x7d"
    let text (id : String) : String :=
      "\x7b\"name\":\"\",\"lastModified\":\"\",\"thumbnailUrl\":\"\"," ++
        "\"nodes\":[\x7b\"id\":\"" ++ id ++ "\",\"name\":\"\",\"type\":\"\"\x7d]," ++
        "\"globalVars\":\x7b\"styles\":\x7b\x7d\x7d\x7d"
    let malformed := "\x7b\"document\":\x7b\x7d"
    let t : FileTree := {
      root := [("a", .file (content "1:2")), ("b", .file (content "3:4")), ("c", .file malformed)] }
    let sound : Job := { inputs := ["a", "b"], outDir := none, limit := none, isCompact := true }
    let broken : Job := { sound with inputs := ["a", "c"], outDir := some "out" }
    (∃ p : Pool, p.Reaches sound t ∧ p.isOver = true ∧
      sound.deliver FileTree.workspace p.result t =
        (.done (String.join [text "1:2" ++ "\n", text "3:4" ++ "\n"]), t)) ∧
    (∃ failure, Response.ofText malformed = .error failure) ∧
    ∃ p : Pool, p.Reaches broken t ∧ p.isOver = true ∧
      broken.deliver FileTree.workspace p.result t = (.failed (.reading "c"), t) := by
  intro content text malformed t sound broken
  have ha : sound.render "a" (t.read "a") = .ok (text "1:2") := by decide +kernel
  have hb : sound.render "b" (t.read "b") = .ok (text "3:4") := by decide +kernel
  have hc : broken.render "c" (t.read "c") = .error (.reading "c") := by decide +kernel
  have hpool : Pool.Reaches sound t
      ⟨[("a", .finished (.ok (text "1:2"))), ("b", .finished (.ok (text "3:4")))], none⟩ := by
    refine .head (.read [("a", .waiting)] [] "b" none) ?_
    refine .head (.render [("a", .waiting)] [] "b" _ none) ?_
    rw [hb]
    refine .head (.read [] _ "a" none) ?_
    refine .head (.render [] _ "a" _ none) ?_
    rw [ha]
    exact .refl
  have hfailed : Pool.Reaches broken t
      ⟨[("a", .skipped), ("c", .finished (.error (.reading "c")))], some (.reading "c")⟩ := by
    refine .head (.read [("a", .waiting)] [] "c" none) ?_
    refine .head (.render [("a", .waiting)] [] "c" _ none) ?_
    rw [hc]
    exact .single (.skip [] _ "a" (.reading "c"))
  refine ⟨?_, ?_, ?_⟩
  · obtain ⟨-, hwhole⟩ := delivers_all_or_nothing sound t
    obtain ⟨-, hdone, -⟩ := hwhole _ hpool
    have hfirst : sound.Renders t "a" (text "1:2") := render_eq_ok_iff.mp ha
    have hsecond : sound.Renders t "b" (text "3:4") := render_eq_ok_iff.mp hb
    have hall : ∀ path ∈ ["a", "b"], ∃ text, sound.Renders t path text :=
      List.forall_mem_cons.mpr ⟨⟨_, hfirst⟩, List.forall_mem_singleton.mpr ⟨_, hsecond⟩⟩
    obtain ⟨texts, hparts, hprinted⟩ := hdone rfl rfl hall
    obtain ⟨first, others, ⟨hx, -⟩, hothers, rfl⟩ := List.forall₂_cons_left_iff.mp hparts
    obtain ⟨second, rest, ⟨hy, -⟩, hrest, rfl⟩ := List.forall₂_cons_left_iff.mp hothers
    obtain rfl := List.forall₂_nil_left_iff.mp hrest
    cases hx.unique hfirst
    cases hy.unique hsecond
    exact ⟨_, hpool, rfl, hprinted⟩
  · cases hfault : Response.ofText malformed with
    | error failure => exact ⟨failure, rfl⟩
    | ok response =>
      have hnone : (Response.ofText malformed).toOption.isNone = true := by decide +kernel
      rw [hfault] at hnone
      cases hnone
  · obtain ⟨-, hwhole⟩ := delivers_all_or_nothing broken t
    obtain ⟨-, -, hfail⟩ := hwhole _ hfailed
    have hno : ∀ text, ¬ broken.Renders t "c" text :=
      exists_fails_iff.mp ⟨_, render_eq_error_iff.mp hc⟩
    obtain ⟨path, hpath, trouble, hfails, hprinted⟩ := hfail rfl ⟨"c", by decide, hno⟩
    rw [← render_eq_error_iff] at hfails
    change path ∈ ["a", "c"] at hpath
    simp only [List.mem_cons, List.not_mem_nil, or_false] at hpath
    obtain rfl | rfl := hpath
    · cases ha.symm.trans hfails
    · cases hc.symm.trans hfails
      exact ⟨_, hfailed, rfl, hprinted⟩

end Job

end DesignBrief
