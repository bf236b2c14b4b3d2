import DesignBrief.Command.Arguments
import DesignBrief.Command.Files

/-!
What the command does: read all inputs, make a brief of each, and only if every one succeeds write
them, to the standard output or into a directory.
-/

namespace DesignBrief

inductive Trouble where
  | opening (path : String)
  | reading (path : String)
  | walking (path : String)
  | makingDirectory (path : String)
  | writing (path : String)
deriving DecidableEq

def Trouble.message : Trouble → String
  | .opening path => "open response '" ++ path ++ "'"
  | .reading path => "read response '" ++ path ++ "'"
  | .walking path => "simplify '" ++ path ++ "'"
  | .makingDirectory path => "create output dir '" ++ path ++ "'"
  | .writing path => "write '" ++ path ++ "'"

inductive Outcome where
  | done (stdout : String)
  | failed (trouble : Trouble)
  | misused
deriving DecidableEq

namespace Outcome

def code : Outcome → UInt32
  | done _ => 0
  | failed _ => 1
  | misused => 2

def stdout : Outcome → String
  | done text => text
  | failed _ => ""
  | misused => ""

/-- What is said of a failure. -/
def complaint? : Outcome → Option String
  | failed trouble => some ("Error: " ++ trouble.message)
  | _ => none

end Outcome

def versionLine : String := "figma-simplify 0.1.0\n"

namespace Job

def render (job : Job) (path : String) : Except Unreadable String → Except Trouble String
  | .error .notOpened => .error (.opening path)
  | .error .notRead => .error (.reading path)
  | .ok text => do
    let response ← (Response.ofText text).mapError fun _ => .reading path
    let brief ← (response.brief job.limit).mapError fun _ => .walking path
    return if job.isCompact then brief.toJson.compact else brief.toJson.pretty

/-- The renderings of all inputs with their paths, or the first trouble. -/
def renderAll (job : Job) :
    List (String × Except Unreadable String) → Except Trouble (List (String × String))
  | [] => .ok []
  | (path, content) :: rest => do
    let first ← job.render path content
    let others ← job.renderAll rest
    return (path, first) :: others

theorem map_fst_of_renderAll {job : Job} {contents : List (String × Except Unreadable String)}
    {renderings : List (String × String)} (h : job.renderAll contents = .ok renderings) :
    renderings.map (·.1) = contents.map (·.1) := by
  induction contents generalizing renderings with
  | nil =>
    cases h
    rfl
  | cons c contents ih =>
    obtain ⟨path, content⟩ := c
    cases hc : job.render path content with
    | error trouble => simp [renderAll, hc, bind, Except.bind] at h
    | ok first =>
      cases hr : job.renderAll contents with
      | error trouble => simp [renderAll, hc, hr, bind, Except.bind] at h
      | ok others =>
        simp [renderAll, hc, hr, bind, Except.bind, pure, Except.pure] at h
        subst h
        simp [ih hr]

def target (dir input : String) : String := Path.join dir (Path.stem input ++ ".simplified.json")

variable {m : Type → Type} [Monad m]

/-- Writes renderings one after the other, until one cannot be written. -/
def writeAll (ws : Workspace m) (dir : String) : List (String × String) → m Outcome
  | [] => return .done ""
  | (input, rendering) :: rest => do
    let path := target dir input
    if ← ws.write path rendering then writeAll ws dir rest
    else return .failed (.writing path)

def run (ws : Workspace m) (job : Job) : m Outcome := do
  let contents ← job.inputs.mapM fun path => return (path, ← ws.read path)
  match job.renderAll contents with
  | .error trouble => return .failed trouble
  | .ok renderings =>
    match job.outDir with
    | none => return .done (String.join (renderings.map fun r => r.2 ++ "\n"))
    | some dir =>
      if ← ws.makeDirectories dir then writeAll ws dir renderings
      else return .failed (.makingDirectory dir)

end Job

def Invocation.run {m : Type → Type} [Monad m] (ws : Workspace m) : Invocation → m Outcome
  | .version => return .done versionLine
  | .help => return .done ""
  | .misuse => return .misused
  | .job j => j.run ws

end DesignBrief
