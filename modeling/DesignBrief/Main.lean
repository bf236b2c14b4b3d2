import DesignBrief.Command.Run

/-!
The command, working on the files of the system.
-/

namespace DesignBrief

/-- Runs an action and tells whether it raised no error. -/
def succeeds (action : IO Unit) : IO Bool := do
  try
    action
    return true
  catch _ => return false

def readFile (path : String) : IO (Except Unreadable String) := do
  let opened ←
    try
      pure (some (← IO.FS.Handle.mk path .read))
    catch _ => pure none
  match opened with
  | none => return .error .notOpened
  | some handle =>
    try
      return .ok (← handle.readToEnd)
    catch _ => return .error .notRead

/-- Makes one directory of the system; one that is there already can be made with those above. -/
def makeSystemDirectory (path : String) : IO Making := do
  try
    IO.FS.createDir path
    return .made
  catch
    | .noFileOrDirectory .. => return .orphaned
    | .alreadyExists .. =>
      return if ← succeeds (IO.FS.createDirAll path) then .present else .refused
    | _ => return .refused

def systemFiles : Workspace IO where
  read := readFile
  makeDirectory := makeSystemDirectory
  write path content := succeeds (IO.FS.writeFile path content)

end DesignBrief

open DesignBrief in
def main (args : List String) : IO UInt32 := do
  let outcome ← (Invocation.ofArguments args).run systemFiles
  IO.print outcome.stdout
  match outcome.complaint? with
  | some line => IO.eprintln line
  | none => pure ()
  return outcome.code
