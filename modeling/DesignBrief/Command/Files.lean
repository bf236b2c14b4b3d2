/-!
The files a command works on. A `Workspace` is what the command may do with files, in any monad; a
`FileTree` is a tree of files and directories held in memory, and one such workspace. Names and
paths have a greatest length.
-/

namespace DesignBrief

/-- Why a file has no content to give. -/
inductive Unreadable where
  | notOpened
  | notRead
deriving DecidableEq

/-- What came of making one directory. -/
inductive Making where
  | made
  /-- It was there before. -/
  | present
  /-- The directory to make it in is missing. -/
  | orphaned
  | refused
deriving DecidableEq

/-- What may be done with files. Writing a file tells whether it worked. -/
structure Workspace (m : Type → Type) where
  read : String → m (Except Unreadable String)
  makeDirectory : String → m Making
  write : String → String → m Bool

namespace Path

/-- The parts of a path between its slashes. -/
def parts (path : String) : List String := (path.toList.splitOn '/').map .ofList

/-- Whether a part of a path leads anywhere. -/
def leads (part : String) : Bool := part != "" && part != "."

/-- The last part of a path that leads anywhere, if it does not lead upwards. -/
def fileName? (path : String) : Option String :=
  match ((parts path).filter leads).getLast? with
  | some ".." => none
  | name => name

/-- A file name without what follows its last dot, unless the dot comes first. -/
def withoutSuffix (name : String) : String :=
  match name.toList.reverse.dropWhile (· != '.') with
  | _ :: c :: before => String.ofList (c :: before).reverse
  | _ => name

/-- The name that the output for an input is given. -/
def stem (path : String) : String :=
  match fileName? path with
  | some name => withoutSuffix name
  | none => "design"

def join (dir name : String) : String :=
  if dir.toList.getLast? = some '/' then dir ++ name else dir ++ "/" ++ name

/-- The beginnings of a list of parts that end in a part that leads somewhere, behind `before`. -/
def beginnings (before : List String) : List String → List (List String)
  | [] => []
  | part :: rest =>
    let here := part :: before
    if leads part then here.reverse :: beginnings here rest else beginnings here rest

/-- The paths of the directories that a path leads through, the nearest first. -/
def above (path : String) : List String :=
  ((beginnings [] (parts path)).dropLast.map fun ps => "/".intercalate ps).reverse

/-- The greatest number of bytes in a name. -/
def nameLimit : Nat := 255

/-- The greatest number of bytes in a path. -/
def pathLimit : Nat := 4095

end Path

namespace Workspace

variable {m : Type → Type} [Monad m]

/--
Tries to make directories, each inside the next, until one is there. Gives back those that could
not be made yet, the outermost first, unless one is refused.
-/
def climb (ws : Workspace m) (orphans : List String) : List String → m (Option (List String))
  | [] => return some orphans
  | path :: rest => do
    match ← ws.makeDirectory path with
    | .made | .present => return some orphans
    | .orphaned => ws.climb (path :: orphans) rest
    | .refused => return none

/-- Makes directories one after the other, until one cannot be made. -/
def makeEach (ws : Workspace m) : List String → m Bool
  | [] => return true
  | path :: rest => do
    match ← ws.makeDirectory path with
    | .made | .present => ws.makeEach rest
    | .orphaned | .refused => return false

/-- Makes a directory and those it is in, as far as they are missing. -/
def makeDirectories (ws : Workspace m) (path : String) : m Bool := do
  match ← ws.climb [] (path :: Path.above path) with
  | some orphans => ws.makeEach orphans
  | none => return false

end Workspace

inductive Entry where
  | file (content : String)
  | directory (entries : List (String × Entry))

namespace Entry

/-- What is in a directory; nothing is in a file. -/
def entries : Entry → List (String × Entry)
  | file _ => []
  | directory es => es

/-- The entries with one under a name, which takes the place of any that was there. -/
def set (name : String) (e : Entry) (es : List (String × Entry)) : List (String × Entry) :=
  (name, e) :: es.filter fun x => x.1 ≠ name

theorem lookup_set_self (name : String) (e : Entry) (es : List (String × Entry)) :
    (set name e es).lookup name = some e := by
  simp [set]

theorem lookup_set_of_ne {name other : String} (h : other ≠ name) (e : Entry)
    (es : List (String × Entry)) : (set name e es).lookup other = es.lookup other := by
  have hother : (other == name) = false := beq_false_of_ne h
  simp only [set, List.lookup_cons, hother]
  induction es with
  | nil => rfl
  | cons x es ih =>
    obtain ⟨key, value⟩ := x
    by_cases hx : key = name
    · subst hx
      simpa [List.lookup_cons, hother] using ih
    · rw [List.filter_cons_of_pos (by simpa using hx), List.lookup_cons, List.lookup_cons, ih]

/-- What is in the directory under a name; nothing if there is none. -/
def inside (name : String) (es : List (String × Entry)) : List (String × Entry) :=
  ((es.lookup name).map entries).getD []

/-- Puts an entry at the end of a row of names, with directories on the way to it. -/
def put (e : Entry) : List String → List (String × Entry) → List (String × Entry)
  | [], es => es
  | [name], es => set name e es
  | name :: names, es => set name (.directory (put e names (inside name es))) es

mutual

/-- The files in an entry that stands at a place, with the names that lead to them. -/
def files (place : List String) : Entry → List (List String × String)
  | file content => [(place.reverse, content)]
  | directory es => filesAmong place es
termination_by structural e => e

/-- The files among the entries of the directory at a place. -/
def filesAmong (place : List String) : List (String × Entry) → List (List String × String)
  | [] => []
  | (name, e) :: rest => files (name :: place) e ++ filesAmong place rest
termination_by structural es => es

end

end Entry

/--
The directories on the way to a place, the innermost first, each with its name and what is in it.
Above the outermost one there is only the root.
-/
abbrev Trail := List (String × List (String × Entry))

/-- A tree of files and the names that lead to the directory in which one is. -/
structure FileTree where
  root : List (String × Entry) := []
  home : List String := []

/-- Why a path leads nowhere. -/
inductive Obstacle where
  | missing
  | blocked
deriving DecidableEq

namespace FileTree

def entriesAt (t : FileTree) : Trail → List (String × Entry)
  | [] => t.root
  | (_, es) :: _ => es

/-- The names on a trail, the outermost first. -/
def names (trail : Trail) : List String := (trail.map (·.1)).reverse

def entry? (t : FileTree) (trail : Trail) (name : String) : Except Obstacle Entry :=
  if Path.nameLimit < name.utf8ByteSize then .error .blocked
  else
    match (t.entriesAt trail).lookup name with
    | some e => .ok e
    | none => .error .missing

/-- Follows the parts of a path through directories; the root is above itself. -/
def follow (t : FileTree) (trail : Trail) : List String → Except Obstacle Trail
  | [] => .ok trail
  | part :: rest =>
    if !Path.leads part then t.follow trail rest
    else if part = ".." then t.follow trail.tail rest
    else
      match t.entry? trail part with
      | .ok (.directory es) => t.follow ((part, es) :: trail) rest
      | .ok (.file _) => .error .blocked
      | .error obstacle => .error obstacle

/-- Where a path ends: in a directory, or at a name in one, perhaps with a slash behind it. -/
inductive Target where
  | directory (trail : Trail)
  | name (trail : Trail) (name : String) (slash : Bool)

/-- The end of a path that starts at a trail; `parts` are its parts from the last to the first. -/
def targetFrom (t : FileTree) (start : Trail) (parts : List String) : Except Obstacle Target :=
  match parts.dropWhile (· == "") with
  | [] => .ok (.directory start)
  | last :: before => do
    let trail ← t.follow start before.reverse
    if last = "." then return .directory trail
    else if last = ".." then return .directory trail.tail
    else return .name trail last (parts.head? == some "")

def target (t : FileTree) (path : String) : Except Obstacle Target :=
  if Path.pathLimit < path.utf8ByteSize then .error .blocked
  else
    match Path.parts path with
    | [""] => .error .missing
    | "" :: parts => t.targetFrom [] parts.reverse
    | parts => do t.targetFrom (← t.follow [] t.home) parts.reverse

def put (t : FileTree) (trail : Trail) (name : String) (e : Entry) : FileTree :=
  { t with root := Entry.put e (names trail ++ [name]) t.root }

def read (t : FileTree) (path : String) : Except Unreadable String :=
  match t.target path with
  | .error _ => .error .notOpened
  | .ok (.directory _) => .error .notRead
  | .ok (.name trail name slash) =>
    match t.entry? trail name, slash with
    | .ok (.directory _), _ => .error .notRead
    | .ok (.file content), false => .ok content
    | _, _ => .error .notOpened

def makeDirectory (t : FileTree) (path : String) : Making × FileTree :=
  match t.target path with
  | .error .missing => (.orphaned, t)
  | .error .blocked => (.refused, t)
  | .ok (.directory _) => (.present, t)
  | .ok (.name trail name _) =>
    match t.entry? trail name with
    | .ok (.directory _) => (.present, t)
    | .ok (.file _) => (.refused, t)
    | .error .missing => (.made, t.put trail name (.directory []))
    | .error .blocked => (.refused, t)

/-- Writes a file, unless something stands in the way. -/
def write (t : FileTree) (path content : String) : Bool × FileTree :=
  match t.target path with
  | .ok (.name trail name false) =>
    match t.entry? trail name with
    | .ok (.file _) | .error .missing => (true, t.put trail name (.file content))
    | .ok (.directory _) | .error .blocked => (false, t)
  | _ => (false, t)

/-- The files in and below the directory in which one is. -/
def files (t : FileTree) : List (List String × String) :=
  match t.follow [] t.home with
  | .ok trail => Entry.filesAmong [] (t.entriesAt trail)
  | .error _ => []

/-- A file tree as the files a command works on. -/
def workspace : Workspace (StateM FileTree) where
  read path := fun t => (t.read path, t)
  makeDirectory path := fun t => t.makeDirectory path
  write path content := fun t => t.write path content

end FileTree
end DesignBrief
