import DesignBrief.Brief.Walk

/-!
The arguments of the command. `simplify` takes input paths and options; options and paths may be
mixed until `--` declares all that follows to be paths.
-/

namespace DesignBrief

structure Job where
  inputs : List String
  outDir : Option String
  limit : DepthLimit
  isCompact : Bool
deriving DecidableEq

/-- What a list of arguments asks for. -/
inductive Invocation where
  | version
  | help
  | misuse
  | job (job : Job)
deriving DecidableEq

namespace Invocation

/-- What stands behind a first part of a text. -/
def behind? (first s : String) : Option String :=
  if first.toList.isPrefixOf s.toList then some (String.ofList (s.toList.drop first.length))
  else none

/-- A number of 64 bits in decimal digits. -/
def digits? (ds : List Char) : Option Nat :=
  if ds.isEmpty || !ds.all Char.isDigit then none
  else
    let n := ds.foldl (fun n c => 10 * n + (c.toNat - '0'.toNat)) 0
    if n < 0x10000000000000000 then some n else none

/-- A number of 64 bits in decimal digits, perhaps behind a plus sign. -/
def natural? (s : String) : Option Nat :=
  match s.toList with
  | '+' :: ds => digits? ds
  | ds => digits? ds

/-- The first letter of a bundle of short options that is not a `v`, if the argument is a bundle. -/
inductive Bundle where
  | none
  | verbose
  | letter (c : Char)

def bundle (arg : String) : Bundle :=
  match arg.toList with
  | '-' :: c :: cs =>
    if c = '-' then .none
    else
      match (c :: cs).dropWhile (· == 'v') with
      | [] => .verbose
      | c :: _ => .letter c
  | _ => .none

/-- Whether an argument cannot be the value of the option before it. -/
def isOption (arg : String) : Bool :=
  match arg.toList with
  | '-' :: _ :: _ => true
  | _ => false

structure Draft where
  inputs : List String := []
  outDir : Option String := none
  maxDepth : Option Nat := none
  compact : Bool := false

def Draft.input? (d : Draft) (path : String) : Option Draft :=
  if path.isEmpty then none else some { d with inputs := d.inputs ++ [path] }

def Draft.outDir? (d : Draft) (path : String) : Option Draft :=
  if path.isEmpty || d.outDir.isSome then none else some { d with outDir := some path }

def Draft.maxDepth? (d : Draft) (s : String) : Option Draft :=
  if d.maxDepth.isSome then none
  else (natural? s).map fun n => { d with maxDepth := some n }

def Draft.compact? (d : Draft) : Option Draft :=
  if d.compact then none else some { d with compact := true }

/-- The job that has been described, which needs at least one path. -/
def Draft.finish (d : Draft) : Invocation :=
  if d.inputs.isEmpty then .misuse
  else
    .job { inputs := d.inputs, outDir := d.outDir, limit := d.maxDepth, isCompact := d.compact }

def ofPaths (d : Draft) : List String → Invocation
  | [] => d.finish
  | path :: rest =>
    match d.input? path with
    | some d => ofPaths d rest
    | none => .misuse

/-- The arguments behind `simplify`. -/
def ofJob (d : Draft) : List String → Invocation
  | [] => d.finish
  | "--" :: rest => ofPaths d rest
  | "--verbose" :: rest => ofJob d rest
  | "--help" :: _ => .help
  | "--compact" :: rest =>
    match d.compact? with
    | some d => ofJob d rest
    | none => .misuse
  | ["--out-dir"] => .misuse
  | "--out-dir" :: value :: rest =>
    if isOption value then .misuse
    else
      match d.outDir? value with
      | some d => ofJob d rest
      | none => .misuse
  | ["--max-depth"] => .misuse
  | "--max-depth" :: value :: rest =>
    if isOption value then .misuse
    else
      match d.maxDepth? value with
      | some d => ofJob d rest
      | none => .misuse
  | arg :: rest =>
    match behind? "--out-dir=" arg, behind? "--max-depth=" arg with
    | some value, _ =>
      match d.outDir? value with
      | some d => ofJob d rest
      | none => .misuse
    | none, some value =>
      match d.maxDepth? value with
      | some d => ofJob d rest
      | none => .misuse
    | none, none =>
      match bundle arg with
      | .verbose => ofJob d rest
      | .letter 'h' => .help
      | .letter _ => .misuse
      | .none =>
        if isOption arg then .misuse
        else
          match d.input? arg with
          | some d => ofJob d rest
          | none => .misuse

def ofArguments : List String → Invocation
  | [] => .misuse
  | "simplify" :: rest => ofJob {} rest
  | ["help"] => .help
  | ["help", topic] => if topic = "simplify" || topic = "help" then .help else .misuse
  | "--help" :: _ => .help
  | "--version" :: _ => .version
  | "--verbose" :: rest => ofArguments rest
  | arg :: rest =>
    match bundle arg with
    | .verbose => ofArguments rest
    | .letter 'V' => .version
    | .letter 'h' => .help
    | .letter _ => .misuse
    | .none => .misuse

end Invocation
end DesignBrief
