import DesignBrief.Brief.Node
import DesignBrief.Failure
import DesignBrief.Json.Generic
import DesignBrief.Scene.Reader
import DesignBrief.Table.Store

/-!
From a design tree to its brief. The tree is walked depth first; each node hands its styles to one
store, which gives back their ids. Nodes that are not shown are left out with all that is below
them, and so are nodes of which nothing remains.
-/

namespace DesignBrief

/-- How deep to go below the roots; `none` for all the way. -/
abbrev DepthLimit := Option Nat

namespace DepthLimit

/-- What is left of the limit one generation down, if one may go down. -/
def below : DepthLimit → Option DepthLimit
  | none => some none
  | some 0 => none
  | some (n + 1) => some (some n)

end DepthLimit

/-- Keeps a node unless there is nothing in it. -/
def BriefNode.keep {ρ : Type} (n : BriefNode ρ) : Option (BriefNode ρ) :=
  if n.isBlank then none else some n

mutual

def Node.brief (hash : TextHash) (limit : DepthLimit) (parent : Option Attributes) :
    Node → StateM StyleStore (Option (BriefNode StyleId))
  | ⟨a, children⟩ => do
    let facets ← (Facets.ofNode ⟨a, children⟩ parent).mapM (StyleStore.resolve hash)
    match children, limit.below with
    | some children, some limit =>
      let children ← Node.briefs hash limit (some a) children
      return BriefNode.keep ⟨facets, children⟩
    | _, _ => return BriefNode.keep ⟨facets, []⟩
termination_by structural n => n

/-- The briefs of the nodes that are shown. -/
def Node.briefs (hash : TextHash) (limit : DepthLimit) (parent : Option Attributes) :
    List Node → StateM StyleStore (List (BriefNode StyleId))
  | [] => return []
  | n :: rest => do
    if n.attributes.isVisible then
      let first ← n.brief hash limit parent
      let others ← Node.briefs hash limit parent rest
      return first.toList ++ others
    else
      Node.briefs hash limit parent rest
termination_by structural ns => ns

end

theorem Node.briefs_append (hash : TextHash) (limit : DepthLimit) (parent : Option Attributes)
    (ns ms : List Node) :
    Node.briefs hash limit parent (ns ++ ms) = do
      let first ← Node.briefs hash limit parent ns
      let others ← Node.briefs hash limit parent ms
      return first ++ others := by
  induction ns with
  | nil => simp [Node.briefs]
  | cons n ns ih =>
    simp only [List.cons_append, Node.briefs, ih]
    split
    · simp only [bind_assoc, pure_bind, List.append_assoc]
    · rfl

/-- The briefs of a list of roots and the table of their styles, which are found by a hash. -/
def briefTreeBy (hash : TextHash) (limit : DepthLimit) (roots : List Node) :
    List (BriefNode StyleId) × StyleTable :=
  let (nodes, store) := (Node.briefs hash limit none roots).run {}
  (nodes, store.table)

/-- The briefs of a list of roots and the table of their styles. -/
def briefTree (limit : DepthLimit) (roots : List Node) : List (BriefNode StyleId) × StyleTable :=
  briefTreeBy TextHash.mixing limit roots

structure Brief where
  name : String
  lastModified : String
  thumbnailUrl : String
  nodes : List (BriefNode StyleId)
  styles : StyleTable

def Brief.toJson (b : Brief) : Json :=
  .object [("name", .string b.name), ("lastModified", .string b.lastModified),
    ("thumbnailUrl", .string b.thumbnailUrl),
    ("nodes", .array (BriefNode.listToJson StyleId.toJson b.nodes)),
    ("globalVars", b.styles.toJson)]

namespace Response

/-- The roots to be walked: the children of the document, or else the nodes that were found. -/
def roots (r : Response) : Except Failure (List Node) :=
  match r.document, r.nodes with
  | some document, _ => .ok (document.children.getD [])
  | none, some nodes => .ok (nodes.filterMap fun m => m.2.map (·.document))
  | none, none =>
    .error (.structural "response has neither a document root nor a nodes map")

def brief (r : Response) (limit : DepthLimit) : Except Failure Brief := do
  let (nodes, styles) := briefTree limit (← r.roots)
  return {
    name := r.name
    lastModified := r.lastModified
    thumbnailUrl := r.thumbnailUrl.getD ""
    nodes, styles }

def ofText (s : String) : Except Failure Response :=
  (record.reader.ofText s).mapError fun fault =>
    .serialization ("parse design response JSON: " ++ fault.message)

def ofJson (j : Json) : Except Failure Response :=
  (record.reader.fromValue j).mapError fun fault =>
    .serialization ("decode design response: " ++ fault.message)

end Response

def Brief.ofText (limit : DepthLimit) (s : String) : Except Failure Brief := do
  (← Response.ofText s).brief limit

end DesignBrief
