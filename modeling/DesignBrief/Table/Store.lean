import DesignBrief.Table.Basic
import Std.Data.HashMap

/-!
A table that gives equal styles one id. Styles are found again by the hash of their canonical text;
a hit counts only if the text itself is the same. Any hash does: it decides how fast a style is
found, and nothing else.
-/

namespace DesignBrief

/-- A hash of texts. -/
abbrev TextHash := String → UInt64

/-- A hash that mixes in one character after the other. -/
def TextHash.mixing : TextHash := fun s =>
  s.foldl (fun h c => (h ^^^ c.toNat.toUInt64) * 0x100000001b3) 0xcbf29ce484222325

/-- A table with what it takes to find a style again. -/
structure StyleStore where
  table : StyleTable := {}
  /-- The canonical texts, in the order of the table. -/
  texts : Array String := #[]
  /-- The places in the table of the styles of a category whose texts have a certain hash. -/
  index : Std.HashMap (Category × UInt64) (List Nat) := ∅
  counters : Counters := {}

namespace StyleStore

/-- The place of the style of a category that has a text. -/
def find? (hash : TextHash) (store : StyleStore) (k : Category) (text : String) : Option Nat :=
  (store.index.getD (k, hash text) []).find? fun i => store.texts[i]? == some text

def insert (hash : TextHash) (store : StyleStore) (v : StyleValue) : StyleId × StyleStore :=
  let k := v.category
  let text := v.canonical
  let id := store.counters.nextId k
  let key := (k, hash text)
  (id,
    { table := store.table.push id v
      texts := store.texts.push text
      index := store.index.insert key (store.index.getD key [] ++ [store.table.size])
      counters := store.counters.bump k })

@[simp] theorem table_insert (hash : TextHash) (store : StyleStore) (v : StyleValue) :
    (store.insert hash v).2.table = store.table.push (store.counters.nextId v.category) v :=
  rfl

@[simp] theorem texts_insert (hash : TextHash) (store : StyleStore) (v : StyleValue) :
    (store.insert hash v).2.texts = store.texts.push v.canonical :=
  rfl

/-- The id of the style that has the same text, or a fresh one under which the style is put in. -/
def resolve (hash : TextHash) (v : StyleValue) (store : StyleStore) : StyleId × StyleStore :=
  match (store.find? hash v.category v.canonical).bind (store.table.entries[·]?) with
  | some e => (e.1, store)
  | none => store.insert hash v

end StyleStore
end DesignBrief
