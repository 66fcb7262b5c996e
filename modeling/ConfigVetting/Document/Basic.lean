import ConfigVetting.Document.Lookup

/-! # Documents

A document is a forest whose nodes each hold a slot of their own. Slots are handed out in order and
are not reused: those of removed nodes count as garbage until the document is compacted, which hands
out all slots anew. Two documents are the same when their trees are equal.
-/

namespace ConfigVetting

/-- How many slots are handed out, and how many of them are known to hold nothing any more. -/
structure Slots where
  used : Nat := 0
  garbage : Nat := 0
  deriving DecidableEq, Repr

/-- A computation that hands out and gives up slots. -/
abbrev SlotM := StateM Slots

namespace Slots

/-- The next slot. -/
def fresh : SlotM Nat :=
  modifyGet fun slots => (slots.used, { slots with used := slots.used + 1 })

/-- Gives up a number of slots. -/
def giveUp (count : Nat) : SlotM Unit :=
  modify fun slots => { slots with garbage := slots.garbage + count }

end Slots

/-- A node with fresh slots, the node before its children. -/
def Node.settle {σ : Type} : Node σ → SlotM (Node Nat) :=
  fold fun _ label children => do
    let slot ← Slots.fresh
    return mk slot label (← children.mapM id)

/-- A forest with fresh slots. -/
def Forest.settle {σ : Type} (forest : Forest σ) : SlotM (Forest Nat) :=
  forest.mapM Node.settle

/-- Nodes with slots, and what became of all slots. -/
structure Document where
  roots : Forest Nat := []
  slots : Slots := {}

namespace Document

instance : Inhabited Document := ⟨{}⟩

/-- The document without any nodes. -/
def empty : Document := {}

/-- A document made by a computation on slots. -/
def run (roots : SlotM (Forest Nat)) (slots : Slots) : Document :=
  let (roots, slots) := StateT.run (m := Id) roots slots
  { roots, slots }

/-- A new document with the nodes of a forest. -/
def ofForest {σ : Type} (forest : Forest σ) : Document :=
  run forest.settle {}

/-- What the nodes of a document say. -/
def trees (document : Document) : Forest Unit :=
  document.roots.bare

/-- Whether two documents say the same. -/
def same (first second : Document) : Bool :=
  first.trees = second.trees

/-- Whether a document has no nodes. -/
def isEmpty (document : Document) : Bool :=
  document.roots.isEmpty

/-- How many nodes a document has. -/
def nodeCount (document : Document) : Nat :=
  document.roots.count

/-- How many slots a document has handed out since it was last compacted. -/
def slotCount (document : Document) : Nat :=
  document.slots.used

/-- The document with one more node at the end of the siblings below a path. -/
def add (document : Document) (path : List Nat) (label : Label) : Document :=
  let slots := document.slots
  { roots := document.roots.modifyBelow (fun siblings => siblings ++ [.mk slots.used label []]) path
    slots := { slots with used := slots.used + 1 } }

/-- The document with a node of a name and kind below a path, added if there is none, its position
and whether it was added. -/
def ensure (document : Document) (path : List Nat) (name : String) (kind : NodeKind) :
    Option (Document × Nat × Bool) :=
  (document.roots.below? path).map fun siblings =>
    match siblings.findIdx? fun node => node.name = name && node.kind = kind with
    | some position => (document, position, false)
    | none => (document.add path (.plain name kind), siblings.length, true)

/-- The document without a node at a position below a path. -/
def detach (document : Document) (path : List Nat) (position : Nat) : Option Document := do
  let siblings ← document.roots.below? path
  let node ← siblings[position]?
  some {
    roots := document.roots.modifyBelow (fun siblings => siblings.eraseIdx position) path
    slots := { document.slots with garbage := document.slots.garbage + node.count } }

/-- The document without the first list instance of a table with a key, if there is one. -/
def removeInstance? (document : Document) (table key : String) : Option Document :=
  (document.roots.findInstance? table key).map fun node => {
    roots := document.roots.withoutInstance table key
    slots := { document.slots with garbage := document.slots.garbage + node.count } }

/-- The document without the first list instance of a table with a key. -/
def removeInstance (document : Document) (table key : String) : Document :=
  (document.removeInstance? table key).getD document

/-- The document with all slots handed out anew. -/
def compact (document : Document) : Document :=
  ofForest document.roots

/-- Whether more than half of the slots are garbage. -/
def isSparse (document : Document) : Bool :=
  0 < document.slots.garbage && document.slots.used < 2 * document.slots.garbage

/-- The document, compacted if more than half of its slots are garbage. -/
def compactIfSparse (document : Document) : Document :=
  if document.isSparse then document.compact else document

end Document

end ConfigVetting
