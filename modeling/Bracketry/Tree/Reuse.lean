import Bracketry.Tree.Basic

/-
  Parts of an old tree for a new one.

  A node can be used again while some brackets are open, if
  no closing bracket inside it could now close one of them,
  and if it does not end in a pair that what follows might
  close.  A `NodeReader` walks an old tree from left to
  right and hands out the largest node that starts at a
  place and passes a test.

  Key definitions include:
    * `Node.lastItem`
    * `Node.canBeReused`
    * `NodeReader`
    * `NodeReader.readLongestAt`
-/

------------------------------------------------------------
-- The Reuse Test
------------------------------------------------------------

namespace Bracketry

namespace Node

mutual

/- The last node of a list that is not a list itself. -/
def lastItem : Node → Checked Node
  | .list _ _ _ _ items => lastOfAll items
  | node => .ok node

/- The last leaf or pair of several nodes. -/
def lastOfAll : List Node → Checked Node
  | [] => .error .nestedEmptyList
  | [last] => last.lastItem
  | _ :: second :: rest => lastOfAll (second :: rest)

end

/- A leaf or pair can be used again. -/
def itemCanBeReused
    (opened : IdSet) :
    Node → Bool
  | .text _ _ => true
  | .bracket _ => false
  | .invalid _ ids _ => !opened.intersects ids
  | .pair _ _ missing _ _ closing =>
      closing.isSome && !opened.intersects missing
  | .list _ _ _ _ _ => false

/- A node can be used again while some ids are open. -/
def canBeReused
    (opened : IdSet) :
    Node → Checked Bool
  | .list key height length missing items =>
      if opened.intersects missing || items.isEmpty then
        .ok false
      else do
        let last ←
          lastItem (.list key height length missing items)
        return itemCanBeReused opened last
  | node => .ok (itemCanBeReused opened node)

end Node

end Bracketry

------------------------------------------------------------
-- Node Readers
------------------------------------------------------------

namespace Bracketry

/-
  The nodes behind the current one under one parent, and
  the place and length of that parent.
-/
structure Siblings where
  nodes : List Node
  parentStart : Position
  parentLength : Length
deriving Inhabited

/-
  A walk through a tree: the current node with its place,
  and what comes behind it, innermost parent first.
  `steps` bounds the number of steps to the end.
-/
structure NodeReader where
  current : Option (Node × Position)
  behind : List Siblings
  lastOffset : Position
  steps : Nat
deriving Inhabited

namespace NodeReader

/- A walk that stands at the root. -/
def ofRoot
    (root : Node) :
    NodeReader :=
  { current := some (root, 0)
    behind := []
    lastOffset := 0
    steps := root.size + 1 }

/-
  The node behind a stretch, up the parents that end there,
  and what comes behind it.
-/
def nextBehind
    (start : Position)
    (length : Length) :
    List Siblings →
      Checked (Option (Node × Position) × List Siblings)
  | [] => .ok (none, [])
  | siblings :: upper =>
      match siblings.nodes with
      | node :: rest => do
          let stop ← start.plus length
          return (some (node, stop),
            { siblings with nodes := rest } :: upper)
      | [] =>
          nextBehind siblings.parentStart
            siblings.parentLength upper

/- Leave the current node behind. -/
def leave
    (reader : NodeReader)
    (node : Node)
    (start : Position) :
    Checked NodeReader := do
  let (current, behind) ←
    nextBehind start node.length reader.behind
  return { reader with current := current, behind := behind }

/- Enter the first child of the current node, if any. -/
def enter?
    (reader : NodeReader)
    (node : Node)
    (start : Position) :
    Option NodeReader :=
  match node.children with
  | [] => none
  | child :: rest =>
      some { reader with
        current := some (child, start)
        behind := ⟨rest, start, node.length⟩ :: reader.behind }

/- Walk on to a node at an offset that passes the test. -/
def walk
    (offset : Position)
    (test : Node → Checked Bool) :
    Nat → NodeReader → Checked (Option Node × NodeReader)
  | 0, reader => .ok (none, reader)
  | steps + 1, reader =>
      match reader.current with
      | none => .ok (none, reader)
      | some (node, start) =>
          if offset < start then .ok (none, reader)
          else if start < offset then do
            let stop ← start.plus node.length
            if stop ≤ offset then
              let reader ← reader.leave node start
              walk offset test steps reader
            else
              match reader.enter? node start with
              | some reader => walk offset test steps reader
              | none =>
                  let reader ← reader.leave node start
                  walk offset test steps reader
          else do
            let passes ← test node
            if passes then
              let reader ← reader.leave node start
              return (some node, reader)
            else
              match reader.enter? node start with
              | some reader => walk offset test steps reader
              | none =>
                  let reader ← reader.leave node start
                  return (none, reader)

/-
  The largest node that starts at an offset and passes a
  test.  Offsets must not decrease from one call to the
  next.
-/
def readLongestAt
    (reader : NodeReader)
    (offset : Position)
    (test : Node → Checked Bool) :
    Checked (Option Node × NodeReader) :=
  if offset < reader.lastOffset then .error .backwardRead
  else
    walk offset test reader.steps
      { reader with lastOffset := offset }

end NodeReader

end Bracketry
