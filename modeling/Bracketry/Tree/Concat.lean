import Bracketry.Tree.Basic

/-
  Concatenation of trees.

  Two trees are joined by hanging the lower one into the
  side of the higher one, at its own height.  A list that
  would get a fourth item hands two of them to its parent.
  All else is shared.

  Key definitions include:
    * `Node.growRight`, `Node.growLeft`
    * `Node.append`, `Node.prepend`
    * `Node.concat`
    * `Node.concatEven`, `Node.concatAll`
-/

------------------------------------------------------------
-- Growing at One Side
------------------------------------------------------------

namespace Bracketry

namespace Node

/-
  A list with one more item at the right.  Beyond three
  items, the last two go to the parent as a list.
-/
def placeRight
    (height : Nat)
    (items : List Node)
    (item : Node) :
    Checked (Node × Option Node) := do
  match items.getLast? with
  | some last =>
      if 3 ≤ items.length then
        let extra ← list23 last item none
        let node ← listOf height items.dropLast
        return (node, some extra)
      else
        let node ← listOf height (items ++ [item])
        return (node, none)
  | none =>
      let node ← listOf height [item]
      return (node, none)

/-
  A list with one more item at the left.  Beyond three
  items, the first two go to the parent as a list.
-/
def placeLeft
    (height : Nat)
    (items : List Node)
    (item : Node) :
    Checked (Node × Option Node) := do
  match items with
  | first :: rest =>
      if 3 ≤ items.length then
        let extra ← list23 item first none
        let node ← listOf height rest
        return (node, some extra)
      else
        let node ← listOf height (item :: items)
        return (node, none)
  | [] =>
      let node ← listOf height [item]
      return (node, none)

/- What a grown list takes in of what was left over. -/
def settle
    (place :
      Nat → List Node → Node → Checked (Node × Option Node))
    (height : Nat)
    (items : List Node)
    (extra : Option Node) :
    Checked (Node × Option Node) :=
  match extra with
  | some item => place height items item
  | none => do
      let node ← listOf height items
      return (node, none)

mutual

/-
  Hang a node into the right side of a list, at its own
  height.  The second part of the result is for the parent.
-/
def growRight
    (item : Node) :
    Node → Checked (Node × Option Node)
  | .list _ height _ _ items => do
      let above ← checkedSum item.height 1
      if above = height then placeRight height items item
      else
        let (items, extra) ← growLast item items
        settle placeRight height items extra
  | _ => .error .notAList

/- Hang a node into the last of several nodes. -/
def growLast
    (item : Node) :
    List Node → Checked (List Node × Option Node)
  | [] => .error .noItems
  | [last] => do
      let (last, extra) ← growRight item last
      return ([last], extra)
  | first :: second :: rest => do
      let (others, extra) ← growLast item (second :: rest)
      return (first :: others, extra)

end

mutual

/-
  Hang a node into the left side of a list, at its own
  height.  The second part of the result is for the parent.
-/
def growLeft
    (item : Node) :
    Node → Checked (Node × Option Node)
  | .list _ height _ _ items => do
      let above ← checkedSum item.height 1
      if above = height then placeLeft height items item
      else
        let (items, extra) ← growFirst item items
        settle placeLeft height items extra
  | _ => .error .notAList

/- Hang a node into the first of several nodes. -/
def growFirst
    (item : Node) :
    List Node → Checked (List Node × Option Node)
  | [] => .error .noItems
  | first :: rest => do
      let (first, extra) ← growLeft item first
      return (first :: rest, extra)

end

end Node

end Bracketry

------------------------------------------------------------
-- Two Trees
------------------------------------------------------------

namespace Bracketry

namespace Node

/- A list with a node behind it that is not higher. -/
def append
    (list item : Node) :
    Checked Node := do
  let (node, extra) ← growRight item list
  match extra with
  | some other => list23 node other none
  | none => return node

/- A list with a node before it that is not higher. -/
def prepend
    (list item : Node) :
    Checked Node := do
  let (node, extra) ← growLeft item list
  match extra with
  | some other => list23 other node none
  | none => return node

/- One tree for two, the first on the left. -/
def concat
    (left right : Node) :
    Checked Node :=
  if left.height = right.height then list23 left right none
  else if right.height < left.height then left.append right
  else right.prepend left

/- How far two trees are apart in height. -/
def heightDistance
    (a b : Node) :
    Nat :=
  (a.height - b.height) + (b.height - a.height)

end Node

end Bracketry

------------------------------------------------------------
-- Many Trees of One Height
------------------------------------------------------------

namespace Bracketry

namespace Node

/-
  Put neighbours under a parent, two by two; of an odd
  number the last three go together.
-/
def pairUp : List Node → Checked (List Node)
  | [a, b, c] => do
      let parent ← list23 a b (some c)
      return [parent]
  | a :: b :: rest => do
      let parent ← list23 a b none
      let parents ← pairUp rest
      return parent :: parents
  | items => .ok items

/- The tree of at most three nodes. -/
def crown : List Node → Checked (Option Node)
  | [] => .ok none
  | [a] => .ok (some a)
  | a :: b :: rest => do
      let root ← list23 a b rest.head?
      return some root

/- Build parents, level by level, up to one root. -/
def raise : Nat → List Node → Checked (Option Node)
  | 0, items => crown items
  | levels + 1, items =>
      if items.length ≤ 3 then crown items
      else do
        let parents ← pairUp items
        raise levels parents

/- The tree of nodes of one height; none of no nodes. -/
def concatEven
    (items : List Node) :
    Checked (Option Node) :=
  raise items.length items

end Node

end Bracketry

------------------------------------------------------------
-- Many Trees
------------------------------------------------------------

namespace Bracketry

namespace Node

/- Enter a node before the runs of nodes of one height. -/
def joinRun
    (item : Node) :
    List (List Node) → List (List Node)
  | (first :: run) :: runs =>
      if item.height = first.height then
        (item :: first :: run) :: runs
      else [item] :: (first :: run) :: runs
  | runs => [item] :: runs

/- The longest runs of nodes of one height, in order. -/
def runs : List Node → List (List Node)
  | [] => []
  | item :: rest => joinRun item (runs rest)

/- The tree of a run that is not empty. -/
def concatRun
    (run : List Node) :
    Checked Node := do
  let root ← concatEven run
  return root.getD emptyList

/-
  Join the trees of runs to two trees on their left.  Of
  three trees, the two of closer height are joined first.
-/
def joinRuns
    (first second : Node) :
    List (List Node) → Checked Node
  | [] => first.concat second
  | run :: rest => do
      let third ← concatRun run
      if heightDistance first second ≤
          heightDistance second third then
        let joined ← first.concat second
        joinRuns joined third rest
      else
        let joined ← second.concat third
        joinRuns first joined rest

/- The tree of nodes of any height; none of no nodes. -/
def concatAll
    (items : List Node) :
    Checked (Option Node) :=
  match runs items with
  | [] => .ok none
  | [run] => concatEven run
  | first :: second :: rest => do
      let left ← concatRun first
      let right ← concatRun second
      let root ← joinRuns left right rest
      return some root

end Node

end Bracketry
