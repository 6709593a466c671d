import Bracketry.Token.Basic

/-
  Trees of brackets.

  The leaves are text, brackets and closing brackets that
  close nothing.  A pair holds its brackets and what lies
  between them.  A list holds a sequence as a tree of equal
  height, in which every list has two or three items.

  Pairs and lists keep their length and the ids that closing
  brackets inside them looked for in vain, so that a part of
  a tree can be judged without walking it.  Lists also keep
  their height.  Once they belong to a finished tree, all
  nodes but brackets have a key, which tells one node from
  all others and which a node takes along into later trees.

  Key definitions include:
    * `Node`
    * `Node.length`, `Node.height`, `Node.missing`
    * `Node.textOf`, `Node.invalidOf`
    * `Node.pairOf`, `Node.listOf`, `Node.list23`
    * `Node.isBalanced`, `Node.checkBalance`
    * `Node.key?`, `Node.giveKeys`, `Node.isSame`
-/

------------------------------------------------------------
-- Nodes
------------------------------------------------------------

namespace Bracketry

/- A node of a tree of brackets. -/
inductive Node where
  | text (key : Option Nat) (length : Length)
  | bracket (leaf : Bracket)
  | invalid
    (key : Option Nat)
    (ids : IdSet)
    (length : Length)
  | pair
    (key : Option Nat)
    (length : Length)
    (missing : IdSet)
    (opening : Node)
    (child : Option Node)
    (closing : Option Node)
  | list
    (key : Option Nat)
    (height : Nat)
    (length : Length)
    (missing : IdSet)
    (items : List Node)

namespace Node

instance : Inhabited Node where
  default := .text none 0

/- The length of the text of a node. -/
def length : Node → Length
  | .text _ length => length
  | .bracket leaf => leaf.length
  | .invalid _ _ length => length
  | .pair _ length _ _ _ _ => length
  | .list _ _ length _ _ => length

/- The height of a list; other nodes have none. -/
def height : Node → Nat
  | .list _ height _ _ _ => height
  | _ => 0

/- The ids that closing brackets inside did not find. -/
def missing : Node → IdSet
  | .text _ _ => IdSet.empty
  | .bracket _ => IdSet.empty
  | .invalid _ ids _ => ids
  | .pair _ _ missing _ _ _ => missing
  | .list _ _ _ missing _ => missing

/- The bracket of a bracket leaf. -/
def bracket? : Node → Option Bracket
  | .bracket leaf => some leaf
  | _ => none

/- The node is a list. -/
def isList : Node → Bool
  | .list _ _ _ _ _ => true
  | _ => false

/- The node is a list without items. -/
def isEmptyList : Node → Bool
  | .list _ _ _ _ items => items.isEmpty
  | _ => false

/- The parts of a node; an absent part keeps its place. -/
def slots : Node → List (Option Node)
  | .pair _ _ _ opening child closing =>
      [some opening, child, closing]
  | .list _ _ _ _ items => items.map some
  | _ => []

/- The parts of a node that are present, in order. -/
def children : Node → List Node
  | .pair _ _ _ opening child closing =>
      opening :: (child.toList ++ closing.toList)
  | .list _ _ _ _ items => items
  | _ => []

/- The list without items. -/
def emptyList : Node :=
  .list none 0 0 IdSet.empty []

end Node

end Bracketry

------------------------------------------------------------
-- Construction
------------------------------------------------------------

namespace Bracketry

namespace Node

/- The length of nodes one after the other. -/
def totalLength
    (items : List Node) :
    Checked Length :=
  Length.total (items.map length)

/- The ids that some of the nodes did not find. -/
def allMissing
    (items : List Node) :
    IdSet :=
  items.foldl (fun ids item => ids.union item.missing)
    IdSet.empty

/- The length of a part that may be absent is added. -/
def plusPart
    (length : Length)
    (part : Option Node) :
    Checked Length :=
  match part with
  | some node => length.plus node.length
  | none => .ok length

/- A text of some length. -/
def textOf
    (length : Length) :
    Node :=
  .text none length

/- A closing bracket that closes nothing. -/
def invalidOf
    (ids : IdSet)
    (length : Length) :
    Node :=
  .invalid none ids length

/- The pair of an opening bracket with what follows it. -/
def pairOf
    (opening : Node)
    (child closing : Option Node) :
    Checked Node := do
  let length ← plusPart opening.length child
  let length ← plusPart length closing
  let missing :=
    match child with
    | some node => node.missing
    | none => IdSet.empty
  return .pair none length missing opening child closing

/- The list of given items, at a given height. -/
def listOf
    (height : Nat)
    (items : List Node) :
    Checked Node := do
  let length ← totalLength items
  return .list none height length (allMissing items) items

/- All items have a height. -/
def allOfHeight
    (height : Nat)
    (items : List Node) :
    Bool :=
  items.all (·.height = height)

/- A list of two or three items of one height. -/
def list23
    (first second : Node)
    (third : Option Node) :
    Checked Node := do
  let items := second :: third.toList
  if !allOfHeight first.height items then
    .error .unevenHeights
  else
    let height ← checkedSum first.height 1
    listOf height (first :: items)

end Node

end Bracketry

------------------------------------------------------------
-- Balance
------------------------------------------------------------

namespace Bracketry

namespace Node

mutual

/-
  Every list has two or three items of the height below its
  own, inside pairs too; a list without items is flat.
-/
def isBalanced : Node → Bool
  | .list _ height _ _ items =>
      if items.isEmpty then height = 0
      else
        (items.length = 2 || items.length = 3) &&
          allBalanced height items
  | .pair _ _ _ _ child _ =>
      match child with
      | some node => node.isBalanced
      | none => true
  | _ => true

/- The items are balanced, and of the height below. -/
def allBalanced
    (height : Nat) :
    List Node → Bool
  | [] => true
  | item :: rest =>
      (item.height + 1 = height && item.isBalanced) &&
        allBalanced height rest

end

mutual

/-
  The balance of a tree, with heights that are counted in 32
  bits.  The check ends at the first list that is not
  balanced, and is refused at an item whose height has none
  above it.
-/
def checkBalance : Node → Checked Bool
  | .list _ height _ _ items =>
      if items.isEmpty then .ok (height = 0)
      else if items.length = 2 || items.length = 3 then
        checkAllBalance height items
      else .ok false
  | .pair _ _ _ _ child _ =>
      match child with
      | some node => node.checkBalance
      | none => .ok true
  | _ => .ok true

/- The balance of the items of a list of some height. -/
def checkAllBalance
    (height : Nat) :
    List Node → Checked Bool
  | [] => .ok true
  | item :: rest => do
      let above ← checkedSum item.height 1
      if above = height then
        let balanced ← item.checkBalance
        if balanced then checkAllBalance height rest
        else .ok false
      else .ok false

end

mutual

/- A check that is not refused tells the balance. -/
theorem isBalanced_of_checkBalance
    {balanced : Bool} :
    (node : Node) →
      node.checkBalance = .ok balanced →
        node.isBalanced = balanced
  | .text _ _, h => by
      simpa [checkBalance, isBalanced] using h
  | .bracket _, h => by
      simpa [checkBalance, isBalanced] using h
  | .invalid _ _ _, h => by
      simpa [checkBalance, isBalanced] using h
  | .pair _ _ _ _ none _, h => by
      simpa [checkBalance, isBalanced] using h
  | .pair _ _ _ _ (some node) _, h => by
      simp only [checkBalance] at h
      simpa [isBalanced] using
        isBalanced_of_checkBalance node h
  | .list _ height _ _ items, h => by
      unfold checkBalance at h
      unfold isBalanced
      split at h
      · rename_i hEmpty
        simpa [hEmpty] using h
      · rename_i hEmpty
        split at h
        · rename_i hLength
          simp only [hEmpty, hLength]
          simpa using
            allBalanced_of_checkAllBalance height items h
        · rename_i hLength
          simp only [Except.ok.injEq] at h
          simp [hEmpty, hLength, ← h]

/- A check of items that is not refused tells their balance. -/
theorem allBalanced_of_checkAllBalance
    {balanced : Bool}
    (height : Nat) :
    (items : List Node) →
      checkAllBalance height items = .ok balanced →
        allBalanced height items = balanced
  | [], h => by
      simpa [checkAllBalance, allBalanced] using h
  | item :: rest, h => by
      unfold checkAllBalance at h
      unfold allBalanced
      cases hAbove : checkedSum item.height 1 with
      | error fault => simp [hAbove, bind, Except.bind] at h
      | ok above =>
          have hSum := (checkedSum_eq_ok_iff.1 hAbove).2
          simp only [hAbove, bind, Except.bind] at h
          by_cases hHeight : above = height
          · cases hItem : item.checkBalance with
            | error fault => simp [hHeight, hItem] at h
            | ok inner =>
                have hInner :=
                  isBalanced_of_checkBalance item hItem
                cases inner with
                | false => simp_all
                | true =>
                    simp only [hHeight, hItem] at h
                    have hRest :=
                      allBalanced_of_checkAllBalance
                        height rest (by simpa using h)
                    simp_all
          · simp_all

end

mutual

/- The number of nodes of a tree. -/
def size : Node → Nat
  | .pair _ _ _ opening child closing =>
      1 + opening.size +
        (match child with
          | some node => node.size
          | none => 0) +
        (match closing with
          | some node => node.size
          | none => 0)
  | .list _ _ _ _ items => 1 + sizeAll items
  | _ => 1

/- The number of nodes of several trees. -/
def sizeAll : List Node → Nat
  | [] => 0
  | item :: rest => item.size + sizeAll rest

end

mutual

/- The leaves and pairs of a list, from left to right. -/
def items : Node → List Node
  | .list _ _ _ _ nodes => itemsOfAll nodes
  | node => [node]

/- The leaves and pairs of several lists. -/
def itemsOfAll : List Node → List Node
  | [] => []
  | node :: rest => node.items ++ itemsOfAll rest

end

end Node

end Bracketry

------------------------------------------------------------
-- Keys
------------------------------------------------------------

namespace Bracketry

namespace Node

/- The key of a node that belongs to a finished tree. -/
def key? : Node → Option Nat
  | .text key _ => key
  | .bracket _ => none
  | .invalid key _ _ => key
  | .pair key _ _ _ _ _ => key
  | .list key _ _ _ _ => key

/- Two nodes of finished trees are one and the same. -/
def isSame
    (a b : Node) :
    Bool :=
  a.key?.isSome && a.key? = b.key?

mutual

/-
  Give each node without a key one of its own, counting on
  from `next`.  A node that has a key keeps all that is
  below it.
-/
def giveKeys
    (next : Nat) :
    Node → Node × Nat
  | .text none length => (.text (some next) length, next + 1)
  | .invalid none ids length =>
      (.invalid (some next) ids length, next + 1)
  | .pair none length missing opening child closing =>
      match child with
      | some node =>
          let (node, after) := giveKeys (next + 1) node
          (.pair (some next) length missing opening
            (some node) closing, after)
      | none =>
          (.pair (some next) length missing opening none
            closing, next + 1)
  | .list none height length missing items =>
      let (items, after) := giveAllKeys (next + 1) items
      (.list (some next) height length missing items, after)
  | node => (node, next)

/- Give keys to the nodes of several trees. -/
def giveAllKeys
    (next : Nat) :
    List Node → List Node × Nat
  | [] => ([], next)
  | node :: rest =>
      let (node, after) := giveKeys next node
      let (rest, after) := giveAllKeys after rest
      (node :: rest, after)

end

end Node

end Bracketry
