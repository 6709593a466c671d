import Bracketry.Query.Basic

/-
  The pairs in a window.

  Outer pairs come before inner ones.  Every pair comes with
  the number of pairs around it, the number of those with
  the same opening literal and, on request, the least
  indentation inside it.

  Key definitions include:
    * `PairInfo`
    * `Node.visitPairs`
    * `Node.pairsIn`
    * `Node.matchAt?`
    * `Node.enclosing?`
-/

------------------------------------------------------------
-- Records
------------------------------------------------------------

namespace Bracketry

/- A pair of a tree.  An unclosed pair has no closing. -/
structure PairInfo where
  range : Range
  openingRange : Range
  closingRange : Option Range
  level : Nat
  equalLevel : Nat
  minIndentation : Option Nat
  opening : BracketKind
  closing : Option BracketKind
deriving DecidableEq, Repr, Inhabited

end Bracketry

------------------------------------------------------------
-- Walk
------------------------------------------------------------

namespace Bracketry

/-
  What a walk for pairs is asked for.  Indentations are
  computed where content is given.
-/
structure PairQuery where
  window : Range
  content : Option Content
deriving DecidableEq, Repr, Inhabited

/-
  What a walk for pairs carries along: the state of its
  visitor, and what is remembered of indentations.
-/
structure PairWalk (σ : Type) where
  state : σ
  cache : IndentationCache
deriving Inhabited

namespace Node

variable {σ : Type}

/- The least indentation inside a pair, if it is asked. -/
def insideIndentation
    (content : Option Content)
    (start : Position)
    (cache : IndentationCache)
    (pair : Node) :
    Checked (Option Nat × IndentationCache) :=
  match content with
  | none => .ok (none, cache)
  | some content => do
      let (value, cache) ←
        pair.minIndentation content start cache
      return (
        if value = noIndentation then none else some value,
        cache)

/- Hand a record to the visitor. -/
def visitPair
    (visit : Visitor PairInfo σ)
    (walk : PairWalk σ)
    (info : PairInfo) :
    Flow (PairWalk σ) :=
  let flow := visit walk.state info
  ⟨⟨flow.state, walk.cache⟩, flow.goesOn⟩

mutual

/-
  Visit the pairs of a node from one place to another, with
  the given opening literals around it.
-/
def walkPairs
    (query : PairQuery)
    (visit : Visitor PairInfo σ)
    (start stop : Position)
    (around : List (List Char))
    (walk : PairWalk σ) :
    Node → Checked (Flow (PairWalk σ))
  | .pair key length missing opening child closing =>
      if maxQueryDepth < around.length then
        .ok (Flow.go walk)
      else do
        let node :=
          Node.pair key length missing opening child
            closing
        let opener ← openingOf opening
        let literal := opener.kind.literal
        let middle ← start.plus opener.length
        let (indentation, cache) ←
          insideIndentation query.content start walk.cache
            node
        let childLength :=
          match child with
          | some part => part.length
          | none => 0
        let closingRange ←
          match closing with
          | none => pure none
          | some _ => do
              let from_ ← middle.plus childLength
              pure (some ⟨from_, stop⟩)
        let flow :=
          visitPair visit ⟨walk.state, cache⟩
            { range := ⟨start, stop⟩
              openingRange := ⟨start, middle⟩
              closingRange := closingRange
              level := around.length
              equalLevel := around.count literal
              minIndentation := indentation
              opening := opener.kind
              closing :=
                (closingOf? closing).map Bracket.kind }
        flow.andThen fun walk =>
          match child with
          | none => .ok (Flow.go walk)
          | some part => do
              let next ← middle.plus part.length
              if query.window.touches middle next then
                walkPairs query visit middle next
                  (literal :: around) walk part
              else return Flow.go walk
  | .list _ _ _ _ items =>
      if maxQueryDepth < around.length then
        .ok (Flow.go walk)
      else walkPairItems query visit start around walk items
  | _ => .ok (Flow.go walk)

/- Visit the pairs of nodes one behind the other. -/
def walkPairItems
    (query : PairQuery)
    (visit : Visitor PairInfo σ)
    (start : Position)
    (around : List (List Char))
    (walk : PairWalk σ) :
    List Node → Checked (Flow (PairWalk σ))
  | [] => .ok (Flow.go walk)
  | item :: rest => do
      let stop ← start.plus item.length
      let flow ←
        if query.window.touches start stop then
          walkPairs query visit start stop around walk item
        else pure (Flow.go walk)
      flow.andThen fun walk =>
        walkPairItems query visit stop around walk rest

end

/- Visit the pairs of a tree. -/
def visitPairs
    (query : PairQuery)
    (visit : Visitor PairInfo σ)
    (walk : PairWalk σ)
    (root : Node) :
    Checked (Flow (PairWalk σ)) :=
  walkPairs query visit 0 root.length [] walk root

/- The pairs of a tree in a window, outer ones first. -/
def pairsIn
    (query : PairQuery)
    (cache : IndentationCache)
    (root : Node) :
    Checked (List PairInfo × IndentationCache) := do
  let flow ←
    root.visitPairs query Visitor.collect ⟨[], cache⟩
  return (flow.state.state.reverse, flow.state.cache)

end Node

end Bracketry

------------------------------------------------------------
-- Lookups
------------------------------------------------------------

namespace Bracketry

/- The brackets of a pair that was looked up. -/
structure BracketMatch where
  opening : Range
  closing : Option Range
deriving DecidableEq, Repr, Inhabited

namespace PairInfo

/- A bracket of the pair covers a position. -/
def hasBracketAt
    (info : PairInfo)
    (position : Position) :
    Bool :=
  info.openingRange.contains position ||
    info.closingRange.any (·.contains position)

/- Keep the first pair with a bracket at a position. -/
def matching
    (position : Position) :
    Visitor PairInfo (Option BracketMatch) :=
  fun found info =>
    if info.hasBracketAt position then
      Flow.halt
        (some ⟨info.openingRange, info.closingRange⟩)
    else Flow.go found

/- Keep the last closed pair around a position. -/
def surrounding
    (position : Position) :
    Visitor PairInfo (Option (Range × Range)) :=
  fun found info =>
    match info.closingRange with
    | some closing =>
        if info.range.strictlyContains position then
          Flow.go (some (info.openingRange, closing))
        else Flow.go found
    | none => Flow.go found

end PairInfo

namespace Node

/- The pair that has a bracket at a position. -/
def matchAt?
    (position : Position)
    (root : Node) :
    Checked (Option BracketMatch) := do
  let column ← checkedSum position.columns 1
  let query : PairQuery :=
    ⟨⟨position, ⟨position.lines, column⟩⟩, none⟩
  let flow ←
    root.visitPairs query (PairInfo.matching position)
      ⟨none, IndentationCache.empty⟩
  return flow.state.state

/- The brackets of the innermost closed pair around. -/
def enclosing?
    (position : Position)
    (root : Node) :
    Checked (Option (Range × Range)) := do
  let query : PairQuery := ⟨⟨position, position⟩, none⟩
  let flow ←
    root.visitPairs query (PairInfo.surrounding position)
      ⟨none, IndentationCache.empty⟩
  return flow.state.state

end Node

end Bracketry
