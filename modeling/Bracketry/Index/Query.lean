import Bracketry.Index.Flush
import Bracketry.Query.Brackets
import Bracketry.Query.Nearest
import Bracketry.Query.Pairs

/-
  Queries on an index.

  A query answers from the current tree as long as the live
  content has the version that the tree was made for.
  Otherwise it has no answer and marks the index dirty.
  Queries for indentations remember what they computed.

  Key definitions include:
    * `Index.whenCurrent`
    * `Index.visitBrackets`, `Index.brackets`
    * `Index.visitPairs`, `Index.pairs`
    * `Index.bracketBefore?`, `Index.bracketAfter?`
    * `Index.matchAt?`, `Index.enclosing?`
-/

------------------------------------------------------------
-- Staleness
------------------------------------------------------------

namespace Bracketry

namespace Index

/-
  Ask the current tree, if it belongs to the version of the
  live content.
-/
def whenCurrent
    {α : Type}
    (index : Index)
    (live : Option Nat)
    (ask : Index → Node → Checked (α × Index)) :
    Checked (Option α × Index) :=
  match index.current? with
  | none => .ok (none, index)
  | some root =>
      if live = index.version then do
        let (answer, index) ← ask index root
        return (some answer, index)
      else .ok (none, { index with isDirty := true })

/- A question that leaves the index as it is. -/
def whenCurrentPure
    {α : Type}
    (index : Index)
    (live : Option Nat)
    (ask : Node → Checked α) :
    Checked (Option α × Index) :=
  index.whenCurrent live fun index root => do
    let answer ← ask root
    return (answer, index)

end Index

end Bracketry

------------------------------------------------------------
-- Ranges
------------------------------------------------------------

namespace Bracketry

namespace Index

variable {σ : Type}

/- Visit the brackets in a window. -/
def visitBrackets
    (index : Index)
    (live : Option Nat)
    (query : BracketQuery)
    (visit : Visitor BracketInfo σ)
    (state : σ) :
    Checked (Option (Flow σ) × Index) :=
  index.whenCurrentPure live fun root =>
    root.visitBrackets query visit state

/- The brackets in a window. -/
def brackets
    (index : Index)
    (live : Option Nat)
    (query : BracketQuery) :
    Checked (List BracketInfo × Index) := do
  let (found, index) ←
    index.whenCurrentPure live fun root =>
      root.bracketsIn query
  return (found.getD [], index)

/- Visit the pairs in a window. -/
def visitPairs
    (index : Index)
    (live : Option Nat)
    (window : Range)
    (withIndentation : Bool)
    (visit : Visitor PairInfo σ)
    (state : σ) :
    Checked (Option (Flow σ) × Index) :=
  index.whenCurrent live fun index root => do
    let content :=
      if withIndentation then index.content else none
    let flow ←
      root.visitPairs ⟨window, content⟩ visit
        ⟨state, index.cache⟩
    return (⟨flow.state.state, flow.goesOn⟩,
      { index with cache := flow.state.cache })

/- The pairs in a window, outer ones first. -/
def pairs
    (index : Index)
    (live : Option Nat)
    (window : Range)
    (withIndentation : Bool) :
    Checked (List PairInfo × Index) := do
  let (flow, index) ←
    index.visitPairs live window withIndentation
      Visitor.collect []
  match flow with
  | some flow => return (flow.state.reverse, index)
  | none => return ([], index)

end Index

end Bracketry

------------------------------------------------------------
-- Positions
------------------------------------------------------------

namespace Bracketry

namespace Index

/- The nearest bracket that starts before a position. -/
def bracketBefore?
    (index : Index)
    (live : Option Nat)
    (position : Position) :
    Checked (Option FoundBracket × Index) := do
  let (found, index) ←
    index.whenCurrentPure live (Node.bracketBefore? position)
  return (found.join, index)

/- The nearest bracket that ends behind a position. -/
def bracketAfter?
    (index : Index)
    (live : Option Nat)
    (position : Position) :
    Checked (Option FoundBracket × Index) := do
  let (found, index) ←
    index.whenCurrentPure live (Node.bracketAfter? position)
  return (found.join, index)

/- The pair that has a bracket at a position. -/
def matchAt?
    (index : Index)
    (live : Option Nat)
    (position : Position) :
    Checked (Option BracketMatch × Index) := do
  let (found, index) ←
    index.whenCurrentPure live (Node.matchAt? position)
  return (found.join, index)

/- The brackets of the innermost closed pair around. -/
def enclosing?
    (index : Index)
    (live : Option Nat)
    (position : Position) :
    Checked (Option (Range × Range) × Index) := do
  let (found, index) ←
    index.whenCurrentPure live (Node.enclosing? position)
  return (found.join, index)

end Index

end Bracketry
