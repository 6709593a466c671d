import Bracketry.Query.Basic

/-
  The brackets in a window.

  Every bracket comes with the number of pairs around it and
  the number of those with the same opening literal.  On
  request only coloured pairs count, and the brackets of
  others are left out.  Closing brackets that close nothing
  are listed too.  What lies below too many pairs is not.

  Key definitions include:
    * `BracketInfo`
    * `LevelTable`, `BracketWalk`
    * `Node.visitBrackets`
    * `Node.bracketsIn`
-/

------------------------------------------------------------
-- Records
------------------------------------------------------------

namespace Bracketry

/-
  A bracket of a tree.  A closing bracket that closes
  nothing has no kind, and a level one below that of the
  brackets beside it.
-/
structure BracketInfo where
  range : Range
  level : Int
  equalLevel : Int
  isInvalid : Bool
  kind : Option BracketKind
deriving DecidableEq, Repr, Inhabited

namespace Node

/- A pair takes part in colouring. -/
def isColored
    (onlyColorized : Bool)
    (opening : Bracket)
    (closing : Option Bracket) :
    Bool :=
  if !onlyColorized then true
  else
    match closing with
    | none => true
    | some closing =>
        match closing.kind, opening.kind with
        | .closing close, .opening open_ =>
            close.closesColorized open_
        | _, _ => false

end Node

end Bracketry

------------------------------------------------------------
-- Walk
------------------------------------------------------------

namespace Bracketry

/- What a walk for brackets is asked for. -/
structure BracketQuery where
  window : Range
  onlyColorized : Bool
deriving DecidableEq, Repr, Inhabited

namespace BracketQuery

/- The walk goes into a part of a pair. -/
def visits
    (query : BracketQuery)
    (start stop : Position)
    (counts : Bool)
    (part : Node) :
    Bool :=
  query.window.touches start stop &&
    (counts || part.bracket?.isNone)

/- Nothing behind the part of a pair is in the window. -/
def endsWithin
    (query : BracketQuery)
    (start stop : Position)
    (part : Node) :
    Bool :=
  query.window.touches start stop &&
    query.window.stop ≤ stop && part.bracket?.isNone

end BracketQuery

/-
  How many of the counted pairs around a place have each
  opening literal.
-/
structure LevelTable where
  entries : List (List Char × Nat)
deriving DecidableEq, Repr, Inhabited

namespace LevelTable

/- Outside of all pairs. -/
def empty : LevelTable :=
  ⟨[]⟩

/- The number of pairs with a literal. -/
def of
    (table : LevelTable)
    (literal : List Char) :
    Nat :=
  (table.entries.lookup literal).getD 0

/- Enter the number of pairs with a literal. -/
def set
    (table : LevelTable)
    (literal : List Char)
    (count : Nat) :
    LevelTable :=
  ⟨(literal, count) ::
    table.entries.filter fun entry => entry.1 != literal⟩

end LevelTable

/-
  Where a walk stands: the number of counted pairs around
  it, the number of those like the pair it is in, and the
  number of all pairs around it.
-/
structure BracketPlace where
  level : Nat
  equal : Nat
  depth : Nat
deriving DecidableEq, Repr, Inhabited

namespace BracketPlace

/- Outside of all pairs. -/
def outside : BracketPlace :=
  ⟨0, 0, 0⟩

/-
  Inside one more pair, which counts or not, with so many
  counted ones of its literal around it.
-/
def inside
    (place : BracketPlace)
    (count : Nat)
    (counts : Bool) :
    BracketPlace :=
  if counts then
    ⟨place.level + 1, count + 1, place.depth + 1⟩
  else ⟨place.level, count, place.depth + 1⟩

end BracketPlace

/-
  What a walk for brackets carries along: the state of its
  visitor, and the pairs around it by their literals.
-/
structure BracketWalk (σ : Type) where
  state : σ
  levels : LevelTable
deriving Inhabited

namespace BracketWalk

variable {σ : Type}

/- Enter a number of pairs around the walk. -/
def setLevel
    (walk : BracketWalk σ)
    (literal : List Char)
    (count : Nat) :
    BracketWalk σ :=
  { walk with levels := walk.levels.set literal count }

/- The walk inside a pair, which is entered if it counts. -/
def enter
    (walk : BracketWalk σ)
    (literal : List Char)
    (counts : Bool) :
    BracketWalk σ :=
  if counts then
    walk.setLevel literal (walk.levels.of literal + 1)
  else walk

end BracketWalk

/- Walk a part of a pair, if the walk goes into it. -/
def BracketQuery.into
    {σ : Type}
    (query : BracketQuery)
    (start stop : Position)
    (counts : Bool)
    (part : Node)
    (walk : BracketWalk σ)
    (go : Checked (Flow (BracketWalk σ))) :
    Checked (Flow (BracketWalk σ)) :=
  if query.visits start stop counts part then go
  else .ok (Flow.go walk)

namespace Node

variable {σ : Type}

/- Hand a record to the visitor. -/
def visitBracket
    (visit : Visitor BracketInfo σ)
    (walk : BracketWalk σ)
    (info : BracketInfo) :
    Flow (BracketWalk σ) :=
  let flow := visit walk.state info
  ⟨⟨flow.state, walk.levels⟩, flow.goesOn⟩

mutual

/-
  Visit the brackets of a node from one place to another.
  A pair is left as it was entered, unless the walk ends
  inside it, with the end of the window.
-/
def walkBrackets
    (query : BracketQuery)
    (visit : Visitor BracketInfo σ)
    (start stop : Position)
    (place : BracketPlace)
    (walk : BracketWalk σ) :
    Node → Checked (Flow (BracketWalk σ))
  | .text _ _ => .ok (Flow.go walk)
  | .bracket leaf =>
      if maxQueryDepth < place.depth then
        .ok (Flow.go walk)
      else
        .ok (visitBracket visit walk
          { range := ⟨start, stop⟩
            level := (place.level : Int) - 1
            equalLevel := (place.equal : Int) - 1
            isInvalid := false
            kind := some leaf.kind })
  | .invalid _ _ _ =>
      if maxQueryDepth < place.depth then
        .ok (Flow.go walk)
      else
        .ok (visitBracket visit walk
          { range := ⟨start, stop⟩
            level := (place.level : Int) - 1
            equalLevel := 0
            isInvalid := true
            kind := none })
  | .list _ _ _ _ items =>
      if maxQueryDepth < place.depth then
        .ok (Flow.go walk)
      else walkItems query visit start place walk items
  | .pair _ _ _ opening child closing =>
      if maxQueryDepth < place.depth then
        .ok (Flow.go walk)
      else do
        let opener ← openingOf opening
        let literal := opener.kind.literal
        let counts :=
          isColored query.onlyColorized opener
            (closingOf? closing)
        let count := walk.levels.of literal
        let inner := place.inside count counts
        let walk := walk.enter literal counts
        let middle ← start.plus opening.length
        let flow ←
          query.into start middle counts opening walk
            (walkBrackets query visit start middle inner walk
              opening)
        flow.andThen fun walk => do
          let (flow, next, isLast) ←
            walkPart query visit middle inner counts walk child
          if isLast then return flow
          else
            flow.andThen fun walk => do
              let (flow, _) ←
                walkPart query visit next inner counts walk
                  closing
              flow.andThen fun walk =>
                .ok (Flow.go (walk.setLevel literal count))

/-
  Visit the brackets of a part of a pair that may be absent,
  if the query goes into it.  Also tells where the part
  ends, and whether the window ends in it.
-/
def walkPart
    (query : BracketQuery)
    (visit : Visitor BracketInfo σ)
    (start : Position)
    (place : BracketPlace)
    (counts : Bool)
    (walk : BracketWalk σ) :
    Option Node →
      Checked (Flow (BracketWalk σ) × Position × Bool)
  | none => .ok (Flow.go walk, start, false)
  | some part => do
      let stop ← start.plus part.length
      let flow ←
        query.into start stop counts part walk
          (walkBrackets query visit start stop place walk part)
      return (flow, stop, query.endsWithin start stop part)

/-
  Visit the brackets of the items of a list.  Nothing behind
  an item that reaches the end of the window is visited.
-/
def walkItems
    (query : BracketQuery)
    (visit : Visitor BracketInfo σ)
    (start : Position)
    (place : BracketPlace)
    (walk : BracketWalk σ) :
    List Node → Checked (Flow (BracketWalk σ))
  | [] => .ok (Flow.go walk)
  | item :: rest => do
      let stop ← start.plus item.length
      if query.window.touches start stop then
        if query.window.stop ≤ stop then
          walkBrackets query visit start stop place walk item
        else
          let inner := { place with equal := 0 }
          let flow ←
            walkBrackets query visit start stop inner walk
              item
          flow.andThen fun walk =>
            walkItems query visit stop place walk rest
      else walkItems query visit stop place walk rest

end

/- Visit the brackets of a tree. -/
def visitBrackets
    (query : BracketQuery)
    (visit : Visitor BracketInfo σ)
    (state : σ)
    (root : Node) :
    Checked (Flow σ) := do
  let flow ←
    walkBrackets query visit 0 root.length
      BracketPlace.outside ⟨state, LevelTable.empty⟩ root
  return ⟨flow.state.state, flow.goesOn⟩

/- The brackets of a tree in a window, in order. -/
def bracketsIn
    (query : BracketQuery)
    (root : Node) :
    Checked (List BracketInfo) := do
  let flow ← root.visitBrackets query Visitor.collect []
  return flow.state.reverse

end Node

end Bracketry
