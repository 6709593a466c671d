import Bracketry.Index.Query

/-
  Closed pairs by byte offsets.

  Lookups go through the content that the current tree was
  made from, so that offsets and tree agree.

  Key definitions include:
    * `PairedBracket`
    * `PairedBracket.ofInfo?`
    * `Index.pairedAt?`
    * `Index.pairedIn`
-/

------------------------------------------------------------
-- Records
------------------------------------------------------------

namespace Bracketry

/- The byte ranges of the brackets of a closed pair. -/
structure PairedBracket where
  leftIndex : Nat
  leftLength : Nat
  rightIndex : Nat
  rightLength : Nat
  level : Nat
deriving DecidableEq, Repr, Inhabited

namespace PairedBracket

/- The byte range of a range of positions. -/
def bytesOf
    (content : Content)
    (range : Range) :
    Nat × Nat :=
  let start := content.offsetOf range.start
  (start, content.offsetOf range.stop - start)

/- The record of a pair with two brackets of some size. -/
def ofInfo?
    (content : Content)
    (info : PairInfo) :
    Option PairedBracket :=
  match info.closingRange with
  | none => none
  | some closing =>
      let (leftIndex, leftLength) :=
        bytesOf content info.openingRange
      let (rightIndex, rightLength) := bytesOf content closing
      if leftLength = 0 || rightLength = 0 then none
      else
        some
          { leftIndex := leftIndex
            leftLength := leftLength
            rightIndex := rightIndex
            rightLength := rightLength
            level := info.level }

end PairedBracket

/- Keep the first pair with a bracket at a position. -/
def PairInfo.first
    (position : Position) :
    Visitor PairInfo (Option PairInfo) :=
  fun found info =>
    if info.hasBracketAt position then Flow.halt (some info)
    else Flow.go found

/- A position inside the lines and columns of content. -/
def Content.clamp
    (content : Content)
    (position : Position) :
    Position :=
  let line := min position.lines (content.lineCount - 1)
  ⟨line, min position.columns (content.columnCount line)⟩

end Bracketry

------------------------------------------------------------
-- Lookups
------------------------------------------------------------

namespace Bracketry

namespace Index

/- The closed pair with a bracket over a byte. -/
def pairedAt?
    (index : Index)
    (live : Option Nat)
    (offset : Nat) :
    Checked (Option PairedBracket × Index) := do
  let (found, index) ←
    index.whenCurrent live fun index root =>
      match index.content with
      | none => .ok (none, index)
      | some content =>
          let size := content.offsetOf content.endPosition
          if size ≤ offset then .ok (none, index)
          else do
            let position ← content.positionOf offset
            let column ← checkedSum position.columns 1
            let window : Range :=
              ⟨position, ⟨position.lines, column⟩⟩
            let flow ←
              root.visitPairs ⟨window, none⟩
                (PairInfo.first position)
                ⟨none, index.cache⟩
            return (
              flow.state.state.bind
                (PairedBracket.ofInfo? content),
              index)
  return (found.join, index)

/-
  The closed pairs between two positions, outer ones first.
  The positions are clamped and may come in either order.
-/
def pairedIn
    (index : Index)
    (live : Option Nat)
    (left right : Position) :
    Checked (List PairedBracket × Index) := do
  let (found, index) ←
    index.whenCurrent live fun index root =>
      match index.content with
      | none => .ok ([], index)
      | some content => do
          let left := content.clamp left
          let right := content.clamp right
          let window : Range :=
            if left ≤ right then ⟨left, right⟩
            else ⟨right, left⟩
          let (infos, _) ←
            root.pairsIn ⟨window, none⟩ index.cache
          return (
            infos.filterMap (PairedBracket.ofInfo? content),
            index)
  return (found.getD [], index)

end Index

end Bracketry
