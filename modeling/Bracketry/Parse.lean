import Bracketry.Edit.PositionMap
import Bracketry.Token.Stream
import Bracketry.Tree.Concat
import Bracketry.Tree.Reuse

/-
  Trees of token streams.

  Items are parsed until a closing bracket closes something
  that is open.  An opening bracket is a pair with the items
  behind it, closed if the bracket that stopped them closes
  it.  A closing bracket that closes nothing open stands
  alone.  Brackets nested too deeply are text.

  With the tree of an older text and the edits since then,
  the parser first asks for a part of the old tree that
  starts at the current place, ends before the next edit,
  and can be used again here.  It skips the text of such a
  part.

  Key definitions include:
    * `Parser`
    * `Parser.reuse?`
    * `Parser.parseItems`
    * `parseDocument`
-/

------------------------------------------------------------
-- Parser States
------------------------------------------------------------

namespace Bracketry

/- How many nodes a parse made and how many it used again. -/
structure ParseStats where
  constructed : Nat
  reused : Nat
deriving DecidableEq, Repr, Inhabited

/- No nodes. -/
def ParseStats.none : ParseStats :=
  ⟨0, 0⟩

/- The tokens ahead, the old tree ahead, and the counts. -/
structure Parser where
  stream : TokenStream
  old : Option NodeReader
  map : PositionMap
  stats : ParseStats
deriving Inhabited

namespace Parser

/- Pairs nested deeper than this are text. -/
def maxNestingLevel : Nat := 300

/- Look at the next token. -/
def peek
    (parser : Parser) :
    Checked (Option Token × Parser) := do
  let (token, stream) ← parser.stream.peek
  return (token, { parser with stream := stream })

/- Read the next token. -/
def read
    (parser : Parser) :
    Checked (Option Token × Parser) := do
  let (token, stream) ← parser.stream.read
  return (token, { parser with stream := stream })

/- Count a node that is made from tokens. -/
def countConstructed
    (parser : Parser) :
    Parser :=
  { parser with
    stats :=
      ⟨parser.stats.constructed + 1, parser.stats.reused⟩ }

/- Count a node of the old tree. -/
def countReused
    (parser : Parser) :
    Parser :=
  { parser with
    stats :=
      ⟨parser.stats.constructed, parser.stats.reused + 1⟩ }

end Parser

end Bracketry

------------------------------------------------------------
-- Reuse
------------------------------------------------------------

namespace Bracketry

namespace Parser

/-
  A node fits before the next edit, which it must not touch,
  and can be used again while some ids are open.
-/
def fits
    (room : Option Length)
    (opened : IdSet)
    (node : Node) :
    Checked Bool :=
  if room.any (· ≤ node.length) then .ok false
  else node.canBeReused opened

/-
  The largest part of the old tree that can stand at the
  current place, whose text is skipped then.
-/
def reuse?
    (parser : Parser)
    (opened : IdSet) :
    Checked (Option Node × Parser) :=
  match parser.old with
  | none => .ok (none, parser)
  | some reader => do
      let offset := parser.stream.offset
      let (room, map) := parser.map.distanceToNext? offset
      let (isBehindEdit, map) := map.isRightAfterEdit offset
      let parser := { parser with map := map }
      if room = some 0 || isBehindEdit then
        return (none, parser)
      else
        let (oldOffset, map) := map.oldOffset offset
        let (node, reader) ←
          reader.readLongestAt oldOffset (fits room opened)
        let parser :=
          { parser with map := map, old := some reader }
        match node with
        | none => return (none, parser)
        | some node =>
            let stream ← parser.stream.skip node.length
            let parser := { parser with stream := stream }
            return (some node, parser.countReused)

end Parser

end Bracketry

------------------------------------------------------------
-- Parsing
------------------------------------------------------------

namespace Bracketry

namespace Parser

/- A closing bracket that closes one of the open ids. -/
def closesOpen
    (opened : IdSet) :
    Token → Bool
  | .text _ => false
  | .bracket leaf _ =>
      !leaf.kind.isOpening && leaf.ids.intersects opened

/- A closing bracket that closes the given opening one. -/
def closes
    (opening : Bracket)
    (id : Option Nat) :
    Token → Bool
  | .text _ => false
  | .bracket leaf leafId =>
      !leaf.kind.isOpening &&
        (leafId = id || leaf.ids.intersects opening.ids)

/- The items stop before the end and before such a bracket. -/
def stopsAt
    (opened : IdSet)
    (token : Option Token) :
    Bool :=
  match token with
  | none => true
  | some token => closesOpen opened token

/- The closing bracket of an opening one, if it is next. -/
def readClosing
    (parser : Parser)
    (opening : Bracket)
    (id : Option Nat) :
    Checked (Option Node × Parser) := do
  let (next, parser) ← parser.peek
  match next with
  | some (.bracket leaf leafId) =>
      if closes opening id (.bracket leaf leafId) then
        let (_, parser) ← parser.read
        return (some (.bracket leaf), parser)
      else return (none, parser)
  | _ => return (none, parser)

/-
  One tree of the items of a list.  Without an old tree, all
  items are leaves or pairs.
-/
def joinItems
    (parser : Parser)
    (items : List Node) :
    Checked (Option Node) :=
  if parser.old.isSome then Node.concatAll items
  else Node.concatEven items

/-
  The items up to a bracket that closes an open id, with so
  many pairs around them.  The first argument bounds the
  number of items; a parse never reaches the bound.
-/
def parseItems
    (bound : Nat)
    (opened : IdSet)
    (level : Nat)
    (parser : Parser) :
    Checked (List Node × Parser) :=
  match bound with
  | 0 => .ok ([], parser)
  | bound + 1 => do
      let (reused, parser) ← parser.reuse? opened
      match reused with
      | some node =>
          let (rest, parser) ←
            parseItems bound opened level parser
          return (
            if node.isEmptyList then rest else node :: rest,
            parser)
      | none =>
          let (next, parser) ← parser.peek
          if stopsAt opened next then return ([], parser)
          else
            let parser := parser.countConstructed
            let (token, parser) ← parser.read
            let (node, parser) ←
              match token with
              | none => pure (Node.emptyList, parser)
              | some (.text length) =>
                  pure (Node.textOf length, parser)
              | some (.bracket leaf id) =>
                  if !leaf.kind.isOpening then
                    pure (
                      Node.invalidOf leaf.ids leaf.length,
                      parser)
                  else if maxNestingLevel < level then
                    pure (Node.textOf leaf.length, parser)
                  else do
                    let (items, parser) ←
                      parseItems bound
                        (opened.union leaf.ids)
                        (level + 1) parser
                    let child ← parser.joinItems items
                    let (closing, parser) ←
                      parser.readClosing leaf id
                    let pair ←
                      Node.pairOf (.bracket leaf) child
                        closing
                    pure (pair, parser)
            let (rest, parser) ←
              parseItems bound opened level parser
            return (
              if node.isEmptyList then rest else node :: rest,
              parser)

/- A bound that no parse reaches. -/
def itemBound
    (parser : Parser) :
    Nat :=
  parser.stream.bound +
    (match parser.old with
      | none => 0
      | some reader => reader.steps) + 2

end Parser

/-
  The tree of a token stream.  With an old tree, the edits
  tell how the old text became the one of the stream.
-/
def parseDocument
    (stream : TokenStream)
    (edits : List Edit)
    (old : Option Node) :
    Checked (Node × ParseStats) := do
  let map ← PositionMap.ofEdits edits
  let parser : Parser :=
    { stream := stream
      old := old.map NodeReader.ofRoot
      map := map
      stats := ParseStats.none }
  let (items, parser) ←
    Parser.parseItems parser.itemBound IdSet.empty 0
      parser
  let root ← parser.joinItems items
  return (root.getD Node.emptyList, parser.stats)

end Bracketry
