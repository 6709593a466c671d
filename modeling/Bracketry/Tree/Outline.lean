import Bracketry.Text.Quoted
import Bracketry.Tree.Basic

/-
  Trees written line by line.

  The outline of a tree holds its pairs, its brackets and
  its closing brackets that close nothing, with their
  ranges and their depth.  Two trees of one text have one
  outline, however their lists and their text are cut.  The
  full listing shows text and lists too.

  Key definitions include:
    * `Entry`, `Mark`
    * `Node.listing`
    * `Node.outline`
    * `Node.renderListing`, `Node.renderOutline`
-/

------------------------------------------------------------
-- Entries
------------------------------------------------------------

namespace Bracketry

/- What one line of a listing shows. -/
inductive Mark where
  | text
  | bracket (literal : List Char)
  | invalid
  | pair (isClosed : Bool)
  | list (height : Nat)
deriving DecidableEq, Repr, Inhabited

/- A node of a listing with its depth and its range. -/
structure Entry where
  depth : Nat
  mark : Mark
  range : Range
deriving DecidableEq, Repr, Inhabited

namespace Node

/- How a node is shown. -/
def mark : Node → Mark
  | .text _ _ => .text
  | .bracket leaf => .bracket leaf.kind.literal
  | .invalid _ _ _ => .invalid
  | .pair _ _ _ _ _ closing => .pair closing.isSome
  | .list _ height _ _ _ => .list height

end Node

end Bracketry

------------------------------------------------------------
-- Listings
------------------------------------------------------------

namespace Bracketry

/- Which nodes a listing shows. -/
structure ListingRule where
  shows : Mark → Bool

namespace ListingRule

/- Show all nodes. -/
def all : ListingRule :=
  ⟨fun _ => true⟩

/- Show neither text nor lists. -/
def brackets : ListingRule :=
  ⟨fun
    | .text => false
    | .list _ => false
    | _ => true⟩

end ListingRule

namespace Node

/- The entry of a node itself, if the rule shows it. -/
def ownEntry
    (rule : ListingRule)
    (offset : Position)
    (depth : Nat)
    (node : Node) :
    Checked (List Entry) := do
  let stop ← offset.plus node.length
  if rule.shows node.mark then
    return [⟨depth, node.mark, ⟨offset, stop⟩⟩]
  else return []

/- The depth of what is below a node. -/
def innerDepth
    (rule : ListingRule)
    (depth : Nat)
    (node : Node) :
    Nat :=
  if rule.shows node.mark then depth + 1 else depth

mutual

/- The entries of a tree that starts at an offset. -/
def entries
    (rule : ListingRule)
    (offset : Position)
    (depth : Nat) :
    Node → Checked (List Entry)
  | .list key height length missing items => do
      let node := .list key height length missing items
      let own ← ownEntry rule offset depth node
      let (inner, _) ←
        entriesOfAll rule offset (innerDepth rule depth node)
          items
      return own ++ inner
  | .pair key length missing opening child closing => do
      let node :=
        .pair key length missing opening child closing
      let own ← ownEntry rule offset depth node
      let depth := innerDepth rule depth node
      let first ← entries rule offset depth opening
      let offset ← offset.plus opening.length
      let (middle, offset) ←
        match child with
        | none => pure ([], offset)
        | some part => do
            let inner ← entries rule offset depth part
            let stop ← offset.plus part.length
            pure (inner, stop)
      let last ←
        match closing with
        | none => pure []
        | some part => do
            let inner ← entries rule offset depth part
            let _ ← offset.plus part.length
            pure inner
      return own ++ first ++ middle ++ last
  | node => ownEntry rule offset depth node

/- The entries of nodes one behind the other. -/
def entriesOfAll
    (rule : ListingRule)
    (offset : Position)
    (depth : Nat) :
    List Node → Checked (List Entry × Position)
  | [] => .ok ([], offset)
  | item :: rest => do
      let first ← entries rule offset depth item
      let next ← offset.plus item.length
      let (others, stop) ←
        entriesOfAll rule next depth rest
      return (first ++ others, stop)

end

/- All nodes of a tree. -/
def listing
    (node : Node) :
    Checked (List Entry) :=
  node.entries .all 0 0

/- The pairs and brackets of a tree. -/
def outline
    (node : Node) :
    Checked (List Entry) :=
  node.entries .brackets 0 0

end Node

end Bracketry

------------------------------------------------------------
-- Written Form
------------------------------------------------------------

namespace Bracketry

namespace Entry

/- Two blanks for every level of depth. -/
def indent
    (depth : Nat) :
    String :=
  String.ofList (List.replicate (2 * depth) ' ')

/- A literal between quotes. -/
def quote
    (literal : List Char) :
    String :=
  String.ofList (Text.quoted literal)

/- The name of a pair. -/
def pairName
    (isClosed : Bool) :
    String :=
  if isClosed then "Pair" else "Pair(unclosed)"

/- A line of a full listing. -/
def renderFull
    (entry : Entry) :
    String :=
  let place := "@" ++ entry.range.render
  let shown :=
    match entry.mark with
    | .text => "Text" ++ place
    | .bracket literal =>
        "Bracket" ++ place ++ " " ++ quote literal
    | .invalid => "InvalidBracket" ++ place
    | .pair isClosed => pairName isClosed ++ place
    | .list height =>
        "List(h=" ++ toString height ++ ")" ++ place
  indent entry.depth ++ shown ++ "\n"

/- A line of an outline. -/
def renderBrief
    (entry : Entry) :
    String :=
  let name :=
    match entry.mark with
    | .text => "Text"
    | .bracket literal => quote literal
    | .invalid => "Invalid"
    | .pair isClosed => pairName isClosed
    | .list _ => "List"
  indent entry.depth ++ name ++ "@" ++ entry.range.render ++
    "\n"

end Entry

namespace Node

/- All nodes of a tree, one a line. -/
def renderListing
    (node : Node) :
    Checked String := do
  let entries ← node.listing
  return String.join (entries.map Entry.renderFull)

/- The pairs and brackets of a tree, one a line. -/
def renderOutline
    (node : Node) :
    Checked String := do
  let entries ← node.outline
  return String.join (entries.map Entry.renderBrief)

end Node

end Bracketry
