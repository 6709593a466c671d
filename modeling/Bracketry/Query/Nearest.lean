import Bracketry.Query.Basic

/-
  The bracket next to a position.

  Going left, it is the last bracket that starts before the
  position; going right, the first that ends behind it.
  Closing brackets that close nothing are passed over, and
  so is what lies below too many pairs.

  Key definitions include:
    * `FoundBracket`
    * `Node.bracketBefore?`
    * `Node.bracketAfter?`
-/

------------------------------------------------------------
-- Going Left
------------------------------------------------------------

namespace Bracketry

/- A bracket that was found, and where. -/
structure FoundBracket where
  range : Range
  kind : BracketKind
deriving DecidableEq, Repr, Inhabited

namespace Node

mutual

/- The last bracket of a node that starts before. -/
def lastBefore?
    (position start stop : Position)
    (depth : Nat) :
    Node → Checked (Option FoundBracket)
  | .text _ _ => .ok none
  | .invalid _ _ _ => .ok none
  | .bracket leaf => .ok (some ⟨⟨start, stop⟩, leaf.kind⟩)
  | .list _ _ _ _ items =>
      if maxQueryDepth < depth then .ok none
      else lastOfAllBefore? position start depth items
  | .pair _ _ _ opening child closing =>
      if maxQueryDepth < depth then .ok none
      else do
        let middle ← start.plus opening.length
        let next ←
          match child with
          | none => pure middle
          | some part => middle.plus part.length
        let last ←
          match closing with
          | none => pure none
          | some part => do
              let stop ← next.plus part.length
              if next < position then
                lastBefore? position next stop (depth + 1)
                  part
              else pure none
        match last with
        | some found => return some found
        | none =>
            let inner ←
              match child with
              | none => pure none
              | some part =>
                  if middle < position then
                    lastBefore? position middle next
                      (depth + 1) part
                  else pure none
            match inner with
            | some found => return some found
            | none =>
                if start < position then
                  lastBefore? position start middle
                    (depth + 1) opening
                else return none

/- The last bracket of several nodes that starts before. -/
def lastOfAllBefore?
    (position start : Position)
    (depth : Nat) :
    List Node → Checked (Option FoundBracket)
  | [] => .ok none
  | item :: rest => do
      let stop ← start.plus item.length
      let found ← lastOfAllBefore? position stop depth rest
      match found with
      | some found => return some found
      | none =>
          if start < position then
            lastBefore? position start stop depth item
          else return none

end

/- The nearest bracket that starts before a position. -/
def bracketBefore?
    (position : Position)
    (root : Node) :
    Checked (Option FoundBracket) :=
  lastBefore? position 0 root.length 0 root

end Node

end Bracketry

------------------------------------------------------------
-- Going Right
------------------------------------------------------------

namespace Bracketry

namespace Node

mutual

/- The first bracket of a node that ends behind. -/
def firstAfter?
    (position start stop : Position)
    (depth : Nat) :
    Node → Checked (Option FoundBracket)
  | .text _ _ => .ok none
  | .invalid _ _ _ => .ok none
  | .bracket leaf => .ok (some ⟨⟨start, stop⟩, leaf.kind⟩)
  | .list _ _ _ _ items =>
      if maxQueryDepth < depth then .ok none
      else firstOfAllAfter? position start depth items
  | .pair _ _ _ opening child closing =>
      if maxQueryDepth < depth then .ok none
      else do
        let middle ← start.plus opening.length
        let first ←
          if position < middle then
            firstAfter? position start middle (depth + 1)
              opening
          else pure none
        match first with
        | some found => return some found
        | none =>
            let (inner, next) ←
              match child with
              | none => pure (none, middle)
              | some part => do
                  let next ← middle.plus part.length
                  if position < next then
                    let found ←
                      firstAfter? position middle next
                        (depth + 1) part
                    pure (found, next)
                  else pure (none, next)
            match inner with
            | some found => return some found
            | none =>
                match closing with
                | none => return none
                | some part =>
                    let last ← next.plus part.length
                    if position < last then
                      firstAfter? position next last
                        (depth + 1) part
                    else return none

/- The first bracket of several nodes that ends behind. -/
def firstOfAllAfter?
    (position start : Position)
    (depth : Nat) :
    List Node → Checked (Option FoundBracket)
  | [] => .ok none
  | item :: rest => do
      let stop ← start.plus item.length
      let found ←
        if position < stop then
          firstAfter? position start stop depth item
        else pure none
      match found with
      | some found => return some found
      | none => firstOfAllAfter? position stop depth rest

end

/- The nearest bracket that ends behind a position. -/
def bracketAfter?
    (position : Position)
    (root : Node) :
    Checked (Option FoundBracket) :=
  firstAfter? position 0 root.length 0 root

end Node

end Bracketry
