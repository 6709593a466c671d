import Bracketry.Tree.Indentation

/-
  Visits and windows.

  A query walks a tree from left to right and hands each
  record to a visitor, which may end the walk.  Only what
  overlaps a window is walked; touching it is enough.

  Key definitions include:
    * `Visitor`, `Flow`
    * `Visitor.collect`, `Visitor.upTo`
    * `Range.touches`
    * `Node.openingOf`, `Node.closingOf?`
-/

------------------------------------------------------------
-- Visitors
------------------------------------------------------------

namespace Bracketry

/- The state of a visitor, and whether the walk goes on. -/
structure Flow (σ : Type) where
  state : σ
  goesOn : Bool
deriving Inhabited

namespace Flow

variable {σ : Type}

/- Go on with a state. -/
def go
    (state : σ) :
    Flow σ :=
  ⟨state, true⟩

/- End the walk with a state. -/
def halt
    (state : σ) :
    Flow σ :=
  ⟨state, false⟩

/- Take the next step, unless the walk has ended. -/
def andThen
    (flow : Flow σ)
    (next : σ → Checked (Flow σ)) :
    Checked (Flow σ) :=
  if flow.goesOn then next flow.state else .ok flow

end Flow

/- What is done with each record of a walk. -/
def Visitor (α σ : Type) :=
  σ → α → Flow σ

namespace Visitor

variable {α : Type}

/- Keep all records, the last one first. -/
def collect : Visitor α (List α) :=
  fun seen record => Flow.go (record :: seen)

/- Keep records until at least so many were seen. -/
def upTo
    (limit : Nat) :
    Visitor α (List α) :=
  fun seen record =>
    let seen := record :: seen
    if limit ≤ seen.length then Flow.halt seen
    else Flow.go seen

end Visitor

end Bracketry

------------------------------------------------------------
-- Windows and Brackets of a Pair
------------------------------------------------------------

namespace Bracketry

/- A stretch begins by the end of a window and ends in it
   or behind its start. -/
def Range.touches
    (window : Range)
    (start stop : Position) :
    Bool :=
  start ≤ window.stop ∧ window.start ≤ stop

namespace Node

/- The bracket that opens a pair. -/
def openingOf
    (opening : Node) :
    Checked Bracket :=
  match opening with
  | .bracket leaf => .ok leaf
  | _ => .error .notABracket

/- The bracket that closes a pair, if there is one. -/
def closingOf?
    (closing : Option Node) :
    Option Bracket :=
  closing.bind bracket?

end Node

end Bracketry
