import Bracketry.Index.Offset

/-
  Lookups of which only the latest matters.

  Requests of two kinds wait in one queue.  A new request
  raises the generation of its kind, so that older ones of
  the kind have no effect any more.  The last result of each
  kind is kept; a receiver is told each new result, and both
  kept results when it is attached.  After a shutdown, no
  request is taken.

  Key definitions include:
    * `Request`, `Outcome`
    * `Lookup`
    * `Lookup.submit`
    * `Lookup.handleMatched`, `Lookup.handleRange`
    * `Lookup.setReceiver`, `Lookup.shutdown`
    * `Lookup.runAll`
-/

------------------------------------------------------------
-- Requests and Results
------------------------------------------------------------

namespace Bracketry

/- What is asked for. -/
inductive Request where
  /- The pair with a bracket over a byte. -/
  | matched (offset : Nat)
  /- The pairs between two positions. -/
  | range (left right : Position)
deriving DecidableEq, Repr, Inhabited

/- A request with the generation that it was made in. -/
structure Ticket where
  request : Request
  generation : Nat
deriving DecidableEq, Repr, Inhabited

/- How a computation ends. -/
inductive Outcome (α : Type) where
  | done (result : α)
  | cancelled
  | failed
deriving DecidableEq, Repr, Inhabited

/- What a receiver is told. -/
inductive Notice where
  | matched (pair : Option PairedBracket)
  | pairs (pairs : List PairedBracket)
deriving DecidableEq, Repr, Inhabited

/- A notice with the name of its receiver. -/
structure Delivery where
  receiver : String
  notice : Notice
deriving DecidableEq, Repr, Inhabited

/- Why a request is not taken. -/
inductive LookupError where
  | stopped
deriving DecidableEq, Repr, Inhabited

/- The name of an error. -/
def LookupError.name : LookupError → String
  | .stopped => "WorkerStopped"

/- The wording of an error. -/
def LookupError.message : LookupError → String
  | .stopped => "bracket worker has been shut down"

end Bracketry

------------------------------------------------------------
-- States
------------------------------------------------------------

namespace Bracketry

/-
  The requests that wait, the generation of each kind, the
  receiver, and the last result of each kind.  `log` holds
  what receivers were told, in order.
-/
structure Lookup where
  queue : List Ticket
  matchedGeneration : Nat
  rangeGeneration : Nat
  isStopped : Bool
  receiver : Option String
  lastMatched : Option PairedBracket
  lastPairs : List PairedBracket
  log : List Delivery
deriving DecidableEq, Repr, Inhabited

namespace Lookup

/- Nothing was asked yet. -/
def start : Lookup :=
  { queue := []
    matchedGeneration := 0
    rangeGeneration := 0
    isStopped := false
    receiver := none
    lastMatched := none
    lastPairs := []
    log := [] }

/- Tell the receiver, if there is one. -/
def tell
    (lookup : Lookup)
    (notice : Notice) :
    Lookup :=
  match lookup.receiver with
  | some receiver =>
      { lookup with
        log := lookup.log ++ [⟨receiver, notice⟩] }
  | none => lookup

/- The generation of the kind of a request. -/
def generationOf
    (lookup : Lookup) :
    Request → Nat
  | .matched _ => lookup.matchedGeneration
  | .range _ _ => lookup.rangeGeneration

/- A newer request of the kind was made. -/
def isSuperseded
    (lookup : Lookup)
    (ticket : Ticket) :
    Bool :=
  lookup.generationOf ticket.request != ticket.generation

/- Raise the generation of the kind of a request. -/
def raise
    (lookup : Lookup) :
    Request → Lookup
  | .matched _ =>
      { lookup with
        matchedGeneration := lookup.matchedGeneration + 1 }
  | .range _ _ =>
      { lookup with
        rangeGeneration := lookup.rangeGeneration + 1 }

end Lookup

end Bracketry

------------------------------------------------------------
-- Steps
------------------------------------------------------------

namespace Bracketry

namespace Lookup

/- Queue a request, which supersedes older ones. -/
def submit
    (lookup : Lookup)
    (request : Request) :
    Except LookupError Lookup :=
  if lookup.isStopped then .error .stopped
  else
    let lookup := lookup.raise request
    let ticket : Ticket :=
      ⟨request, lookup.generationOf request⟩
    .ok { lookup with queue := lookup.queue ++ [ticket] }

/- Take in what was computed for a matched request. -/
def handleMatched
    (lookup : Lookup)
    (outcome : Outcome (Option PairedBracket)) :
    Lookup :=
  match outcome with
  | .done pair =>
      { lookup with lastMatched := pair }.tell
        (.matched pair)
  | _ => lookup

/- Take in what was computed for a range request. -/
def handleRange
    (lookup : Lookup)
    (outcome : Outcome (List PairedBracket)) :
    Lookup :=
  match outcome with
  | .done pairs =>
      let lookup := lookup.tell (.pairs pairs)
      { lookup with lastPairs := pairs }
  | _ => lookup

/-
  Attach or detach a receiver.  A new one is told the last
  results at once.
-/
def setReceiver
    (lookup : Lookup)
    (receiver : Option String) :
    Lookup :=
  let lookup := { lookup with receiver := receiver }
  (lookup.tell (.matched lookup.lastMatched)).tell
    (.pairs lookup.lastPairs)

/- Supersede all requests and take no more. -/
def shutdown
    (lookup : Lookup) :
    Lookup :=
  if lookup.isStopped then lookup
  else
    { lookup with
      queue := []
      matchedGeneration := lookup.matchedGeneration + 1
      rangeGeneration := lookup.rangeGeneration + 1
      isStopped := true
      receiver := none
      lastMatched := none
      lastPairs := [] }

end Lookup

end Bracketry

------------------------------------------------------------
-- Work
------------------------------------------------------------

namespace Bracketry

/-
  How requests are answered from a state, which may change
  on the way.
-/
structure Computer (σ : Type) where
  matched :
    σ → Nat →
      Checked (Outcome (Option PairedBracket) × σ)
  range :
    σ → Position → Position →
      Checked (Outcome (List PairedBracket) × σ)

namespace Lookup

variable {σ : Type}

/- Handle one request, unless it was superseded. -/
def handle
    (computer : Computer σ)
    (lookup : Lookup)
    (state : σ)
    (ticket : Ticket) :
    Checked (Lookup × σ) :=
  if lookup.isSuperseded ticket then .ok (lookup, state)
  else
    match ticket.request with
    | .matched offset => do
        let (outcome, state) ← computer.matched state offset
        return (lookup.handleMatched outcome, state)
    | .range left right => do
        let (outcome, state) ←
          computer.range state left right
        return (lookup.handleRange outcome, state)

/- Handle requests in their order. -/
def handleAll
    (computer : Computer σ)
    (lookup : Lookup)
    (state : σ) :
    List Ticket → Checked (Lookup × σ)
  | [] => .ok (lookup, state)
  | ticket :: rest => do
      let (lookup, state) ←
        handle computer lookup state ticket
      handleAll computer lookup state rest

/- Handle all requests that wait. -/
def runAll
    (computer : Computer σ)
    (lookup : Lookup)
    (state : σ) :
    Checked (Lookup × σ) :=
  handleAll computer { lookup with queue := [] } state
    lookup.queue

end Lookup

end Bracketry
