/-
  Dense numbers for names, in the order of first use.

  The key of a name is its index in the list of the names
  that were seen, so keys run from zero without a gap.

  Key definitions include:
    * `KeyTable`
    * `KeyTable.keyOf`
    * `KeyTable.get?`, `KeyTable.name?`
-/

------------------------------------------------------------
-- Key Tables
------------------------------------------------------------

namespace Bracketry

/- The names seen so far; the index of a name is its key. -/
structure KeyTable (α : Type) where
  names : List α
deriving DecidableEq, Repr, Inhabited

namespace KeyTable

variable {α : Type} [DecidableEq α]

/- The table without names. -/
def empty : KeyTable α :=
  ⟨[]⟩

/- The key of a name that was seen. -/
def get?
    (table : KeyTable α)
    (name : α) :
    Option Nat :=
  table.names.idxOf? name

/- The name of a key. -/
def name?
    (table : KeyTable α)
    (key : Nat) :
    Option α :=
  table.names[key]?

/- The names of the keys that have one, in order. -/
def namesOf
    (table : KeyTable α)
    (keys : List Nat) :
    List α :=
  keys.filterMap table.name?

/- The number of names. -/
def size
    (table : KeyTable α) :
    Nat :=
  table.names.length

/- The key of a name, which enters the table if it is new. -/
def keyOf
    (table : KeyTable α)
    (name : α) :
    Nat × KeyTable α :=
  match table.get? name with
  | some key => (key, table)
  | none => (table.size, ⟨table.names ++ [name]⟩)

/- The table with one more name, unless it has it. -/
def add
    (table : KeyTable α)
    (name : α) :
    KeyTable α :=
  (table.keyOf name).2

/- The table of the names of a list, in their order. -/
def ofList
    (names : List α) :
    KeyTable α :=
  names.foldl add empty

end KeyTable

end Bracketry
