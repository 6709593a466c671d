/-
  The values of a TOML document.

  A document is a table.  A table remembers how it came to
  be, since that decides what may still be added to it: a
  header may complete a table that only longer headers have
  named, and keys with dots may only extend tables that keys
  with dots have made.

  Key definitions include:
    * `Toml.Origin`, `Toml.Float`, `Toml.Value`, `Toml.Table`
    * `Toml.Table.get?`
    * `Toml.Table.insert?`
    * `Toml.Table.openTable?`, `Toml.Table.openItem?`
    * `Toml.Value.isReadable`
-/

------------------------------------------------------------
-- Values
------------------------------------------------------------

namespace Bracketry

namespace Toml

/- The name of an entry of a table. -/
abbrev Key := List Char

/- How a table came to be. -/
inductive Origin where
  /- It was written between braces. -/
  | inline
  /- It leads to a table that a header named. -/
  | implicit
  /- A header named it. -/
  | header
  /- A key with dots leads through it. -/
  | dotted
deriving DecidableEq, Repr, Inhabited

/- A float as it was written. -/
inductive Float where
  /- An infinity, or no number at all. -/
  | special
  /- Digits times a power of ten. -/
  | decimal (digits : Nat) (exponent : Int)
deriving DecidableEq, Repr, Inhabited

/- A value of a document. -/
inductive Value where
  | text (chars : List Char)
  /- An integer; without a number, a spelling of none. -/
  | integer (number : Option Int)
  | float (number : Float)
  | boolean (isTrue : Bool)
  /- A date, a time of day, or both. -/
  | moment (spelling : List Char)
  /- Values between brackets, or tables under one header. -/
  | array (ofTables : Bool) (items : List Value)
  | table (origin : Origin) (entries : List (Key × Value))
deriving Repr, Inhabited

/- A table: its origin, and its entries in order. -/
structure Table where
  origin : Origin
  entries : List (Key × Value)
deriving Repr, Inhabited

/- The table as a value. -/
def Table.toValue
    (table : Table) :
    Value :=
  .table table.origin table.entries

/- A table without entries. -/
def Table.empty
    (origin : Origin) :
    Table :=
  ⟨origin, []⟩

end Toml

end Bracketry

------------------------------------------------------------
-- Entries
------------------------------------------------------------

namespace Bracketry

namespace Toml

/- The entries with a key set, at its place or at the end. -/
def setEntry
    (key : Key)
    (value : Value) :
    List (Key × Value) → List (Key × Value)
  | [] => [(key, value)]
  | (name, old) :: rest =>
      if name = key then (key, value) :: rest
      else (name, old) :: setEntry key value rest

theorem lookup_setEntry_self
    (key : Key)
    (value : Value)
    (entries : List (Key × Value)) :
    (setEntry key value entries).lookup key = some value := by
  induction entries with
  | nil => simp [setEntry]
  | cons entry rest ih =>
      rcases entry with ⟨name, old⟩
      unfold setEntry
      split
      · rw [List.lookup_cons_self]
      · rename_i hName
        have hKey : (key == name) = false :=
          beq_eq_false_iff_ne.2 (Ne.symm hName)
        rw [List.lookup_cons, hKey]
        exact ih

namespace Table

/- The value of a key. -/
def get?
    (table : Table)
    (key : Key) :
    Option Value :=
  table.entries.lookup key

/- The table with a key set. -/
def set
    (table : Table)
    (key : Key)
    (value : Value) :
    Table :=
  { table with entries := setEntry key value table.entries }

theorem get?_set_self
    (table : Table)
    (key : Key)
    (value : Value) :
    (table.set key value).get? key = some value :=
  lookup_setEntry_self key value table.entries

end Table

end Toml

end Bracketry

------------------------------------------------------------
-- Building Tables
------------------------------------------------------------

namespace Bracketry

namespace Toml

namespace Table

/-
  Change the table at the end of a path.  Tables that are
  missing are made on the way, and an array of tables is
  entered at its last item.  Keys with dots do not lead
  through a table that a header named, and nothing leads
  through a table that was written between braces.
-/
def within?
    (dotted : Bool)
    (change : Table → Option Table) :
    List Key → Table → Option Table
  | [], table => change table
  | key :: path, table =>
      match table.get? key with
      | none => do
          let origin : Origin :=
            if dotted then .dotted else .implicit
          let inner ←
            within? dotted change path (empty origin)
          return table.set key inner.toValue
      | some (.table origin entries) =>
          if origin = .inline then none
          else if dotted ∧ origin = .header then none
          else do
            let inner ←
              within? dotted change path ⟨origin, entries⟩
            return table.set key inner.toValue
      | some (.array true items) =>
          match items.getLast? with
          | some (.table origin entries) => do
              let inner ←
                within? dotted change path ⟨origin, entries⟩
              return table.set key
                (.array true
                  (items.dropLast ++ [inner.toValue]))
          | _ => none
      | some _ => none

/-
  Add an entry.  A key with dots may only end in a table
  that keys with dots have made, and a key without dots may
  not.  A key is given one value.
-/
def insert?
    (path : List Key)
    (key : Key)
    (value : Value)
    (table : Table) :
    Option Table :=
  table.within? true
    (fun target =>
      if (target.get? key).isSome then none
      else if target.origin = .dotted ↔ path = [] then none
      else some (target.set key value))
    path

/- Name a table by a header. -/
def openTable?
    (path : List Key)
    (key : Key)
    (table : Table) :
    Option Table :=
  table.within? false
    (fun target =>
      match target.get? key with
      | none =>
          some (target.set key (.table .header []))
      | some (.table .implicit entries) =>
          some (target.set key (.table .header entries))
      | some _ => none)
    path

/- Begin one more item of an array of tables. -/
def openItem?
    (path : List Key)
    (key : Key)
    (table : Table) :
    Option Table :=
  table.within? false
    (fun target =>
      match target.get? key with
      | none =>
          some (target.set key
            (.array true [.table .header []]))
      | some (.array true items) =>
          some (target.set key
            (.array true (items ++ [.table .header []])))
      | some _ => none)
    path

end Table

end Toml

end Bracketry

------------------------------------------------------------
-- Limits of Numbers
------------------------------------------------------------

namespace Bracketry

namespace Toml

/- From here on a float is rounded to infinity. -/
def floatLimit : Nat :=
  Nat.pow 2 1024 - Nat.pow 2 970

namespace Float

/-
  The float is not rounded to infinity.  Numbers that are
  far from the limit are told apart by their digits alone.
-/
def isReadable : Float → Bool
  | .special => true
  | .decimal digits exponent =>
      let size : Int := (Nat.toDigits 10 digits).length
      if digits = 0 then true
      else if 400 < size + exponent then false
      else if size + exponent < 300 then true
      else
        digits * Nat.pow 10 exponent.toNat <
          floatLimit * Nat.pow 10 (-exponent).toNat

end Float

namespace Value

mutual

/-
  Every number in the value is one that a reader can hold:
  integers of 128 bits, with a sign or without, and floats
  that are not rounded to infinity.  A spelling of no number
  is none of them.
-/
def isReadable : Value → Bool
  | .integer none => false
  | .integer (some number) =>
      -(Nat.pow 2 127 : Int) ≤ number ∧
        number < (Nat.pow 2 128 : Int)
  | .float number => number.isReadable
  | .array _ items => allReadable items
  | .table _ entries => entriesReadable entries
  | .text _ => true
  | .boolean _ => true
  | .moment _ => true

/- Every number in the items can be held. -/
def allReadable : List Value → Bool
  | [] => true
  | item :: rest => item.isReadable && allReadable rest

/- Every number in the entries can be held. -/
def entriesReadable : List (Key × Value) → Bool
  | [] => true
  | (_, value) :: rest =>
      value.isReadable && entriesReadable rest

end

end Value

end Toml

end Bracketry
