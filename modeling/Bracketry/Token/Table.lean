import Bracketry.Bracket.Pattern
import Bracketry.KeyTable
import Bracketry.Token.Basic

/-
  The tokens of the bracket literals of a language.

  Entries are keyed by the literals in lower case and stand
  in descending order of their keys, so that a literal
  stands before the ones it continues.  Ids number the
  literals as declared, opening ones first.  Where two
  literals have one key, the later entry replaces the other;
  closing literals are entered after opening ones.

  Key definitions include:
    * `TokenTable`
    * `TokenTable.ofBrackets`
    * `TokenTable.token?`
    * `TokenTable.tokenOfMatch?`
    * `TokenTable.closerFor?`
-/

------------------------------------------------------------
-- Descending Entries
------------------------------------------------------------

namespace Bracketry

/- A key in lower case and the token of its literal. -/
structure TokenEntry where
  key : List Char
  bracket : Bracket
  id : Option Nat
deriving DecidableEq, Inhabited

namespace TokenEntry

/- The token of an entry. -/
def token
    (entry : TokenEntry) :
    Token :=
  .bracket entry.bracket entry.id

/- Enter at the place of the key, in place of an equal. -/
def enter
    (entry : TokenEntry) :
    List TokenEntry → List TokenEntry
  | [] => [entry]
  | first :: rest =>
      if entry.key = first.key then entry :: rest
      else if first.key < entry.key then
        entry :: first :: rest
      else first :: enter entry rest

/- The entry is of a closing kind that closes an id. -/
def canClose
    (ids : IdSet)
    (entry : TokenEntry) :
    Bool :=
  !entry.bracket.kind.isOpening &&
    entry.bracket.ids.intersects ids

end TokenEntry

end Bracketry

------------------------------------------------------------
-- Token Tables
------------------------------------------------------------

namespace Bracketry

/- The entries of a language and the ids of its literals. -/
structure TokenTable where
  entries : List TokenEntry
  ids : KeyTable (List Char)
deriving DecidableEq, Inhabited

namespace TokenTable

/- The length of a literal, which counts as one line. -/
def literalLength
    (literal : List Char) :
    Length :=
  ⟨0, Text.byteSize literal⟩

/- The id of a literal of the language. -/
def idOf
    (ids : KeyTable (List Char))
    (literal : List Char) :
    Nat :=
  (ids.keyOf literal).1

/- The entry of an opening kind. -/
def openingEntry
    (ids : KeyTable (List Char))
    (kind : OpeningKind) :
    TokenEntry :=
  let id := idOf ids kind.literal
  { key := Text.lowercase kind.literal
    bracket :=
      ⟨literalLength kind.literal, .opening kind,
        IdSet.single id⟩
    id := some id }

/- The entry of a closing kind. -/
def closingEntry
    (ids : KeyTable (List Char))
    (kind : ClosingKind) :
    TokenEntry :=
  { key := Text.lowercase kind.literal
    bracket :=
      ⟨literalLength kind.literal, .closing kind,
        IdSet.ofList (kind.openers.map (idOf ids))⟩
    id := kind.openers.head?.map (idOf ids) }

/- The ids of the literals, opening ones first. -/
def idsOf
    (brackets : Brackets) :
    KeyTable (List Char) :=
  KeyTable.ofList
    (brackets.openings.map OpeningKind.literal ++
      brackets.closings.map ClosingKind.literal)

/- The table of a language. -/
def ofBrackets
    (brackets : Brackets) :
    TokenTable :=
  let ids := idsOf brackets
  let made :=
    brackets.openings.map (openingEntry ids) ++
      brackets.closings.map (closingEntry ids)
  { entries :=
      made.foldl (fun entries e => e.enter entries) []
    ids := ids }

/- The literals that are searched for, in their order. -/
def literals
    (table : TokenTable) :
    List (List Char) :=
  table.entries.map TokenEntry.key

/- The entry of a key. -/
def entry?
    (table : TokenTable)
    (key : List Char) :
    Option TokenEntry :=
  table.entries.find? fun entry => entry.key == key

/- The token of a literal, as written or in lower case. -/
def token?
    (table : TokenTable)
    (literal : List Char) :
    Option Token :=
  match table.entry? literal with
  | some entry => some entry.token
  | none =>
      (table.entry? (Text.lowercase literal)).map
        TokenEntry.token

/-
  The token of a match.  A match whose size is not that of
  the literal, as some letters in another case, is text.
-/
def tokenOfMatch?
    (table : TokenTable)
    (found : List Char) :
    Option Token :=
  match table.token? found with
  | some token =>
      if token.length.columns = Text.byteSize found then
        some token
      else none
  | none => none

/- The least closing literal that closes one of the ids. -/
def closerFor?
    (table : TokenTable)
    (ids : IdSet) :
    Option (List Char) :=
  ((table.entries.filter
    (TokenEntry.canClose ids)).getLast?).map TokenEntry.key

/- The literal of an id. -/
def literal?
    (table : TokenTable)
    (id : Nat) :
    Option (List Char) :=
  table.ids.name? id

/- There is no literal. -/
def isEmpty
    (table : TokenTable) :
    Bool :=
  table.entries.isEmpty

/- The written form of what is searched for. -/
def pattern?
    (table : TokenTable) :
    Option (List Char) :=
  if table.isEmpty then none
  else some (Pattern.render table.literals)

end TokenTable

end Bracketry
