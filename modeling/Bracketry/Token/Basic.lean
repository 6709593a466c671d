import Bracketry.Bracket.Kind
import Bracketry.IdSet
import Bracketry.Length

/-
  Tokens of a text.

  A token is a bracket literal or a stretch of other text.
  The lengths of the tokens of a text add up to its length.

  Key definitions include:
    * `Bracket`
    * `Token`
-/

------------------------------------------------------------
-- Brackets in a Text
------------------------------------------------------------

namespace Bracketry

/-
  A bracket in a text.  An opening bracket has its own id;
  a closing bracket has the ids of all that it can close.
-/
structure Bracket where
  length : Length
  kind : BracketKind
  ids : IdSet
deriving DecidableEq, Inhabited

end Bracketry

------------------------------------------------------------
-- Tokens
------------------------------------------------------------

namespace Bracketry

/-
  A stretch of text, or a bracket together with the id of
  the opening bracket that it is grouped under.
-/
inductive Token where
  | text (length : Length)
  | bracket (leaf : Bracket) (id : Option Nat)
deriving DecidableEq, Inhabited

namespace Token

/- The length of the text of a token. -/
def length : Token → Length
  | .text length => length
  | .bracket leaf _ => leaf.length

/- The token is a bracket. -/
def isBracket : Token → Bool
  | .text _ => false
  | .bracket _ _ => true

end Token

end Bracketry
