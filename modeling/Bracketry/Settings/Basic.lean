import Bracketry.Bracket.Kind
import Bracketry.Fault

/-
  The settings of a user.

  They name the bracket pairs, the pairs that are coloured,
  the width of a tab, and which messages are logged.  Every
  literal has to be a text within one line.

  Key definitions include:
    * `Settings`, `Settings.standard`
    * `PairDefect`, `PairDefect.message`
    * `Settings.firstDefect?`
    * `Settings.declaration`
-/

------------------------------------------------------------
-- Settings
------------------------------------------------------------

namespace Bracketry

/-
  The settings of a user.  `colorized` is none when nothing
  was said about colours.
-/
structure Settings where
  tabSize : Nat
  logFilter : Option (List Char)
  brackets : List BracketPair
  colorized : Option (List BracketPair)
deriving DecidableEq, Repr, Inhabited

namespace Settings

/- The settings of a user who has made none. -/
def standard : Settings where
  tabSize := 4
  logFilter := none
  brackets :=
    [⟨['('], [')']⟩, ⟨['['], [']']⟩,
      ⟨['\x7b'], ['\x7d']⟩]
  colorized := none

/- The brackets that the settings declare. -/
def declaration
    (settings : Settings) :
    BracketDeclaration :=
  ⟨settings.brackets, settings.colorized⟩

end Settings

end Bracketry

------------------------------------------------------------
-- Defects
------------------------------------------------------------

namespace Bracketry

/- What can be wrong with a pair. -/
inductive PairDefect where
  /- One of its literals is empty. -/
  | emptyLiteral (pair : BracketPair)
  /- One of its literals goes over a line break. -/
  | lineBreak (pair : BracketPair)
deriving DecidableEq, Repr, Inhabited

namespace PairDefect

/- The two literals of a pair, for a reader. -/
def renderPair
    (pair : BracketPair) :
    List Char :=
  Text.quoted pair.opener ++ [' ', '/', ' '] ++
    Text.quoted pair.closer

/- The wording of a defect. -/
def message : PairDefect → List Char
  | .emptyLiteral pair =>
      "empty literal in ".toList ++ renderPair pair
  | .lineBreak pair =>
      "line break in ".toList ++ renderPair pair

/- What is wrong with a pair. -/
def ofPair?
    (pair : BracketPair) :
    Option PairDefect :=
  if pair.opener = [] ∨ pair.closer = [] then
    some (.emptyLiteral pair)
  else if pair.opener.contains '\n' ∨
      pair.closer.contains '\n' then
    some (.lineBreak pair)
  else none

end PairDefect

namespace Settings

/- Every pair of the settings. -/
def pairs
    (settings : Settings) :
    List BracketPair :=
  settings.brackets ++ settings.colorized.getD []

/- The first defect of a pair. -/
def firstDefect?
    (settings : Settings) :
    Option PairDefect :=
  settings.pairs.findSome? PairDefect.ofPair?

/- No defect is found exactly when every pair has none. -/
theorem firstDefect?_eq_none_iff
    (settings : Settings) :
    settings.firstDefect? = none ↔
      ∀ pair ∈ settings.pairs,
        PairDefect.ofPair? pair = none := by
  simp [firstDefect?, List.findSome?_eq_none_iff]

end Settings

end Bracketry
