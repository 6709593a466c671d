import Bracketry.Text.Quoted

/-
  Bracket literals and the partners that they pair with.

  A language declares pairs of literals.  `Brackets` holds
  the opening and the closing kinds that follow from them,
  each in the order of first mention.  Pairs with an empty
  literal are left out.  A second list marks the pairs that
  take part in colouring; its pairs are brackets too.

  Key definitions include:
    * `OpeningKind`, `ClosingKind`, `BracketKind`
    * `BracketPair`, `BracketDeclaration`
    * `Brackets.ofDeclaration`
    * `Brackets.kind?`
-/

------------------------------------------------------------
-- Kinds
------------------------------------------------------------

namespace Bracketry

/- An opening literal and the literals that can close it. -/
structure OpeningKind where
  literal : List Char
  closers : List (List Char)
deriving DecidableEq, Repr, Inhabited

/-
  A closing literal, the literals that it can close, and
  those of them that it closes as a coloured pair.
-/
structure ClosingKind where
  literal : List Char
  openers : List (List Char)
  colorized : List (List Char)
deriving DecidableEq, Repr, Inhabited

namespace ClosingKind

/- The closing literal can close the opening one. -/
def closes
    (closing : ClosingKind)
    (opening : OpeningKind) :
    Bool :=
  closing.openers.contains opening.literal

/- The two literals are a coloured pair. -/
def closesColorized
    (closing : ClosingKind)
    (opening : OpeningKind) :
    Bool :=
  closing.colorized.contains opening.literal

end ClosingKind

/- One side of a bracket pair. -/
inductive BracketKind where
  | opening (kind : OpeningKind)
  | closing (kind : ClosingKind)
deriving DecidableEq, Repr, Inhabited

namespace BracketKind

/- The literal as it was declared. -/
def literal : BracketKind → List Char
  | .opening kind => kind.literal
  | .closing kind => kind.literal

/- The kind is an opening one. -/
def isOpening : BracketKind → Bool
  | .opening _ => true
  | .closing _ => false

/- The opening kind, if it is one. -/
def asOpening? : BracketKind → Option OpeningKind
  | .opening kind => some kind
  | .closing _ => none

/- The closing kind, if it is one. -/
def asClosing? : BracketKind → Option ClosingKind
  | .opening _ => none
  | .closing kind => some kind

/- A kind written for a reader. -/
def render
    (kind : BracketKind) :
    String :=
  let name :=
    if kind.isOpening then "Opening" else "Closing"
  name ++ "(" ++ String.ofList (Text.quoted kind.literal) ++
    ")"

end BracketKind

end Bracketry

------------------------------------------------------------
-- Declarations
------------------------------------------------------------

namespace Bracketry

/- An opening and a closing literal. -/
structure BracketPair where
  opener : List Char
  closer : List Char
deriving DecidableEq, Repr, Inhabited

/- Both literals of the pair have characters. -/
def BracketPair.isValid
    (pair : BracketPair) :
    Bool :=
  !pair.opener.isEmpty && !pair.closer.isEmpty

/- The pair of angle brackets. -/
def BracketPair.angle : BracketPair :=
  ⟨['<'], ['>']⟩

/-
  The pairs that a language declares.  Without a list of
  coloured pairs, all but the angle brackets are coloured.
-/
structure BracketDeclaration where
  pairs : List BracketPair
  colorized : Option (List BracketPair)
deriving DecidableEq, Repr, Inhabited

namespace BracketDeclaration

/- The declared pairs with two literals. -/
def validPairs
    (declaration : BracketDeclaration) :
    List BracketPair :=
  declaration.pairs.filter BracketPair.isValid

/- The coloured pairs with two literals. -/
def colorizedPairs
    (declaration : BracketDeclaration) :
    List BracketPair :=
  match declaration.colorized with
  | some pairs => pairs.filter BracketPair.isValid
  | none =>
      declaration.validPairs.filter
        (· != BracketPair.angle)

end BracketDeclaration

end Bracketry

------------------------------------------------------------
-- Linking Pairs
------------------------------------------------------------

namespace Bracketry

/- A list with one more literal, unless it has it. -/
def addLiteral
    (literals : List (List Char))
    (literal : List Char) :
    List (List Char) :=
  if literals.contains literal then literals
  else literals ++ [literal]

/- Enter the closing literal of a pair under its opening. -/
def linkOpening
    (pair : BracketPair) :
    List OpeningKind → List OpeningKind
  | [] => [⟨pair.opener, [pair.closer]⟩]
  | kind :: rest =>
      if kind.literal = pair.opener then
        ⟨kind.literal, addLiteral kind.closers pair.closer⟩
          :: rest
      else kind :: linkOpening pair rest

/- Enter the opening literal of a pair under its closing. -/
def linkClosing
    (pair : BracketPair)
    (colorized : Bool) :
    List ClosingKind → List ClosingKind
  | [] =>
      [{ literal := pair.closer
         openers := [pair.opener]
         colorized := if colorized then [pair.opener]
           else [] }]
  | kind :: rest =>
      if kind.literal = pair.closer then
        { literal := kind.literal
          openers := addLiteral kind.openers pair.opener
          colorized :=
            if colorized then
              addLiteral kind.colorized pair.opener
            else kind.colorized } :: rest
      else kind :: linkClosing pair colorized rest

/- The kinds of a language, in the order of first mention. -/
structure Brackets where
  openings : List OpeningKind
  closings : List ClosingKind
deriving DecidableEq, Repr, Inhabited

namespace Brackets

/- No kinds. -/
def empty : Brackets :=
  ⟨[], []⟩

/- Enter a pair. -/
def link
    (colorized : Bool)
    (brackets : Brackets)
    (pair : BracketPair) :
    Brackets :=
  ⟨linkOpening pair brackets.openings,
    linkClosing pair colorized brackets.closings⟩

/- The kinds that follow from declared pairs. -/
def ofDeclaration
    (declaration : BracketDeclaration) :
    Brackets :=
  declaration.colorizedPairs.foldl (link true)
    (declaration.validPairs.foldl (link false) empty)

/- The opening kind of a literal. -/
def opening?
    (brackets : Brackets)
    (literal : List Char) :
    Option OpeningKind :=
  brackets.openings.find? fun kind => kind.literal == literal

/- The closing kind of a literal. -/
def closing?
    (brackets : Brackets)
    (literal : List Char) :
    Option ClosingKind :=
  brackets.closings.find? fun kind => kind.literal == literal

/- The kind of a literal; an opening kind goes first. -/
def kind?
    (brackets : Brackets)
    (literal : List Char) :
    Option BracketKind :=
  match brackets.opening? literal with
  | some kind => some (.opening kind)
  | none => (brackets.closing? literal).map .closing

/- There is no kind. -/
def isEmpty
    (brackets : Brackets) :
    Bool :=
  brackets.openings.isEmpty && brackets.closings.isEmpty

end Brackets

end Bracketry
