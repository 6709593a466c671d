import Bracketry.Command.Arguments
import Bracketry.Session
import Bracketry.Settings.Basic

/-
  What the command line prints about a document.

  Each pair or bracket has a line.  A pair that is not
  closed says so, and a bracket that closes nothing is
  marked.

  Key definitions include:
    * `Report.pairLine`, `Report.bracketLine`
    * `Report.ofQuestion`
    * `Report.ofDocument`
-/

------------------------------------------------------------
-- Lines
------------------------------------------------------------

namespace Bracketry

namespace Report

/- A closing range, or the word for none. -/
def closing : Option Range → List Char
  | some range => range.render.toList
  | none => "unclosed".toList

/- The line of a pair. -/
def pairLine
    (pair : PairInfo) :
    List Char :=
  let indentation :=
    match pair.minIndentation with
    | some columns => toString columns
    | none => "-"
  pair.opening.literal ++ [' '] ++
    pair.openingRange.render.toList ++ [' '] ++
    closing pair.closingRange ++ " level=".toList ++
    (toString pair.level).toList ++ " indent=".toList ++
    indentation.toList ++ ['\n']

/- The line of a bracket. -/
def bracketLine
    (bracket : BracketInfo) :
    List Char :=
  let literal :=
    match bracket.kind with
    | some kind => kind.literal
    | none => ['?']
  let mark := if bracket.isInvalid then " invalid" else ""
  literal ++ [' '] ++ bracket.range.render.toList ++
    " level=".toList ++ (toString bracket.level).toList ++
    mark.toList ++ ['\n']

/- The line for the pair at a position. -/
def partnerLine
    (position : Position) :
    Option BracketMatch → List Char
  | some found =>
      found.opening.render.toList ++ [' '] ++
        closing found.closing ++ ['\n']
  | none =>
      "no bracket at ".toList ++
        position.renderPosition.toList ++ ['\n']

end Report

end Bracketry

------------------------------------------------------------
-- Reports
------------------------------------------------------------

namespace Bracketry

namespace Report

/- What is printed for a question. -/
def ofQuestion
    (session : Session) :
    Question → Checked (List Char)
  | .pairs => do
      let (pairs, _) ←
        session.index.pairs session.liveVersion
          session.fullRange true
      return pairs.flatMap pairLine
  | .brackets => do
      let (brackets, _) ←
        session.index.brackets session.liveVersion
          ⟨session.fullRange, false⟩
      return brackets.flatMap bracketLine
  | .partner position => do
      let (found, _) ←
        session.index.matchAt? session.liveVersion position
      return partnerLine position found

/- Make one replacement and bring the index up to date. -/
def applyEdit
    (session : Session)
    (edit : Replacement) :
    Checked Session := do
  let session ←
    session.applyEdit edit.start edit.stop edit.text
  session.flush

/- What is printed about a document after some edits. -/
def ofDocument
    (settings : Settings)
    (document : Document)
    (edits : List Replacement)
    (question : Question) :
    Checked (List Char) := do
  let brackets := Brackets.ofDeclaration settings.declaration
  let session ←
    Session.ofDocument (TokenTable.ofBrackets brackets)
      (document.withTabSize settings.tabSize)
  let session ← edits.foldlM applyEdit session
  ofQuestion session question

end Report

end Bracketry
