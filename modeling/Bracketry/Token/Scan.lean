import Bracketry.Token.Table

/-
  The tokens of a whole text.

  One pass over the text finds literals and line breaks.
  Every literal counts, wherever it stands.  What lies
  between two brackets is one text token.

  Key definitions include:
    * `Scan.tokens`
    * `Scan.length`
-/

------------------------------------------------------------
-- One Pass
------------------------------------------------------------

namespace Bracketry

namespace Scan

/- The line breaks, searched for behind all literals. -/
def lineBreaks : List (List Char) :=
  [['\r', '\n'], ['\n']]

/- What the pass searches for. -/
def searched
    (table : TokenTable) :
    List (List Char) :=
  table.literals ++ lineBreaks

/- A text token, unless it has no length. -/
def flushText
    (pending : Length) :
    List Token :=
  if pending = 0 then [] else [.text pending]

/-
  The tokens from a place on.  `pending` is the length of
  the text since the last bracket; `skip` characters still
  belong to the last match.
-/
def tokensFrom
    (table : TokenTable)
    (before : Option Char)
    (pending : Length)
    (skip : Nat) :
    List Char → List Token
  | [] => flushText pending
  | c :: rest =>
      if skip ≠ 0 then
        tokensFrom table (some c) pending (skip - 1) rest
      else
        match
          Pattern.firstAt? (searched table) before
            (c :: rest) with
        | none =>
            tokensFrom table (some c)
              (pending + ⟨0, c.utf8Size⟩) 0 rest
        | some (found, _) =>
            let skip := found.length - 1
            if lineBreaks.contains found then
              tokensFrom table (some c) (pending + ⟨1, 0⟩)
                skip rest
            else
              match table.tokenOfMatch? found with
              | none =>
                  tokensFrom table (some c)
                    (pending + ⟨0, Text.byteSize found⟩)
                    skip rest
              | some token =>
                  flushText pending ++
                    token ::
                      tokensFrom table (some c) 0 skip rest

/- The tokens of a text. -/
def tokens
    (table : TokenTable)
    (text : List Char) :
    List Token :=
  tokensFrom table none 0 0 text

/- The length of tokens together. -/
def length
    (tokens : List Token) :
    Length :=
  tokens.foldl (fun sum token => sum + token.length) 0

end Scan

end Bracketry
