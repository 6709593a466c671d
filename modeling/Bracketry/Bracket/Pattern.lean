import Bracketry.Text.Case
import Bracketry.Text.Utf8
import Bracketry.Text.Word

/-
  Search for literals in a text.

  Literals are tried in their order at each place, and the
  first place with a match wins.  Case does not matter.  A
  literal that starts or ends with a letter, a number or an
  underscore matches only at a word boundary on that side,
  so that `end` is not found inside `append`.

  Key definitions include:
    * `Pattern.matchAt?`
    * `Pattern.firstAt?`
    * `Pattern.find?`
    * `Pattern.ranges`
    * `Pattern.render`
-/

------------------------------------------------------------
-- One Literal at One Place
------------------------------------------------------------

namespace Bracketry

namespace Pattern

/- Take a literal off the front of a text, in any case. -/
def strip? :
    List Char → List Char → Option (List Char × List Char)
  | [], text => some ([], text)
  | _ :: _, [] => none
  | l :: literal, c :: text =>
      if foldChar l = foldChar c then
        match strip? literal text with
        | some (found, rest) => some (c :: found, rest)
        | none => none
      else none

/- A character by which a literal asks for a boundary. -/
def asksBoundary
    (c : Char) :
    Bool :=
  isAlphanumeric c || c = '_'

/- There is a character, and it belongs to a word. -/
def inWord : Option Char → Bool
  | none => false
  | some c => isWordChar c

/- A word starts or ends between two characters. -/
def isBoundary
    (before after : Option Char) :
    Bool :=
  inWord before != inWord after

/- The literal may start behind the given character. -/
def startAllowed
    (before : Option Char)
    (literal text : List Char) :
    Bool :=
  match literal.head? with
  | none => true
  | some c =>
      !asksBoundary c || isBoundary before text.head?

/- The literal may end behind what was found of it. -/
def endAllowed
    (before : Option Char)
    (literal found rest : List Char) :
    Bool :=
  match literal.getLast? with
  | none => true
  | some c =>
      !asksBoundary c ||
        isBoundary (found.getLast?.or before) rest.head?

/-
  Match a literal at the front of a text that follows the
  given character.
-/
def matchAt?
    (before : Option Char)
    (text literal : List Char) :
    Option (List Char × List Char) :=
  if startAllowed before literal text then
    match strip? literal text with
    | some (found, rest) =>
        if endAllowed before literal found rest then
          some (found, rest)
        else none
    | none => none
  else none

/-
  What is taken off begins the text and folds as the literal
  does.
-/
theorem strip?_eq_some_iff
    {literal text found rest : List Char} :
    strip? literal text = some (found, rest) ↔
      text = found ++ rest ∧
        found.map foldChar = literal.map foldChar := by
  induction literal generalizing text found with
  | nil =>
      constructor
      · rintro ⟨⟩
        exact ⟨rfl, rfl⟩
      · rintro ⟨rfl, hFold⟩
        rcases List.map_eq_nil_iff.1 hFold with rfl
        rfl
  | cons l literal ih =>
      constructor
      · intro h
        cases text with
        | nil => cases h
        | cons c text =>
            unfold strip? at h
            split at h
            · rename_i hHead
              split at h
              · rename_i hRest
                cases h
                rcases ih.1 hRest with ⟨rfl, hTail⟩
                refine ⟨rfl, ?_⟩
                rw [List.map_cons, List.map_cons, hHead,
                  hTail]
              · cases h
            · cases h
      · rintro ⟨rfl, hFold⟩
        rcases List.map_eq_cons_iff.1 hFold with
          ⟨c, others, rfl, hHead, hTail⟩
        rw [List.cons_append, strip?, if_pos hHead.symm,
          ih.2 ⟨rfl, hTail⟩]

/- A match is as long as its literal, in characters. -/
theorem length_of_strip?
    {literal text found rest : List Char}
    (h : strip? literal text = some (found, rest)) :
    found.length = literal.length := by
  have hLength :=
    congrArg List.length (strip?_eq_some_iff.1 h).2
  rwa [List.length_map, List.length_map] at hLength

/- A match is what is taken off, where both ends allow it. -/
theorem matchAt?_eq_some
    {before : Option Char}
    {literal text found rest : List Char} :
    matchAt? before text literal = some (found, rest) ↔
      startAllowed before literal text = true ∧
        strip? literal text = some (found, rest) ∧
        endAllowed before literal found rest = true := by
  unfold matchAt?
  constructor
  · intro h
    split at h
    · rename_i hStart
      split at h
      · rename_i hStrip
        split at h
        · rename_i hEnd
          cases h
          exact ⟨hStart, hStrip, hEnd⟩
        · cases h
      · cases h
    · cases h
  · rintro ⟨hStart, hStrip, hEnd⟩
    rw [if_pos hStart, hStrip]
    exact if_pos hEnd

end Pattern

end Bracketry

------------------------------------------------------------
-- Search
------------------------------------------------------------

namespace Bracketry

namespace Pattern

/- The first of the literals that matches at the front. -/
def firstAt?
    (literals : List (List Char))
    (before : Option Char)
    (text : List Char) :
    Option (List Char × List Char) :=
  literals.findSome? (matchAt? before text)

/- A match begins a text and folds as one of the literals. -/
theorem exists_of_firstAt?
    {literals : List (List Char)}
    {before : Option Char}
    {text found rest : List Char}
    (h : firstAt? literals before text = some (found, rest)) :
    text = found ++ rest ∧
      ∃ literal ∈ literals,
        found.map foldChar = literal.map foldChar := by
  rcases List.exists_of_findSome?_eq_some h with
    ⟨literal, hLiteral, hMatch⟩
  rcases matchAt?_eq_some.1 hMatch with ⟨_, hStrip, _⟩
  rcases strip?_eq_some_iff.1 hStrip with ⟨hText, hFold⟩
  exact ⟨hText, literal, hLiteral, hFold⟩

/- A match, with the text in front of it. -/
structure Found where
  skipped : List Char
  found : List Char
deriving DecidableEq, Repr, Inhabited

/-
  The leftmost match in a text that follows the given
  character.
-/
def find?
    (literals : List (List Char))
    (before : Option Char) :
    List Char → Option Found
  | [] => none
  | c :: rest =>
      match firstAt? literals before (c :: rest) with
      | some (found, _) => some ⟨[], found⟩
      | none =>
          match find? literals (some c) rest with
          | some match_ =>
              some ⟨c :: match_.skipped, match_.found⟩
          | none => none

/-
  The byte ranges of all matches, each search going on
  behind the last match; `skip` characters still belong to
  it.
-/
def rangesFrom
    (literals : List (List Char))
    (before : Option Char)
    (offset skip : Nat) :
    List Char → List (Nat × Nat)
  | [] => []
  | c :: rest =>
      let next := offset + c.utf8Size
      if skip ≠ 0 then
        rangesFrom literals (some c) next (skip - 1) rest
      else
        match firstAt? literals before (c :: rest) with
        | some (found, _) =>
            (offset, offset + Text.byteSize found) ::
              rangesFrom literals (some c) next
                (found.length - 1) rest
        | none =>
            rangesFrom literals (some c) next 0 rest

/- The byte ranges of all matches in a text. -/
def ranges
    (literals : List (List Char))
    (text : List Char) :
    List (Nat × Nat) :=
  rangesFrom literals none 0 0 text

end Pattern

end Bracketry

------------------------------------------------------------
-- Written Form
------------------------------------------------------------

namespace Bracketry

namespace Pattern

/- The characters that have a meaning in a written form. -/
def special : List Char :=
  ['\\', '.', '+', '*', '?', '(', ')', '|', '[', ']',
    '\x7b', '\x7d', '^', '$', '#', '&', '-', '~']

/- A literal with its special characters escaped. -/
def escape
    (literal : List Char) :
    List Char :=
  literal.flatMap fun c =>
    if special.contains c then ['\\', c] else [c]

/- The mark of a word boundary, where one is asked for. -/
def boundaryMark : Option Char → List Char
  | none => []
  | some c => if asksBoundary c then ['\\', 'b'] else []

/- A literal with its boundaries. -/
def renderLiteral
    (literal : List Char) :
    List Char :=
  boundaryMark literal.head? ++ escape literal ++
    boundaryMark literal.getLast?

/- The literals with their boundaries, in their order. -/
def render
    (literals : List (List Char)) :
    List Char :=
  Text.join ['|'] (literals.map renderLiteral)

end Pattern

end Bracketry
