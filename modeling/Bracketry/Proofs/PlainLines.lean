import Bracketry.Proofs.CharTrees
import Bracketry.Proofs.Margins
import Bracketry.Proofs.Sightings
import Bracketry.Proofs.Stretches

/-
  Lines that do not begin with a bracket.

  Where all brackets are symbols, a line that begins in a
  token begins with a bracket if the token is one, and with
  something else if it is text.  So text counts all lines that
  begin in it, a bracket counts none, and what is computed for
  a node is the least indentation of the lines that begin in
  it, but not with a bracket.

  Key definitions include:
    * `TokenTable.beginsPlain`
    * `Content.IsMeasured`, `Content.leastPlain`

  Main declarations:
    * `Content.IsMeasured.beginsPlain_eq`
    * `Node.IsAt.exists_brackets`
    * `Node.recalled_eq`
-/

------------------------------------------------------------
-- What Lines Begin With
------------------------------------------------------------

namespace Bracketry

open Measured

namespace BreakChar

/- The character that stands on a line, if one does. -/
def shown? : BreakChar → Option Char
  | .char c => if c = '\n' then none else some c
  | .carriage => none
  | .beyond => none

theorem head?_lineAt
    (start : List BreakChar) :
    (lineAt start).head? = start.head?.bind shown? := by
  cases start with
  | nil => rfl
  | cons char rest =>
      cases char with
      | carriage => rfl
      | beyond => rfl
      | char c =>
          rw [lineAt, List.head?_cons, Option.bind_some, shown?]
          split_ifs <;> rfl

/- A line begins with what is ahead where it starts. -/
theorem head?_split
    (text : List Char) :
    List.Forall₂
      (fun line start =>
        line.text.head? = start.head?.bind shown?)
      (Line.split text)
      (allStarts true pads (ofText text)) := by
  refine (text_split text).imp ?_
  intro line start hText
  rw [hText, head?_lineAt]

/- A start in a stretch is ahead of one of its characters. -/
theorem exists_of_mem_starts
    {begins : Bool}
    {part behind start : List BreakChar}
    (h : start ∈ starts begins behind part) :
    ∃ char ∈ part, start.head? = some char := by
  induction part generalizing begins with
  | nil => cases h
  | cons char rest ih =>
      rw [starts, List.mem_append] at h
      rcases h with hHere | hRest
      · cases begins
        · cases hHere
        · rcases List.mem_singleton.1 hHere with rfl
          exact ⟨char, List.mem_cons_self, rfl⟩
      · rcases ih hRest with ⟨other, hOther, hStart⟩
        exact ⟨other, List.mem_cons_of_mem char hOther, hStart⟩

/- What is like all starts of lines is like each of them. -/
theorem exists_start_of_mem
    {Like : Line → List BreakChar → Prop}
    {lines : List Line}
    {found : List (List BreakChar)}
    {line : Line}
    (h : List.Forall₂ Like lines found)
    (hLine : line ∈ lines) :
    ∃ start ∈ found, Like line start := by
  induction h with
  | nil => cases hLine
  | cons hHere _ ih =>
      rcases List.mem_cons.1 hLine with rfl | hRest
      · exact ⟨_, List.mem_cons_self, hHere⟩
      · rcases ih hRest with ⟨start, hStart, hLike⟩
        exact ⟨start, List.mem_cons_of_mem _ hStart, hLike⟩

end BreakChar

/- Short texts are small. -/
theorem Text.IsShort.isSmall
    {text : List Char}
    (h : Text.IsShort text) :
    IsSmall text := by
  intro before behind hSplit
  have hSmall :
      IsSmall (TextChar.ofText text ++ TextChar.pads 0) :=
    TextChar.isSmall_ofText h
  rw [extent_chars, ← TextChar.extent_ofText]
  refine hSmall (TextChar.ofText before)
    (TextChar.ofText behind ++ TextChar.pads 0) ?_
  rw [hSplit, TextChar.ofText_append, List.append_assoc]

namespace Content

variable {content : Content} {text : List Char}

/-
  A line that begins in a stretch of the text begins with a
  character of it, or ends there.
-/
theorem exists_of_mem_linesFrom
    {before part behind : List Char}
    {line : Line}
    (hLines : content.lines = Line.split text)
    (hText : text = before ++ (part ++ behind))
    (hLine :
      line ∈ content.linesFrom (Length.ofText before)
        (Length.ofText before + Length.ofText part)) :
    ∃ char : BreakChar,
      (∃ c ∈ part, char.textChar = .char c) ∧
        line.text.head? = char.shown? := by
  have hTextChars := BreakChar.map_textChar_ofText text
  rw [hText, TextChar.ofText, List.map_append, List.map_append,
    ← hText, List.map_eq_append_iff] at hTextChars
  rcases hTextChars with
    ⟨first, others, hSplit, hFirst, hOthers⟩
  rcases List.map_eq_append_iff.1 hOthers with
    ⟨middle, last, rfl, hMiddle, -⟩
  have hBefore : extent first = Length.ofText before := by
    rw [← BreakChar.extent_map_textChar, hFirst]
    exact TextChar.extent_ofText before
  have hPart : extent middle = Length.ofText part := by
    rw [← BreakChar.extent_map_textChar, hMiddle]
    exact TextChar.extent_ofText part
  rw [linesFrom, hLines, ← hPart, ← hBefore, ← extent_append]
    at hLine
  rcases BreakChar.exists_start_of_mem
      (BreakChar.forall₂_starts hSplit
        (BreakChar.head?_split text))
      hLine with
    ⟨start, hStart, hHead⟩
  rcases BreakChar.exists_of_mem_starts hStart with
    ⟨char, hChar, hAhead⟩
  have hTextChar : char.textChar ∈ part.map TextChar.char := by
    rw [← hMiddle]
    exact List.mem_map_of_mem hChar
  rcases List.mem_map.1 hTextChar with ⟨c, hChar, hSame⟩
  refine ⟨char, ⟨c, hChar, hSame.symm⟩, ?_⟩
  rw [hHead, hAhead, Option.bind_some]

end Content

end Bracketry

------------------------------------------------------------
-- Lines and Tokens
------------------------------------------------------------

namespace Bracketry

open Measured

/- The text does not begin with a bracket. -/
def TokenTable.beginsPlain
    (table : TokenTable)
    (text : List Char) :
    Bool :=
  text.head?.all fun c => (table.sign? c).isNone

/- The token stands at a place among some tokens. -/
def Token.StandsAt
    (tokens : List Token)
    (place : Position)
    (token : Token) :
    Prop :=
  ∃ before behind,
    tokens = before ++ token :: behind ∧
      Token.total before = place

namespace Content

/-
  The content is a short text whose brackets are symbols and
  whose margins are counts of columns.
-/
structure IsMeasured
    (table : TokenTable)
    (text : List Char)
    (content : Content) :
    Prop where
  symbolic : table.IsSymbolic
  solid : table.IsSolid
  lines : content.lines = Line.split text
  short : Text.IsShort text
  margins : content.FitsMargins

/-
  The least indentation of the lines between two places that
  do not begin with a bracket.
-/
def leastPlain
    (content : Content)
    (table : TokenTable)
    (start stop : Position) :
    Nat :=
  leastColumn
    ((content.linesFrom start stop).filterMap fun line =>
      if table.beginsPlain line.text then content.indent? line
      else none)

variable {table : TokenTable} {content : Content}
variable {text : List Char} {start middle stop : Position}

theorem leastPlain_self
    (content : Content)
    (table : TokenTable)
    (start : Position) :
    content.leastPlain table start start = noIndentation := by
  rw [leastPlain, linesFrom_self]
  rfl

theorem leastPlain_append
    (hStart : start ≤ middle)
    (hStop : middle ≤ stop) :
    content.leastPlain table start stop =
      min (content.leastPlain table start middle)
        (content.leastPlain table middle stop) := by
  rw [leastPlain, linesFrom_append content hStart hStop,
    List.filterMap_append, leastColumn_append]
  rfl

/- The stretch of the text that a token stands for. -/
theorem IsMeasured.exists_stretch
    {place : Position}
    {token : Token}
    (h : content.IsMeasured table text)
    (hToken : token.StandsAt (Scan.tokens table text) place) :
    ∃ before part behind,
      text = before ++ (part ++ behind) ∧
        Length.ofText before = place ∧
        Length.ofText part = token.length ∧
        Scan.Shows table before part behind token := by
  rcases hToken with ⟨left, right, hTokens, rfl⟩
  have hSpells :=
    Scan.spells_tokens h.solid h.symbolic.isFlat text
  rw [hTokens, spells_append] at hSpells
  rcases hSpells with ⟨before, more, hText, hLeft, hMore⟩
  rcases hMore with ⟨part, behind, rfl, _, hSize, hShows, _⟩
  rw [List.append_nil, List.nil_append] at hShows
  refine ⟨before, part, behind, hText, ?_, ?_, hShows⟩
  · rw [← extent_chars, hLeft.extent_eq]
  · rw [← extent_chars, hSize]

/-
  The lines that begin in a token begin with a bracket if it
  is one, and with something else if it is text.
-/
theorem IsMeasured.beginsPlain_eq
    {place : Position}
    {token : Token}
    {line : Line}
    (h : content.IsMeasured table text)
    (hToken : token.StandsAt (Scan.tokens table text) place)
    (hLine :
      line ∈ content.linesFrom place (place + token.length)) :
    table.beginsPlain line.text = !token.isBracket := by
  rcases h.exists_stretch hToken with
    ⟨before, part, behind, hText, rfl, hPart, hShows⟩
  rw [← hPart] at hLine
  rcases exists_of_mem_linesFrom h.lines hText hLine with
    ⟨char, ⟨c, hChar, hTextChar⟩, hHead⟩
  rw [TokenTable.beginsPlain, hHead]
  cases token with
  | text length =>
      have hNone := hShows.1.sign?_eq_none h.symbolic c hChar
      cases char with
      | char d =>
          rcases TextChar.char.inj hTextChar with rfl
          rw [BreakChar.shown?]
          split_ifs <;> simp [hNone, Token.isBracket]
      | carriage => rfl
      | beyond => rfl
  | bracket leaf id =>
      rcases Scan.exists_of_finds h.symbolic hShows with
        ⟨d, rfl, hSign⟩
      rcases List.mem_singleton.1 hChar with rfl
      have hSymbol := (h.symbolic.exists_of_sign? hSign).1
      have hFlat : ¬IsBreak c := hSymbol.2.2.2
      cases char with
      | char d =>
          rcases TextChar.char.inj hTextChar with rfl
          rw [BreakChar.shown?,
            if_neg fun hFeed => hFlat (.inl hFeed)]
          simp [hSign, Token.isBracket]
      | carriage =>
          exact absurd
            (.inr (TextChar.char.inj hTextChar).symm) hFlat
      | beyond => cases hTextChar

/- A bracket is one character. -/
theorem IsMeasured.length_bracket
    {place : Position}
    {token : Token}
    (h : content.IsMeasured table text)
    (hToken : token.StandsAt (Scan.tokens table text) place)
    (hBracket : token.isBracket = true) :
    token.length = ⟨0, 1⟩ := by
  rcases h.exists_stretch hToken with
    ⟨before, part, behind, _, _, _, hShows⟩
  cases token with
  | text length => cases hBracket
  | bracket leaf id =>
      rcases Scan.exists_of_finds h.symbolic hShows with
        ⟨c, _, hSign⟩
      exact (h.symbolic.exists_of_sign? hSign).2.1

/- A token counts all lines that begin in it, or none. -/
theorem IsMeasured.leastPlain_token
    {place : Position}
    {token : Token}
    (h : content.IsMeasured table text)
    (hToken : token.StandsAt (Scan.tokens table text) place) :
    content.leastPlain table place (place + token.length) =
      if token.isBracket then noIndentation
      else
        leastColumn
          ((content.linesFrom place
            (place + token.length)).filterMap
              content.indent?) := by
  have hSame :
      (content.linesFrom place
          (place + token.length)).filterMap
        (fun line =>
          if table.beginsPlain line.text then
            content.indent? line
          else none) =
        (content.linesFrom place
          (place + token.length)).filterMap
          (fun line =>
            if !token.isBracket then content.indent? line
            else none) := by
    apply List.filterMap_congr
    intro line hLine
    rw [h.beginsPlain_eq hToken hLine]
  rw [leastPlain, hSame]
  cases token.isBracket with
  | false => rfl
  | true => exact congrArg leastColumn (List.filterMap_none _)

/- A bracket counts no line. -/
theorem IsMeasured.leastPlain_bracket
    {place : Position}
    {token : Token}
    (h : content.IsMeasured table text)
    (hToken : token.StandsAt (Scan.tokens table text) place)
    (hBracket : token.isBracket = true) :
    content.leastPlain table place (place + token.length) =
      noIndentation := by
  rw [h.leastPlain_token hToken, if_pos hBracket]

/- Text counts all lines that begin in it. -/
theorem IsMeasured.textIndentation_eq
    {place : Position}
    {token : Token}
    (h : content.IsMeasured table text)
    (hToken : token.StandsAt (Scan.tokens table text) place)
    (hText : token.isBracket = false) :
    Node.textIndentation content place token.length =
      .ok (content.leastPlain table place
        (place + token.length)) := by
  have hAll := h.leastPlain_token hToken
  rw [hText] at hAll
  rcases h.exists_stretch hToken with
    ⟨before, part, behind, hSplit, rfl, hPart, -⟩
  have hSmall := h.short.isSmall
  have hMax : maxCount = 2 ^ 32 - 1 := rfl
  have hBefore := hSmall before (part ++ behind) hSplit
  have hStop :=
    hSmall.fitsFrom (before ++ part) behind (by simp [hSplit])
  rw [extent_chars] at hBefore
  rw [zero_add, extent_chars, Length.ofText_append, hPart]
    at hStop
  have hCounted : content.lines.length < countLimit := by
    rw [h.lines]
    exact h.short.areReadable.1
  rw [hAll]
  exact Content.textIndentation_eq hCounted h.margins
    (by omega) hStop

end Content

end Bracketry

------------------------------------------------------------
-- Tokens of Nodes
------------------------------------------------------------

namespace Bracketry

namespace Node

variable {kept : Forest Token → Prop} {tokens : List Token}
variable {start : Position}

/- Nodes in a row stand where they are placed. -/
theorem AllAt.placed
    {nodes : List Node}
    (h : AllAt kept tokens start nodes) :
    ∀ row ∈ placed start nodes,
      row.2.IsAt kept tokens row.1 := by
  induction nodes generalizing start with
  | nil => exact List.forall_mem_nil _
  | cons node rest ih =>
      rw [Node.placed, List.forall_mem_cons]
      exact ⟨h.1, ih h.2⟩

/- A tree stands at the start of its own tokens. -/
theorem Shows.isAt
    {node : Node}
    {forest : Forest Token}
    (h : node.Shows kept forest) :
    node.IsAt kept forest.leaves 0 :=
  ⟨[], forest.leaves, [], by simp, rfl, h.stands.1,
    h.leaves_ne_nil, .inr ⟨forest, rfl, h⟩⟩

/- What is inside a pair stands behind the opening bracket. -/
theorem IsAt.child
    {key : Option Nat}
    {length : Length}
    {missing : IdSet}
    {opener : Bracket}
    {part : Node}
    {closing : Option Node}
    (hInherited : Forest.IsInherited kept)
    (h :
      (Node.pair key length missing (.bracket opener)
        (some part) closing).IsAt kept tokens start) :
    part.IsAt kept tokens (start + opener.length) :=
  (h.children hInherited).1.2.1

/- The items of a list stand where they are placed. -/
theorem IsAt.items
    {key : Option Nat}
    {height : Nat}
    {length : Length}
    {missing : IdSet}
    {items : List Node}
    (hInherited : Forest.IsInherited kept)
    (h :
      (Node.list key height length missing items).IsAt kept
        tokens start) :
    ∀ row ∈ placed start items,
      row.2.IsAt kept tokens row.1 :=
  (h.children hInherited).1.placed

/- All but brackets of pairs stand for forests. -/
theorem IsAt.exists_forest
    {node : Node}
    (hOther : ¬node.IsBracket)
    (h : node.IsAt kept tokens start) :
    ∃ before behind, ∃ forest : Forest Token,
      tokens = before ++ (forest.leaves ++ behind) ∧
        Token.total before = start ∧ node.Shows kept forest := by
  rcases h with
    ⟨before, own, behind, hTokens, hStart, _, _, hNode⟩
  rcases hNode.resolve_left hOther with ⟨forest, rfl, hShows⟩
  exact ⟨before, behind, forest, hTokens, hStart, hShows⟩

/- Text stands for a token of text. -/
theorem IsAt.exists_text
    {key : Option Nat}
    {length : Length}
    (h :
      (Node.text key length).IsAt Forest.IsKept tokens start) :
    ∃ token : Token,
      token.StandsAt tokens start ∧
        token.isBracket = false ∧ token.length = length := by
  rcases h.exists_forest (by rintro ⟨leaf, ⟨⟩⟩) with
    ⟨before, behind, forest, hTokens, hStart, hShows⟩
  rcases Forest.exists_of_shape_eq_leaf hShows.shape with
    ⟨token, rfl, hSign⟩
  refine ⟨token, ⟨before, behind, hTokens, hStart⟩, ?_,
    congrArg Sign.length hSign⟩
  rcases hShows.kept with ⟨⟨hClosing, _⟩, hOpening, _⟩
  cases token with
  | text length => rfl
  | bracket leaf id =>
      simp only [token_self, Token.isClosing,
        Token.isOpening] at hClosing hOpening
      rw [hOpening] at hClosing
      cases hClosing

/- What closes nothing stands for a bracket. -/
theorem IsAt.exists_stray
    {key : Option Nat}
    {ids : IdSet}
    {length : Length}
    (h :
      (Node.invalid key ids length).IsAt Forest.IsKept tokens
        start) :
    ∃ token : Token,
      token.StandsAt tokens start ∧
        token.isBracket = true ∧ token.length = length := by
  rcases h.exists_forest (by rintro ⟨leaf, ⟨⟩⟩) with
    ⟨before, behind, forest, hTokens, hStart, hShows⟩
  rcases Forest.exists_of_shape_eq_stray hShows.shape with
    ⟨token, rfl, hSign⟩
  refine ⟨token, ⟨before, behind, hTokens, hStart⟩, ?_,
    congrArg Sign.length hSign⟩
  have hClosing := hShows.kept.1.1
  cases token with
  | text length => cases hClosing
  | bracket leaf id => rfl

/- The brackets of a pair stand for brackets. -/
theorem IsAt.exists_brackets
    {key : Option Nat}
    {length : Length}
    {missing : IdSet}
    {opener : Bracket}
    {child : Option Node}
    {closer : Option Bracket}
    (h :
      (Node.pair key length missing (.bracket opener) child
        (closer.map .bracket)).IsAt Forest.IsKept tokens
          start) :
    (∃ token : Token,
      token.StandsAt tokens start ∧
        token.isBracket = true ∧
          token.length = opener.length) ∧
      ∀ leaf, closer = some leaf →
        ∃ token : Token,
          token.StandsAt tokens
              (start + opener.length + partLength child) ∧
            token.isBracket = true ∧
              token.length = leaf.length := by
  have hIsBracket :
      ∀ token : Token,
        token.isOpening = true ∨ token.isClosing = true →
          token.isBracket = true := by
    rintro (length | ⟨leaf, id⟩) h
    · rcases h with h | h <;> cases h
    · rfl
  rcases h.exists_forest (by rintro ⟨leaf, ⟨⟩⟩) with
    ⟨before, behind, forest, hTokens, hStart, hShows⟩
  rcases hShows with ⟨hProper, hShape, hMatched, _⟩
  rw [shape_pair] at hShape
  rcases Forest.exists_of_shape_eq_pair hShape with
    ⟨first, inside, last, rfl, hFirst, hInside, hLast⟩
  rcases hMatched with ⟨hOpening, _, _, hCloses, _⟩
  have hLength : first.length = opener.length := by
    rw [← Token.length_sign, hFirst]
    rfl
  rw [Forest.leaves, Forest.leaves, List.append_nil] at hTokens
  refine ⟨⟨first, ⟨before, _, hTokens, hStart⟩,
    hIsBracket first (.inl hOpening), hLength⟩, ?_⟩
  rintro leaf rfl
  rcases Option.map_eq_some_iff.1 hLast with
    ⟨token, rfl, hToken⟩
  have hTotal : inside.total = partLength child := by
    cases child with
    | none =>
        rcases Forest.shape_eq_nil.1 hInside with rfl
        rfl
    | some part =>
        have hPart :=
          (isProper_pair.1 hProper).2.2.2.2 part rfl
        exact (length_eq_total hPart hInside.symm).symm
  refine ⟨token, ⟨before ++ (first :: inside.leaves), behind,
    ?_, ?_⟩, hIsBracket token (.inr hCloses.1), ?_⟩
  · rw [hTokens]
    simp
  · rw [Token.total_append, Token.total_cons, hStart, hLength,
      ← hTotal, Forest.total, add_assoc]
  · rw [← Token.length_sign, hToken]
    rfl

end Node

end Bracketry

------------------------------------------------------------
-- What Is Computed for a Node
------------------------------------------------------------

namespace Bracketry

namespace Node

variable {table : TokenTable} {content : Content}
variable {text : List Char} {start : Position}

/- What is computed for nodes in a row. -/
theorem recalledOfAll_eq
    {items : List Node}
    (hItems :
      ∀ row ∈ placed start items,
        LiesAt row.1 row.2 ∧
          recalled content .empty row.1 row.2 =
            .ok (content.leastPlain table row.1
              (row.1 + row.2.length))) :
    recalledOfAll content .empty start items =
      .ok (content.leastPlain table start
        (start + (items.map Node.length).sum)) := by
  induction items generalizing start with
  | nil =>
      rw [List.map_nil, List.sum_nil, add_zero,
        Content.leastPlain_self]
      rfl
  | cons item rest ih =>
      rw [placed, List.forall_mem_cons] at hItems
      rcases hItems with ⟨⟨hItem, hValue⟩, hRest⟩
      rw [recalledOfAll, hValue, Length.plus_eq_ok hItem.stop]
      simp only [bind, Except.bind, ih hRest]
      rw [List.map_cons, List.sum_cons, ← add_assoc,
        ← Content.leastPlain_append
          (Length.le_add_right start item.length)
          (Length.le_add_right _ _)]
      rfl

variable {key : Option Nat} {length : Length}
variable {missing : IdSet} {opener : Bracket}
variable {child : Option Node} {closer : Option Bracket}

/- The brackets of a pair count no lines. -/
theorem leastPlain_pair
    (h : content.IsMeasured table text)
    (hLength :
      length =
        opener.length +
          (partLength child +
            partLength (closer.map .bracket)))
    (hStands :
      (Node.pair key length missing (.bracket opener) child
        (closer.map .bracket)).IsAt Forest.IsKept
          (Scan.tokens table text) start) :
    content.leastPlain table start (start + length) =
      content.leastPlain table (start + opener.length)
        (start + opener.length + partLength child) := by
  rcases hStands.exists_brackets with
    ⟨⟨first, hFirst, hOpens, hSize⟩, hLast⟩
  have hBefore := h.leastPlain_bracket hFirst hOpens
  rw [hSize] at hBefore
  have hBehind :
      content.leastPlain table
          (start + opener.length + partLength child)
          (start + opener.length + partLength child +
            partLength (closer.map .bracket)) =
        noIndentation := by
    cases closer with
    | none =>
        rw [Option.map_none, partLength, add_zero]
        exact Content.leastPlain_self _ _ _
    | some leaf =>
        rcases hLast leaf rfl with
          ⟨last, hPlace, hCloses, hSame⟩
        have hValue := h.leastPlain_bracket hPlace hCloses
        rwa [hSame] at hValue
  have hLe :
      ∀ place stop,
        content.leastPlain table place stop ≤ noIndentation :=
    fun _ _ => leastColumn_le _
  rw [stop_of_pair start hLength,
    Content.leastPlain_append
      (Length.le_add_right start opener.length)
      ((Length.le_add_right _ _).trans
        (Length.le_add_right _ _)),
    Content.leastPlain_append
      (Length.le_add_right _ (partLength child))
      (Length.le_add_right _ _),
    hBefore, hBehind, Nat.min_eq_left (hLe _ _),
    Nat.min_eq_right (hLe _ _)]

/- What is computed for a pair is that of what is inside. -/
theorem recalled_pair
    (closing : Option Node)
    (hMiddle : (start + opener.length).Fits)
    (hChild :
      ∀ part, child = some part →
        recalled content .empty (start + opener.length) part =
          .ok (content.leastPlain table
            (start + opener.length)
            (start + opener.length + part.length))) :
    recalled content .empty start
        (.pair key length missing (.bracket opener) child
          closing) =
      .ok (content.leastPlain table (start + opener.length)
        (start + opener.length + partLength child)) := by
  cases child with
  | none =>
      rw [partLength, add_zero, Content.leastPlain_self]
      rfl
  | some part =>
      have hOpener :
          (Node.bracket opener).length = opener.length :=
        rfl
      rw [recalled, hOpener, Length.plus_eq_ok hMiddle]
      exact hChild part rfl

/-
  What is computed for a node is the least indentation of the
  lines that begin in it, but not with a bracket.  The
  induction is on the node: text counts its lines, the
  brackets of a pair count none, and a list has the lines of
  its items.
-/
theorem recalled_eq
    {node : Node}
    (h : content.IsMeasured table text)
    (hLies : LiesAt start node)
    (hStands :
      node.IsAt Forest.IsKept (Scan.tokens table text) start) :
    recalled content .empty start node =
      .ok (content.leastPlain table start
        (start + node.length)) := by
  induction hLies with
  | text key hLength hStop =>
      rcases hStands.exists_text with
        ⟨token, hToken, hText, rfl⟩
      exact h.textIndentation_eq hToken hText
  | stray key ids hLength hStop =>
      rcases hStands.exists_stray with
        ⟨token, hToken, hBracket, rfl⟩
      rw [Node.length, h.leastPlain_bracket hToken hBracket]
      rfl
  | pair key missing hOpener hMiddle hChild hCloser hLength
      hStop ih =>
      rw [Node.length, leastPlain_pair h hLength hStands]
      refine recalled_pair _ hMiddle ?_
      rintro part rfl
      exact ih part rfl
        (hStands.child Forest.isInherited_isKept)
  | list key height missing hSome hItems hLength hStop ih =>
      have hParts :=
        hStands.items Forest.isInherited_isKept
      rw [Node.length, hLength, recalled_list]
      exact recalledOfAll_eq fun row hRow =>
        ⟨hItems row hRow, ih row hRow (hParts row hRow)⟩

end Node

end Bracketry
