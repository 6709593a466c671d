import Bracketry.Proofs.Mapping
import Bracketry.Proofs.Walking

/-
  Reading a text by lines, with the tree of an older text.

  A script tells where a reader of lines may stand in a
  text, and which pieces of the text a token stands for.
  Tokens spell a stretch of text when they stand for its
  pieces one after the other.  What an old tree spelled in
  its text is spelled by the same tokens in the new text, if
  no edit touches the stretch; then a parse with the old
  tree reads the new text as a parse without it would.

  Key definitions include:
    * `Spells`, `IsLocal`
    * `Script`
    * `Script.IsSound`, `Script.Keeps`
    * `Script.feed`

  Main declarations:
    * `Script.isSound_feed`
    * `Script.parseDocument_spells`
-/

------------------------------------------------------------
-- Spelling
------------------------------------------------------------

namespace Bracketry

open Measured

variable {α : Type} [Measured α]

/-
  The tokens stand for the pieces of a stretch, in order.
  `Shows` tells that a token stands for some pieces, given
  what is before and behind them.
-/
def Spells
    (Shows : List α → List α → List α → Token → Prop) :
    List α → List Token → List α → List α → Prop
  | _, [], part, _ => part = []
  | before, token :: rest, part, behind =>
      ∃ first more,
        part = first ++ more ∧ first ≠ [] ∧
          extent first = token.length ∧
          Shows before first (more ++ behind) token ∧
          Spells Shows (before ++ first) rest more behind

variable {Shows : List α → List α → List α → Token → Prop}

theorem spells_append
    {before part behind : List α}
    {tokens others : List Token} :
    Spells Shows before (tokens ++ others) part behind ↔
      ∃ first more,
        part = first ++ more ∧
          Spells Shows before tokens first
            (more ++ behind) ∧
          Spells Shows (before ++ first) others more
            behind := by
  induction tokens generalizing before part with
  | nil => simp [Spells]
  | cons token rest ih =>
      rw [List.cons_append]
      constructor
      · rintro ⟨first, more, rfl, hSome, hSize, hShows, hMore⟩
        rcases ih.1 hMore with
          ⟨second, last, rfl, hSecond, hLast⟩
        refine ⟨first ++ second, last, by simp,
          ⟨first, second, rfl, hSome, hSize, ?_, hSecond⟩, ?_⟩
        · rwa [List.append_assoc] at hShows
        · rwa [List.append_assoc] at hLast
      · rintro ⟨_, last, rfl,
          ⟨first, second, rfl, hSome, hSize, hShows,
            hSecond⟩, hLast⟩
        refine ⟨first, second ++ last, by simp, hSome, hSize,
          ?_, ih.2 ⟨second, last, rfl, hSecond, ?_⟩⟩
        · rwa [List.append_assoc]
        · rwa [List.append_assoc]

/- A stretch is as long as its tokens. -/
theorem Spells.extent_eq
    {before part behind : List α}
    {tokens : List Token}
    (h : Spells Shows before tokens part behind) :
    extent part = Token.total tokens := by
  induction tokens generalizing before part with
  | nil =>
      subst h
      rfl
  | cons token rest ih =>
      rcases h with ⟨first, more, rfl, _, hSize, _, hMore⟩
      rw [extent_append, Token.total_cons, hSize, ih hMore]

/- Each token stands for at least one piece. -/
theorem Spells.length_le
    {before part behind : List α}
    {tokens : List Token}
    (h : Spells Shows before tokens part behind) :
    tokens.length ≤ part.length := by
  induction tokens generalizing before part with
  | nil => exact Nat.zero_le _
  | cons token rest ih =>
      rcases h with ⟨first, more, rfl, hSome, _, _, hMore⟩
      have hRest := ih hMore
      have hFirst := List.length_pos_of_ne_nil hSome
      rw [List.length_cons, List.length_append]
      omega

theorem Spells.ne_zero
    {before part behind : List α}
    {tokens : List Token}
    (h : Spells Shows before tokens part behind) :
    ∀ token ∈ tokens, token.length ≠ 0 := by
  induction tokens generalizing before part with
  | nil => simp
  | cons token rest ih =>
      rcases h with ⟨first, more, rfl, hSome, hSize, _, hMore⟩
      rw [List.forall_mem_cons]
      refine ⟨?_, ih hMore⟩
      rw [← hSize]
      exact fun hZero => hSome (extent_eq_zero.1 hZero)

/- What a token shows depends on its neighbours only. -/
def IsLocal
    (Shows : List α → List α → List α → Token → Prop) :
    Prop :=
  ∀ before other first behind later token,
    first ≠ [] → before.getLast? = other.getLast? →
      behind.head? = later.head? →
        Shows before first behind token →
          Shows other first later token

/- What tokens spell, they spell between the same neighbours. -/
theorem Spells.relocate
    {tokens : List Token}
    {a b part more oldBehind : List α}
    (hLocal : IsLocal Shows)
    (newBehind : List α)
    (hMore : more ≠ [])
    (hSame : a.getLast? = b.getLast?)
    (h : Spells Shows a tokens part (more ++ oldBehind)) :
    Spells Shows b tokens part (more ++ newBehind) := by
  have hHead :
      ∀ rest : List α,
        (rest ++ (more ++ oldBehind)).head? =
          (rest ++ (more ++ newBehind)).head? := by
    intro rest
    rcases List.exists_cons_of_ne_nil hMore with
      ⟨piece, others, rfl⟩
    cases rest <;> rfl
  induction tokens generalizing a b part with
  | nil => exact h
  | cons token rest ih =>
      rcases h with
        ⟨first, last, rfl, hSome, hSize, hShows, hRest⟩
      have hNext :
          (a ++ first).getLast? = (b ++ first).getLast? := by
        rw [List.getLast?_append_of_ne_nil _ hSome,
          List.getLast?_append_of_ne_nil _ hSome]
      exact ⟨first, last, rfl, hSome, hSize,
        hLocal _ _ _ _ _ _ hSome hSame (hHead last) hShows,
        ih hNext hRest⟩

/- What each token leaves at its end, all of them leave. -/
theorem Spells.stop
    {Ends : List α → List α → Prop}
    {before part behind : List α}
    {tokens : List Token}
    (hEnds :
      ∀ before first behind token,
        Shows before first behind token →
          Ends (before ++ first) behind)
    (hSome : part ≠ [])
    (h : Spells Shows before tokens part behind) :
    Ends (before ++ part) behind := by
  induction tokens generalizing before part with
  | nil => exact absurd h hSome
  | cons token rest ih =>
      rcases h with ⟨first, last, rfl, _, _, hShows, hRest⟩
      by_cases hLast : last = []
      · subst hLast
        rw [List.append_nil]
        exact hEnds _ _ _ _ hShows
      · rw [← List.append_assoc]
        exact ih hLast hRest

/-
  What tokens spell in one text they spell in another that
  is made of it piece by piece.  `Meets` is what each token
  needs at its start and leaves at its end.
-/
theorem Spells.translate
    {β : Type}
    [Measured β]
    {Others : List β → List β → List β → Token → Prop}
    {f : List α → List β}
    {ending : List β}
    {before part : List α}
    {tokens : List Token}
    (Meets : List α → List α → Prop)
    (hAppend : ∀ a b, f (a ++ b) = f a ++ f b)
    (hSize : ∀ a, extent (f a) = extent a)
    (hShows :
      ∀ before first behind token,
        Meets before (first ++ behind) →
          Shows before first behind token →
            Meets (before ++ first) behind ∧
              Others (f before) (f first)
                (f behind ++ ending) token)
    (hStart : Meets before part)
    (h : Spells Shows before tokens part []) :
    Spells Others (f before) tokens (f part) ending := by
  induction tokens generalizing before part with
  | nil =>
      subst h
      exact extent_eq_zero.1 (hSize [])
  | cons token rest ih =>
      rcases h with
        ⟨first, more, rfl, hSome, hLength, hFirst, hMore⟩
      rw [List.append_nil] at hFirst
      rcases hShows _ _ _ _ hStart hFirst with ⟨hNext, hOther⟩
      refine ⟨f first, f more, hAppend _ _, ?_, ?_, hOther,
        ?_⟩
      · intro hNil
        have hZero := hSize first
        rw [hNil] at hZero
        exact hSome (extent_eq_zero.1 hZero.symm)
      · rw [hSize, hLength]
      · rw [← hAppend]
        exact ih hNext hMore

/- The places between the tokens of a small text fit. -/
theorem Spells.allFit
    {part behind : List α}
    {tokens : List Token}
    (hSmall : IsSmall (part ++ behind))
    (h : Spells Shows [] tokens part behind) :
    Token.AllFit tokens := by
  rintro before others rfl
  rcases spells_append.1 h with ⟨first, more, rfl, hFirst, _⟩
  rw [← hFirst.extent_eq, ← zero_add (extent first)]
  exact hSmall.fitsFrom first (more ++ behind) (by simp)

end Bracketry

------------------------------------------------------------
-- Scripts
------------------------------------------------------------

namespace Bracketry

open Measured

/-
  A text that is read from a source, as pieces, and pieces
  that count as behind its end.  `Shows` tells what tokens
  stand for, and `Stands` that a reader stands between two
  parts of the text.
-/
structure Script (α : Type) where
  source : LineSource
  text : List α
  ending : List α
  Shows : List α → List α → List α → Token → Prop
  Stands : LineReader → List α → List α → Prop

namespace Script

variable {α : Type} [Measured α]

/- What a reader gives fits the text that it reads. -/
structure IsSound
    (script : Script α) :
    Prop where
  small : IsSmall (script.text ++ script.ending)
  few :
    script.text.length ≤
      (TokenStream.ofLines script.source).bound
  short : script.text.length < 2 ^ 64
  ends : script.ending ≠ []
  start : script.Stands LineReader.start [] script.text
  read :
    ∀ {reader before ahead},
      script.text = before ++ ahead →
        script.Stands reader before ahead →
          (ahead = [] ∧
            reader.read script.source =
              .ok (none, reader)) ∨
            ∃ token after first more,
              reader.read script.source =
                  .ok (some token, after) ∧
                token.IsRegular ∧ ahead = first ++ more ∧
                first ≠ [] ∧
                extent first = token.length ∧
                script.Shows before first
                  (more ++ script.ending) token ∧
                script.Stands after (before ++ first) more

end Script

end Bracketry

------------------------------------------------------------
-- Old Texts
------------------------------------------------------------

namespace Bracketry

open Measured

/-
  An older text, the tokens of its tree, and what is known
  of the forest of every part of the tree.
-/
structure Past (α : Type) where
  text : List α
  tokens : List Token
  kept : Forest Token → Prop

/- No part of a known tree hides an opening bracket. -/
def Past.AllShallow
    {α : Type}
    (past : Option (Past α)) :
    Prop :=
  ∀ known ∈ past, ∀ forest, known.kept forest →
    forest.IsShallow

namespace Script

variable {α : Type} [Measured α]

/-
  What the tokens of an old text spelled between two edits
  they spell in the new text, if one more piece behind it is
  kept.  A reader may stand there again.
-/
structure Keeps
    (script : Script α)
    (past : Past α) :
    Prop where
  inherited : Forest.IsInherited past.kept
  matched : ∀ {forest}, past.kept forest → forest.IsMatched
  small : IsSmall (past.text ++ script.ending)
  apart : ∀ piece ∈ past.text, piece ∉ script.ending
  spelled :
    Spells script.Shows [] past.tokens past.text script.ending
  spells :
    ∀ {oldBefore part more oldBehind newBefore ahead newBehind
      : List α} {forest : Forest Token},
      past.text ++ script.ending =
          oldBefore ++ (part ++ (more ++ oldBehind)) →
        ahead ++ script.ending = more ++ newBehind →
        script.text = newBefore ++ (part ++ ahead) →
        part ≠ [] → more ≠ [] →
        SameEnd Eq oldBefore newBefore →
        past.kept forest → forest.IsClosed →
        Spells script.Shows oldBefore forest.leaves part
            (more ++ oldBehind) →
          Spells script.Shows newBefore forest.leaves part
              (ahead ++ script.ending) ∧
            script.Stands
              (LineReader.ofPosition
                (extent (newBefore ++ part)))
              (newBefore ++ part) ahead

end Script

end Bracketry

------------------------------------------------------------
-- Parsers in a Text
------------------------------------------------------------

namespace Bracketry

open Measured

namespace Script

variable {α : Type} [Measured α]

/- What is ahead of a reader that was read or looked at. -/
def Peeks
    (script : Script α)
    (reader : LineReader)
    (before ahead : List α) :
    Option (Option Token) → Prop
  | none => script.Stands reader before ahead
  | some none =>
      script.Stands reader before ahead ∧ ahead = []
  | some (some token) =>
      token.IsRegular ∧
        ∃ first more,
          ahead = first ++ more ∧ first ≠ [] ∧
            extent first = token.length ∧
            script.Shows before first
              (more ++ script.ending) token ∧
            script.Stands reader (before ++ first) more

/-
  The old tree of a parser, and the map from the text to the
  old one, when the parser has reached a place.
-/
def Recalls
    (script : Script α)
    (past : Option (Past α))
    (parser : Parser)
    (place : Position) :
    Prop :=
  match past with
  | none => parser.old = none
  | some past =>
      ∃ reader,
        parser.old = some reader ∧
          reader.Follows past.kept past.tokens ∧
          Maps Eq (past.text ++ script.ending)
            (script.text ++ script.ending) parser.map
            reader.lastOffset place

/- A parser between two parts of the text. -/
structure IsReading
    (script : Script α)
    (past : Option (Past α))
    (parser : Parser)
    (place : List α × List α) :
    Prop where
  text : script.text = place.1 ++ place.2
  stream :
    ∃ reader peeked,
      parser.stream =
          ⟨.lines script.source reader peeked,
            extent place.1⟩ ∧
        script.Peeks reader place.1 place.2 peeked
  recalls : script.Recalls past parser (extent place.1)

/-
  The old tree has nothing to give: an edit begins or has
  just ended at the place, or the reader of the old tree is
  past it.
-/
def IsBarred
    (parser : Parser)
    (place : Position) :
    Prop :=
  (parser.map.distanceToNext? place).1 = some 0 ∨
    (parser.map.advance place).lastStop = some place ∨
    ∀ reader, parser.old = some reader →
      reader.IsPast
        ((parser.map.advance place).shift.toOld place)

/-
  The feed of a text that is read by lines.  With an old
  tree, the level of a kept bracket is not known; it matters
  only where the tree hides brackets.
-/
def feed
    (script : Script α)
    (past : Option (Past α)) :
    Feed (List α × List α) where
  Reads a tokens b :=
    script.text = a.1 ++ a.2 ∧
      ∃ part,
        a.2 = part ++ b.2 ∧ b.1 = a.1 ++ part ∧
          Spells script.Shows a.1 tokens part
            (b.2 ++ script.ending)
  room place := place.2.length
  hides level :=
    Past.AllShallow past → Parser.maxNestingLevel < level
  opens level :=
    past = none → level ≤ Parser.maxNestingLevel
  reuses := past.isSome
  Ready := script.IsReading past
  Stuck parser place :=
    script.IsReading past parser place ∧
      IsBarred parser (extent place.1)

end Script

end Bracketry

------------------------------------------------------------
-- The Tokens of a Feed
------------------------------------------------------------

namespace Bracketry

open Measured

namespace Script

variable {α : Type} [Measured α]
variable {script : Script α} {past : Option (Past α)}

theorem reads_append
    {a b c : List α × List α}
    {tokens others : List Token}
    (hFirst : (script.feed past).Reads a tokens b)
    (hSecond : (script.feed past).Reads b others c) :
    (script.feed past).Reads a (tokens ++ others) c := by
  rcases hFirst with ⟨hText, part, hPart, hBefore, hTokens⟩
  rcases hSecond with ⟨_, more, hMore, hBehind, hOthers⟩
  refine ⟨hText, part ++ more, by simp [hPart, hMore],
    by simp [hBefore, hBehind],
    spells_append.2 ⟨part, more, rfl, ?_, ?_⟩⟩
  · rwa [hMore, List.append_assoc] at hTokens
  · rwa [hBefore] at hOthers

theorem fits_of_reads
    {a b : List α × List α}
    {tokens others : List Token}
    (hSound : script.IsSound)
    (h : (script.feed past).Reads a (tokens ++ others) b) :
    (Token.total tokens).Fits := by
  rcases h with ⟨hText, part, hPart, _, hTokens⟩
  rcases spells_append.1 hTokens with
    ⟨first, more, rfl, hFirst, _⟩
  rw [← hFirst.extent_eq]
  have hSmall := hSound.small
  have hPlace := hSmall.fitsFrom (a.1 ++ first)
    (more ++ (b.2 ++ script.ending))
    (by simp [hText, hPart])
  rw [zero_add, extent_append] at hPlace
  exact Length.fits_of_add hPlace

theorem room_of_reads
    {a b : List α × List α}
    {tokens : List Token}
    (h : (script.feed past).Reads a tokens b) :
    (script.feed past).room b + tokens.length ≤
      (script.feed past).room a := by
  rcases h with ⟨_, part, hPart, _, hTokens⟩
  have hLength := hTokens.length_le
  simp only [feed, hPart, List.length_append]
  omega

/- One token that a parser reads or looks at. -/
theorem reads_single
    {before first more : List α}
    {token : Token}
    (hText : script.text = before ++ (first ++ more))
    (hSome : first ≠ [])
    (hSize : extent first = token.length)
    (hShows :
      script.Shows before first (more ++ script.ending)
        token) :
    (script.feed past).Reads (before, first ++ more) [token]
      (before ++ first, more) :=
  ⟨hText, first, rfl, rfl, first, [], by simp, hSome, hSize,
    by simpa using hShows, rfl⟩

theorem ready_peek
    {parser : Parser}
    {place : List α × List α}
    (hSound : script.IsSound)
    (h : script.IsReading past parser place) :
    ∃ next after,
      parser.peek = .ok (next, after) ∧ after.Ahead next ∧
        script.IsReading past after place ∧
        after.old = parser.old ∧ after.map = parser.map := by
  rcases h with ⟨hText, ⟨reader, peeked, hStream, hPeeks⟩, hOld⟩
  have hAhead :
      ∃ next reader,
        parser.stream.peek =
            .ok (next, ⟨.lines script.source reader (some next),
              extent place.1⟩) ∧
          script.Peeks reader place.1 place.2 (some next) := by
    rw [hStream]
    cases peeked with
    | some next => exact ⟨next, reader, rfl, hPeeks⟩
    | none =>
        rcases hSound.read hText hPeeks with
          ⟨hEnd, hRead⟩ |
            ⟨token, after, first, more, hRead, hRegular, hRest⟩
        · refine ⟨none, reader, ?_, hPeeks, hEnd⟩
          rw [TokenStream.peek]
          simp only [hRead]
          rfl
        · rcases hRest with
            ⟨hMore, hSome, hSize, hShows, hStands⟩
          refine ⟨some token, after, ?_, hRegular, first, more,
            hMore, hSome, hSize, hShows, hStands⟩
          rw [TokenStream.peek]
          simp only [hRead]
          rfl
  rcases hAhead with ⟨next, seen, hPeek, hNext⟩
  refine ⟨next, { parser with stream := _ }, ?_, ?_,
    ⟨hText, ⟨seen, some next, rfl, hNext⟩, hOld⟩, rfl, rfl⟩
  · rw [Parser.peek, hPeek]
    rfl
  · rfl

/- A stream that has looked ahead holds what it saw. -/
omit [Measured α] in
theorem eq_of_ahead
    {parser : Parser}
    {reader : LineReader}
    {peeked : Option (Option Token)}
    {next : Option Token}
    {offset : Position}
    (hStream :
      parser.stream =
        ⟨.lines script.source reader peeked, offset⟩)
    (hAhead : parser.Ahead next) :
    peeked = some next := by
  rw [Parser.Ahead, hStream, TokenStream.peek] at hAhead
  cases peeked with
  | some token =>
      rw [(Prod.mk.inj (Except.ok.inj hAhead)).1]
  | none =>
      cases hRead : reader.read script.source with
      | error fault =>
          simp only [hRead] at hAhead
          cases hAhead
      | ok result =>
          simp only [hRead] at hAhead
          have hSame :=
            (Prod.mk.inj (Except.ok.inj hAhead)).2
          simp at hSame

/- The token that was looked at is read. -/
theorem ready_read
    {parser : Parser}
    {place : List α × List α}
    {token : Token}
    (hSound : script.IsSound)
    (h : script.IsReading past parser place)
    (hAhead : parser.Ahead (some token)) :
    token.IsRegular ∧
      ∃ after stop,
        parser.read = .ok (some token, after) ∧
          (script.feed past).Reads place [token] stop ∧
          script.IsReading past after stop := by
  rcases h with ⟨hText, ⟨reader, peeked, hStream, hPeeks⟩, hOld⟩
  rcases place with ⟨before, ahead⟩
  rcases eq_of_ahead hStream hAhead with rfl
  rcases hPeeks with
    ⟨hRegular, first, more, hMore, hSome, hSize, hShows,
      hStands⟩
  simp only at hText hMore hShows hStands hOld hStream
  subst hMore
  have hPlace : extent before + token.length =
      extent (before ++ first) := by
    rw [extent_append, hSize]
  have hFits : (extent before + token.length).Fits := by
    have hSmall := hSound.small.fitsFrom (before ++ first)
      (more ++ script.ending) (by simp [hText])
    rwa [zero_add, ← hPlace] at hSmall
  refine ⟨hRegular,
    { parser with stream :=
      ⟨.lines script.source reader none,
        extent before + token.length⟩ },
    (before ++ first, more), ?_,
    reads_single hText hSome hSize hShows, ?_⟩
  · have hRead :
        parser.stream.read =
          .ok (some token,
            ⟨.lines script.source reader none,
              extent before + token.length⟩) := by
      rw [hStream]
      exact TokenStream.passed_eq _ _ hFits
    rw [Parser.read, hRead]
    rfl
  · refine ⟨by simpa using hText,
      ⟨reader, none, by rw [hPlace], hStands⟩, ?_⟩
    unfold Recalls at hOld ⊢
    cases past with
    | none => exact hOld
    | some past =>
        rcases hOld with ⟨oldReader, hReader, hFollows, hMaps⟩
        refine ⟨oldReader, hReader, hFollows, hMaps.later ?_⟩
        simp only [extent_append]
        exact Length.le_add_right _ _

end Script

end Bracketry

------------------------------------------------------------
-- Reuse of the Old Tree
------------------------------------------------------------

namespace Bracketry

open Measured

namespace Parser

/- A node of any tree can be tested. -/
theorem isTest_fits
    (room : Option Length)
    (opened : IdSet) :
    IsTest (fits room opened) where
  proper node hProper := by
    unfold fits
    split_ifs
    · exact ⟨false, rfl⟩
    · exact Node.exists_canBeReused opened hProper
  bracket leaf := by
    unfold fits
    split_ifs <;> rfl
  empty node hEmpty := by
    unfold fits
    split_ifs
    · rfl
    · cases node with
      | list key height length missing items =>
          rw [Node.isEmptyList] at hEmpty
          simp [Node.canBeReused, hEmpty]
      | text key length => cases hEmpty
      | bracket leaf => cases hEmpty
      | invalid key ids length => cases hEmpty
      | pair key length missing opening child closing =>
          cases hEmpty

/- What passes the test is shorter than the room. -/
theorem of_fits
    {room : Option Length}
    {opened : IdSet}
    {node : Node}
    (h : fits room opened node = .ok true) :
    (∀ length, room = some length → node.length < length) ∧
      node.canBeReused opened = .ok true := by
  unfold fits at h
  split_ifs at h with hRoom
  · cases h
  · refine ⟨?_, h⟩
    rintro length rfl
    simpa using hRoom

/- Without an old tree, there is nothing to use. -/
theorem reuse?_of_none
    {parser : Parser}
    (opened : IdSet)
    (hOld : parser.old = none) :
    parser.reuse? opened = .ok (none, parser) := by
  rw [reuse?, hOld]

theorem distanceToNext?_eq
    (map : PositionMap)
    (place : Position) :
    map.distanceToNext? place =
      ((map.distanceToNext? place).1, map.advance place) := by
  unfold PositionMap.distanceToNext?
  simp only
  split <;> rfl

/-
  What the old tree gives is asked of it only where no edit
  begins or has just ended.
-/
theorem reuse?_eq
    {parser : Parser}
    {reader : NodeReader}
    (opened : IdSet)
    (hOld : parser.old = some reader) :
    parser.reuse? opened =
      let place := parser.stream.offset
      let room := (parser.map.distanceToNext? place).1
      let map := parser.map.advance place
      if room = some 0 ∨ map.lastStop = some place then
        .ok (none, { parser with map := map })
      else do
        let (node, reader) ←
          reader.readLongestAt (map.shift.toOld place)
            (fits room opened)
        let parser :=
          { parser with map := map, old := some reader }
        match node with
        | none => return (none, parser)
        | some node =>
            let stream ← parser.stream.skip node.length
            let parser := { parser with stream := stream }
            return (some node, parser.countReused) := by
  simp only [reuse?, hOld]
  rw [distanceToNext?_eq]
  simp only [PositionMap.isRightAfterEdit,
    PositionMap.oldOffset, advance_advance,
    Bool.or_eq_true, decide_eq_true_eq]
  rfl

end Parser

theorem distanceToNext?_advance
    (map : PositionMap)
    (place : Position) :
    ((map.advance place).distanceToNext? place).1 =
      (map.distanceToNext? place).1 := by
  unfold PositionMap.distanceToNext?
  rw [advance_advance]

namespace Script

variable {α : Type} [Measured α]
variable {script : Script α} {past : Past α}

/- Where nothing was found, nothing will be found again. -/
theorem reuse?_of_isBarred
    {parser : Parser}
    {reader : NodeReader}
    {before ahead : List α}
    (opened : IdSet)
    (hSound : script.IsSound)
    (hKeeps : script.Keeps past)
    (hText : script.text = before ++ ahead)
    (hOffset : parser.stream.offset = extent before)
    (hOld : parser.old = some reader)
    (hFollows : reader.Follows past.kept past.tokens)
    (hMaps :
      Maps Eq (past.text ++ script.ending)
        (script.text ++ script.ending) parser.map
        reader.lastOffset (extent before))
    (hBarred : IsBarred parser (extent before)) :
    ∃ after,
      parser.reuse? opened = .ok (none, after) ∧
        after.stream = parser.stream ∧
        script.Recalls (some past) after (extent before) ∧
        IsBarred after (extent before) := by
  have hSmall := hSound.small
  have hMoved :=
    hMaps.advance (fun _ _ => congrArg size) hKeeps.small
      hSmall
  rw [Parser.reuse?_eq opened hOld, hOffset]
  simp only
  split_ifs with hEdited
  · refine ⟨_, rfl, rfl, ⟨reader, hOld, hFollows, hMoved⟩, ?_⟩
    unfold IsBarred
    simp only [distanceToNext?_advance, advance_advance]
    tauto
  · rw [not_or] at hEdited
    have hPast :
        reader.IsPast
          ((parser.map.advance (extent before)).shift.toOld
            (extent before)) := by
      rcases hBarred with hRoom | hLast | hAll
      · exact absurd hRoom hEdited.1
      · exact absurd hLast hEdited.2
      · exact hAll reader hOld
    rw [hText, List.append_assoc] at hMaps hSmall hMoved
    rcases hMaps.locate (fun _ _ => congrArg size) hKeeps.small
        hSmall hEdited.1 hEdited.2 with
      ⟨oldBefore, gap, oldBehind, same, newBehind, _, _, _,
        hFound, hSeen, hNext⟩
    rw [hFound] at hPast ⊢
    rw [NodeReader.readLongestAt_of_isPast _ hSeen hPast
      hFollows]
    refine ⟨_, rfl, rfl, ⟨_, rfl,
      ⟨hFollows.tracks, hFollows.enough⟩, ?_⟩,
      .inr (.inr ?_)⟩
    · rw [hText, List.append_assoc]
      exact hNext
    · rintro _ ⟨⟩
      simp only [advance_advance, hFound]
      exact hPast

/-
  The pieces of a part of the old tree that is shorter than
  what is kept.
-/
theorem Keeps.exists_part
    {room : Option Length}
    {oldBefore gap oldBehind newBefore same newBehind
      : List α}
    {before behind : List Token}
    {forest : Forest Token}
    (hSound : script.IsSound)
    (hKeeps : script.Keeps past)
    (hOld :
      past.text ++ script.ending =
        oldBefore ++ (gap ++ oldBehind))
    (hLocated :
      Located Eq room oldBefore gap oldBehind newBefore same
        newBehind)
    (hTokens :
      past.tokens = before ++ (forest.leaves ++ behind))
    (hPlace : Token.total before = extent oldBefore)
    (hRoom :
      ∀ length, room = some length →
        forest.total < length) :
    ∃ part more,
      gap = part ++ more ∧ more ≠ [] ∧
        Spells script.Shows oldBefore forest.leaves part
          (more ++ oldBehind) ∧
        ∀ piece ∈ part, piece ∉ script.ending := by
  have hSpelled := hKeeps.spelled
  rw [hTokens] at hSpelled
  rcases spells_append.1 hSpelled with
    ⟨first, rest, hText, hFirst, hRest⟩
  rcases spells_append.1 hRest with ⟨part, last, rfl, hPart, _⟩
  have hSame :
      first ++ (part ++ (last ++ script.ending)) =
        oldBefore ++ (gap ++ oldBehind) := by
    rw [← hOld, hText]
    simp
  have hExtent : extent first = extent oldBefore := by
    rw [hFirst.extent_eq, hPlace]
  rcases eq_of_extent_eq hSame hExtent with ⟨rfl, hAhead⟩
  have hApart : ∀ piece ∈ part, piece ∉ script.ending := by
    intro piece hPiece
    apply hKeeps.apart
    rw [hText]
    simp [hPiece]
  have hLength := hPart.extent_eq
  rw [List.nil_append] at hPart
  rcases hLocated.room with hSome | ⟨_, rfl, _⟩
  · have hLess := hRoom _ hSome
    rw [Forest.total, ← hLength] at hLess
    rcases exists_of_extent_le hAhead hLess.le with
      ⟨more, rfl, hMore⟩
    refine ⟨part, more, rfl, ?_, by rwa [← hMore], hApart⟩
    rintro rfl
    rw [List.append_nil] at hLess
    exact lt_irrefl _ hLess
  · rw [List.append_nil] at hAhead
    refine ⟨part, last ++ script.ending, hAhead.symm, ?_,
      by rwa [List.append_nil], hApart⟩
    simp [hSound.ends]

/- A stretch of text that is kept lies in front of the end. -/
omit [Measured α] in
theorem exists_of_append_ending
    {ahead part rest ending : List α}
    (hApart : ∀ piece ∈ part, piece ∉ ending)
    (h : ahead ++ ending = part ++ rest) :
    ∃ more, ahead = part ++ more ∧ rest = more ++ ending := by
  rcases List.append_eq_append_iff.1 h with
    ⟨more, hPart, hEnding⟩ | ⟨more, rfl, hRest⟩
  · cases more with
    | nil =>
        refine ⟨[], ?_, ?_⟩
        · rw [hPart]
          simp
        · rw [hEnding]
          rfl
    | cons piece others =>
        refine absurd ?_ (hApart piece (by simp [hPart]))
        rw [hEnding]
        simp
  · exact ⟨more, rfl, hRest⟩

/- A part of the old tree that spells what is ahead. -/
theorem gives_of_spells
    {opened : IdSet}
    {before part behind : List α}
    {node : Node}
    {forest : Forest Token}
    (hKeeps : script.Keeps past)
    (hText : script.text = before ++ (part ++ behind))
    (hShows : Node.Shows past.kept node forest)
    (hCanBe : node.canBeReused opened = .ok true)
    (hSpells :
      Spells script.Shows before forest.leaves part
        (behind ++ script.ending)) :
    (script.feed (some past)).Gives opened
      (before, part ++ behind) node forest
      (before ++ part, behind) := by
  have hMatched := hKeeps.matched hShows.kept
  rcases Node.isClosed_of_canBeReused hShows.proper hShows.shape
      hMatched hCanBe with
    ⟨hClosed, hAvoids⟩
  refine ⟨rfl, ?_, hShows.proper, hShows.shape, hMatched,
    hClosed, hAvoids, ?_, hText, part, rfl, rfl, hSpells⟩
  · rintro rfl
    exact hShows.leaves_ne_nil rfl
  · intro level
    by_cases hAll : Past.AllShallow (some past)
    · refine Forest.nests_of_isShallow ?_
        (hAll past rfl forest hShows.kept)
      rintro level ⟨⟩
    · refine Forest.nests_of_forall ?_ ?_
      · exact fun _ hShallow => absurd hShallow hAll
      · rintro level ⟨⟩

/- A stream of lines is skipped to a place that fits. -/
theorem skip_lines
    {source : LineSource}
    {reader : LineReader}
    {peeked : Option (Option Token)}
    {start stop : Position}
    {length : Length}
    (hStop : start + length = stop)
    (hFits : stop.Fits) :
    TokenStream.skip ⟨.lines source reader peeked, start⟩
        length =
      .ok ⟨.lines source (LineReader.ofPosition stop) none,
        stop⟩ := by
  subst hStop
  rw [TokenStream.skip]
  simp only [Length.plus_eq_ok hFits]
  rfl

/-
  What the old tree gives is a part of it that spells what
  is ahead.
-/
theorem reuse?_spec
    {parser : Parser}
    {place : List α × List α}
    (opened : IdSet)
    (hSound : script.IsSound)
    (hKeeps : script.Keeps past)
    (h : script.IsReading (some past) parser place) :
    (∃ after,
      parser.reuse? opened = .ok (none, after) ∧
        after.stream = parser.stream ∧
        script.Recalls (some past) after (extent place.1) ∧
        IsBarred after (extent place.1)) ∨
      ∃ node after forest stop,
        parser.reuse? opened = .ok (some node, after) ∧
          (script.feed (some past)).Gives opened place node
            forest stop ∧
          script.IsReading (some past) after stop := by
  rcases h with
    ⟨hText, ⟨lines, peeked, hStream, hPeeks⟩, hRecalls⟩
  rcases place with ⟨before, ahead⟩
  simp only at hText hStream hRecalls ⊢
  rcases hRecalls with ⟨reader, hOld, hFollows, hMaps⟩
  have hOffset : parser.stream.offset = extent before := by
    rw [hStream]
  by_cases hEdited :
      (parser.map.distanceToNext? (extent before)).1 =
          some 0 ∨
        (parser.map.advance (extent before)).lastStop =
          some (extent before)
  · refine .inl (reuse?_of_isBarred opened hSound hKeeps
      hText hOffset hOld hFollows hMaps ?_)
    exact hEdited.imp id .inl
  have hSmall := hSound.small
  rw [hText, List.append_assoc] at hMaps hSmall
  rcases not_or.1 hEdited with ⟨hRoom, hLast⟩
  rcases hMaps.locate (fun _ _ => congrArg size) hKeeps.small
      hSmall hRoom hLast with
    ⟨oldBefore, gap, oldBehind, same, newBehind, hOldSplit,
      hNewSplit, hLocated, hFound, hSeen, hNext⟩
  have hFits := hKeeps.spelled.allFit hKeeps.small
  rcases NodeReader.readLongestAt_spec
      (Parser.fits
        (parser.map.distanceToNext? (extent before)).1 opened)
      hKeeps.inherited hFits hKeeps.spelled.ne_zero
      (Parser.isTest_fits _ opened) hSeen hFollows with
    ⟨found, after, hRead, hAfter, hOffsetAfter, _, hPast, hNode⟩
  rw [← hOffsetAfter] at hNext
  have hReuse := Parser.reuse?_eq opened hOld
  rw [hOffset] at hReuse
  simp only [if_neg hEdited, hFound, hRead, bind,
    Except.bind] at hReuse
  cases found with
  | none =>
      refine .inl ⟨_, hReuse, rfl, ⟨after, rfl, hAfter, ?_⟩,
        .inr (.inr ?_)⟩
      · rw [hText, List.append_assoc]
        exact hNext
      · rintro _ ⟨⟩
        simp only [advance_advance, hFound]
        exact hPast rfl
  | some node =>
      rcases hNode node rfl with
        ⟨hTest, first, forest, last, hTokens, hPlace, hShows⟩
      rcases Parser.of_fits hTest with ⟨hShorter, hCanBe⟩
      rcases Node.isClosed_of_canBeReused hShows.proper
          hShows.shape (hKeeps.matched hShows.kept) hCanBe with
        ⟨hClosed, _⟩
      have hLength :=
        Node.length_eq_total hShows.proper hShows.shape.symm
      rw [hLength] at hShorter
      rcases hKeeps.exists_part hSound hOldSplit hLocated
          hTokens hPlace hShorter with
        ⟨part, more, rfl, hMore, hSpells, hApart⟩
      have hSame := hLocated.kept
      rw [List.forall₂_eq_eq_eq] at hSame
      subst hSame
      rw [List.append_assoc] at hOldSplit hNewSplit
      rcases exists_of_append_ending hApart hNewSplit with
        ⟨behind, rfl, hBehind⟩
      have hPart : part ≠ [] := by
        rintro rfl
        exact hShows.leaves_ne_nil
          (List.length_eq_zero_iff.1
            (Nat.le_zero.1 hSpells.length_le))
      rcases hKeeps.spells hOldSplit hBehind.symm hText hPart
          hMore hLocated.sameEnd hShows.kept hClosed
          hSpells with
        ⟨hNewSpells, hStands⟩
      have hStop :
          extent before + node.length =
            extent (before ++ part) := by
        rw [extent_append, hNewSpells.extent_eq, hLength,
          Forest.total]
      have hStopFits : (extent (before ++ part)).Fits := by
        have hPlaceFits := hSmall.fitsFrom (before ++ part)
          (behind ++ script.ending) (by simp)
        rwa [zero_add] at hPlaceFits
      rw [hStream] at hReuse
      simp only [skip_lines hStop hStopFits] at hReuse
      refine .inr ⟨node, _, forest, (before ++ part, behind),
        hReuse,
        gives_of_spells hKeeps hText hShows hCanBe hNewSpells,
        by simpa using hText, ⟨_, none, rfl, hStands⟩, after,
        rfl, hAfter, ?_⟩
      rw [hText, List.append_assoc]
      refine hNext.later ?_
      simp only [extent_append]
      exact Length.le_add_right _ _

/- A feed with an old tree that keeps its place is sound. -/
theorem isSound_feed
    {past : Option (Past α)}
    (hSound : script.IsSound)
    (hKeeps :
      ∀ known, past = some known → script.Keeps known) :
    (script.feed past).IsSound where
  hides_of_lt h _ := h
  opens_of_le h _ := h
  reads_nil h :=
    ⟨h.text, [], rfl, (List.append_nil _).symm, rfl⟩
  reads_append := reads_append
  fits_of_reads := fits_of_reads hSound
  room_of_reads := room_of_reads
  room_lt := by
    intro parser place h
    have hShort := hSound.short
    rw [h.text, List.length_append] at hShort
    simp only [feed]
    omega
  isSome_old := by
    intro parser place h
    have hRecalls := h.recalls
    unfold Recalls at hRecalls
    cases past with
    | none => simp [feed, hRecalls]
    | some known =>
        rcases hRecalls with ⟨reader, hOld, _⟩
        simp [feed, hOld]
  ready_of_stuck h := h.1
  ready_count h := ⟨h.text, h.stream, h.recalls⟩
  reuse := by
    intro parser place h opened
    cases past with
    | none =>
        refine .inl ⟨parser,
          Parser.reuse?_of_none opened h.recalls, h,
          .inr (.inr ?_)⟩
        intro reader hOld
        rw [h.recalls] at hOld
        cases hOld
    | some known =>
        rcases reuse?_spec opened hSound (hKeeps known rfl) h
          with ⟨after, hReuse, hStream, hRecalls, hBarred⟩ |
            hGives
        · refine .inl ⟨after, hReuse, ⟨h.text, ?_, hRecalls⟩,
            hBarred⟩
          rw [hStream]
          exact h.stream
        · exact .inr hGives
  reuse_of_stuck := by
    rintro parser place ⟨h, hBarred⟩ opened
    cases past with
    | none =>
        exact ⟨parser,
          Parser.reuse?_of_none opened h.recalls, ⟨h, hBarred⟩,
          rfl⟩
    | some known =>
        rcases h with
          ⟨hText, ⟨lines, peeked, hStream, hPeeks⟩, reader,
            hOld, hFollows, hMaps⟩
        rcases reuse?_of_isBarred opened hSound
            (hKeeps known rfl) hText (by rw [hStream]) hOld
            hFollows hMaps hBarred with
          ⟨after, hReuse, hSame, hRecalls, hStill⟩
        refine ⟨after, hReuse, ⟨⟨hText, ?_, hRecalls⟩, hStill⟩,
          hSame⟩
        exact ⟨lines, peeked, hSame.trans hStream, hPeeks⟩
  peek := by
    intro parser place h
    rcases ready_peek hSound h with
      ⟨next, after, hPeek, hAhead, hAfter, hOld, hMap⟩
    refine ⟨next, after, hPeek, hAhead, hAfter, ?_⟩
    rintro ⟨_, hBarred⟩
    refine ⟨hAfter, ?_⟩
    unfold IsBarred at hBarred ⊢
    rwa [hOld, hMap]
  regular h hAhead := (ready_read hSound h hAhead).1
  read h hAhead := (ready_read hSound h hAhead).2

end Script

end Bracketry

------------------------------------------------------------
-- Parses of a Script
------------------------------------------------------------

namespace Bracketry

open Measured

namespace Script

variable {α : Type} [Measured α]

/-
  What a parse starts from: nothing, or the tree of an older
  text and the edits that turned it into this one.
-/
inductive StartsFrom
    (script : Script α) :
    List Edit → Option Node → Option (Past α) → Prop where
  | scratch : StartsFrom script [] none none
  | tree {edits root known} {forest : Forest Token}
      (hRoot : root.IsRoot)
      (hShape : forest.shape = root.shape)
      (hKept : known.kept forest)
      (hTokens : known.tokens = forest.leaves)
      (hKeeps : script.Keeps known)
      (hTurns :
        Turns Eq 0 edits (known.text ++ script.ending)
          (script.text ++ script.ending)) :
      StartsFrom script edits (some root) (some known)

/- A parse starts at the beginning of the text. -/
theorem StartsFrom.isReading
    {script : Script α}
    {edits : List Edit}
    {old : Option Node}
    {past : Option (Past α)}
    (hSound : script.IsSound)
    (h : script.StartsFrom edits old past) :
    ∃ map,
      PositionMap.ofEdits edits = .ok map ∧
        script.IsReading past
          (Parser.ofStream (TokenStream.ofLines script.source)
            map old) ([], script.text) := by
  have hStream :
      ∃ reader peeked,
        TokenStream.ofLines script.source =
            ⟨.lines script.source reader peeked,
              extent ([] : List α)⟩ ∧
          script.Peeks reader [] script.text peeked :=
    ⟨LineReader.start, none, rfl, hSound.start⟩
  cases h with
  | scratch => exact ⟨_, rfl, rfl, hStream, rfl⟩
  | tree hRoot hShape hKept hTokens hKeeps hTurns =>
      rcases maps_ofEdits hTurns hKeeps.small hSound.small with
        ⟨map, hMap, hMaps⟩
      refine ⟨map, hMap, rfl, hStream, _, rfl, ?_, hMaps⟩
      rw [hTokens]
      exact NodeReader.follows_ofRoot hRoot hShape hKept

/- The tree of a parse spells the whole text. -/
theorem parseDocument_spells
    {script : Script α}
    {edits : List Edit}
    {old : Option Node}
    {past : Option (Past α)}
    (hSound : script.IsSound)
    (h : script.StartsFrom edits old past) :
    ∃ root stats, ∃ forest : Forest Token,
      parseDocument (TokenStream.ofLines script.source) edits
          old = .ok (root, stats) ∧
        root.IsRoot ∧ root.shape = forest.shape ∧
        forest.IsMatched ∧
        (Past.AllShallow past →
          forest.Nests (Parser.maxNestingLevel < ·)
            (fun _ => True) 0) ∧
        Spells script.Shows [] forest.leaves script.text
          script.ending := by
  have hKeeps :
      ∀ known, past = some known → script.Keeps known := by
    rintro known rfl
    cases h with
    | tree _ _ _ _ hKeeps _ => exact hKeeps
  rcases h.isReading hSound with ⟨map, hMap, hReady⟩
  have hBound :
      script.text.length <
        (Parser.ofStream (TokenStream.ofLines script.source)
          map old).itemBound := by
    have hFew := hSound.few
    simp only [Parser.itemBound, Parser.ofStream]
    omega
  rcases Feed.parsed_root (isSound_feed hSound hKeeps) hMap
      hReady hBound with
    ⟨root, stats, forest, parser, stop, hParse, hRoot, hShape,
      hMatched, hNests, hReads, hEnd, hAhead⟩
  refine ⟨root, stats, forest, hParse, hRoot, hShape,
    hMatched, ?_, ?_⟩
  · intro hAll
    exact hNests.mono (fun _ hHides => hHides hAll)
      fun _ _ => trivial
  · rcases hEnd.stream with ⟨reader, peeked, hStream, hPeeks⟩
    rcases eq_of_ahead hStream hAhead with rfl
    rcases hReads with ⟨_, part, hPart, _, hSpells⟩
    rw [hPeeks.2, List.append_nil] at hPart
    rw [hPeeks.2] at hSpells
    simp only at hPart hSpells
    rwa [hPart]

end Script

end Bracketry
