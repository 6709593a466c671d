import Bracketry.Proofs.BreakReading
import Bracketry.Proofs.Stretches

/-
  Parts of an old tree in a later text.

  A parse takes a part of the old tree only where no edit has
  just ended and where the next one begins behind its end.
  So one more character is kept behind the part, and the part
  begins a line where it began one.  Its lists then have the
  values that they had, and lists that the parse makes have
  no keys.

  Key definitions include:
    * `Node.StandsIn`
    * `Remake`, `Remake.IsAt`, `Remake.Holds`

  Main declarations:
    * `Remake.IsAt.reuse?_some`
    * `Remake.holds_of_makes`
    * `Remake.standsIn_parseDocument`
-/

------------------------------------------------------------
-- Nodes of a Text
------------------------------------------------------------

namespace Bracketry

open Measured

namespace Node

variable {content : Content} {base : IndentationCache}

@[simp] theorem keyedValuesOfAll_singleton
    (start : Position)
    (node : Node) :
    keyedValuesOfAll content base start [node] =
      keyedValues content base start node :=
  List.append_nil _

/- A pair has the values of its inside. -/
theorem keyedValuesOfAll_pair
    {leaf : Bracket}
    {child closing : Option Node}
    (start : Position)
    (key : Option Nat)
    (length : Length)
    (missing : IdSet)
    (hClosing :
      ∀ last, closing = some last → last.IsBracket) :
    keyedValuesOfAll content base start
        (.bracket leaf ::
          (child.toList ++ closing.toList)) =
      keyedValues content base start
        (.pair key length missing (.bracket leaf) child
          closing) := by
  have hLast :
      ∀ place,
        keyedValuesOfAll content base place closing.toList =
          [] := by
    intro place
    cases closing with
    | none => rfl
    | some last =>
        rcases hClosing last rfl with ⟨bracket, rfl⟩
        rfl
  rw [keyedValuesOfAll, keyedValuesOfAll_append, hLast,
    List.append_nil]
  cases child with
  | none => rfl
  | some node => exact keyedValuesOfAll_singleton _ node

/- The values of the parts of a node are its own. -/
theorem Occupy.subset_children
    {part behind : List BreakChar}
    {node : Node}
    (start : Position)
    (h : Occupy part behind [node]) :
    keyedValuesOfAll content base start node.children ⊆
      keyedValues content base start node := by
  cases h with
  | leaf hLeaf _ _ _ _ =>
      cases node <;> first | exact List.nil_subset _ | cases hLeaf
  | pair key missing _ hClosing _ _ =>
      rw [Node.children, keyedValuesOfAll_pair start key _
        missing hClosing]
      exact List.Subset.refl _
  | list key height missing _ _ _ =>
      rw [keyedValues]
      exact List.subset_append_right _ _

/-
  A node stands for a stretch of a text, and the values of
  its lists are known.
-/
def StandsIn
    (content : Content)
    (text : List Char)
    (known : List (Nat × Checked Nat))
    (start : Position)
    (node : Node) :
    Prop :=
  ∃ before part behind,
    BreakChar.ofText text = before ++ (part ++ behind) ∧
      extent before = start ∧
      Occupy part (behind ++ BreakChar.pads) [node] ∧
      keyedValues content .empty start node ⊆ known

variable {text : List Char} {known : List (Nat × Checked Nat)}

/- Nodes in a row stand one behind the other. -/
theorem standsIn_of_occupy
    {before part behind : List BreakChar}
    {nodes : List Node}
    (hText : BreakChar.ofText text = before ++ (part ++ behind))
    (hOccupy : Occupy part (behind ++ BreakChar.pads) nodes)
    (hKnown :
      keyedValuesOfAll content .empty (extent before) nodes ⊆
        known) :
    ∀ item ∈ placed (extent before) nodes,
      item.2.StandsIn content text known item.1 := by
  induction nodes generalizing before part with
  | nil => nofun
  | cons node rest ih =>
      rcases hOccupy.exists_cons with
        ⟨first, more, rfl, hSize, hNode, hRest⟩
      rw [keyedValuesOfAll, ← hSize, ← extent_append,
        List.append_subset] at hKnown
      rw [placed, List.forall_mem_cons, ← hSize,
        ← extent_append]
      rw [List.append_assoc] at hText
      rw [← List.append_assoc] at hNode
      exact ⟨⟨before, first, more ++ behind, hText, rfl, hNode,
          hKnown.1⟩,
        ih (by rw [hText, List.append_assoc]) hRest hKnown.2⟩

/- The parts of a node stand in the text. -/
theorem StandsIn.children
    {start : Position}
    {node : Node}
    (h : node.StandsIn content text known start) :
    ∀ child ∈ placed start node.children,
      child.2.StandsIn content text known child.1 := by
  rcases h with
    ⟨before, part, behind, hText, rfl, hNode, hKnown⟩
  rcases hNode.children with hNone | hChildren
  · rw [hNone]
    nofun
  · exact standsIn_of_occupy hText hChildren
      (List.Subset.trans (hNode.subset_children _) hKnown)

end Node

end Bracketry

------------------------------------------------------------
-- Kept Stretches
------------------------------------------------------------

namespace Bracketry

open Measured

namespace BreakChar

theorem Stays.breaks_eq
    {old new : BreakChar}
    (h : Stays old new) :
    new.breaks = old.breaks := by
  rcases h with rfl | ⟨rfl, rfl⟩
  · rfl
  · decide

/- Stretches that end alike end a line, or neither does. -/
theorem endsLine_of_sameEnd
    {old new : List BreakChar}
    (h : SameEnd Stays old new) :
    endsLine true new = endsLine true old := by
  rcases h with ⟨rfl, rfl⟩ | ⟨_, x, _, y, rfl, rfl, hStays⟩
  · rfl
  · rw [endsLine_append, endsLine_append]
    exact hStays.breaks_eq

/-
  A stretch that is shorter than what is kept is found in the
  new text as it was, and one character more is kept behind
  it.
-/
theorem exists_same
    {past text : List Char}
    {room : Option Length}
    {oldBefore gap oldBehind before same newBehind ahead part
      behind : List BreakChar}
    (hOld :
      ofText past ++ pads = oldBefore ++ (gap ++ oldBehind))
    (hNew : ahead ++ pads = same ++ newBehind)
    (hText : ofText text = before ++ ahead)
    (hLocated :
      Located Stays room oldBefore gap oldBehind before same
        newBehind)
    (hPart : ofText past = oldBefore ++ (part ++ behind))
    (hRoom :
      ∀ length, room = some length → extent part < length) :
    ∃ more,
      ahead = part ++ more ∧
        StaysBehind (behind ++ pads) (more ++ pads) := by
  have hGap : part ++ (behind ++ pads) = gap ++ oldBehind := by
    rw [hPart] at hOld
    simpa using hOld
  have hNext :
      ∃ next rest,
        gap = part ++ (next :: rest) ∧
          behind ++ pads = next :: (rest ++ oldBehind) := by
    rcases hLocated.room with hSome | ⟨_, rfl, _⟩
    · have hLess := hRoom _ hSome
      rcases exists_of_extent_le hGap (le_of_lt hLess) with
        ⟨more, rfl, hMore⟩
      cases more with
      | nil =>
          rw [List.append_nil] at hLess
          exact absurd hLess (lt_irrefl _)
      | cons next rest => exact ⟨next, rest, rfl, hMore⟩
    · rw [List.append_nil] at hGap
      cases hMore : behind ++ pads with
      | nil => simp [pads] at hMore
      | cons next rest =>
          exact ⟨next, rest, by rw [← hGap, hMore], by simp⟩
  rcases hNext with ⟨next, rest, rfl, hBehind⟩
  rcases exists_of_append_forall₂ hLocated.kept with
    ⟨first, last, rfl, hFirst, hLast⟩
  rcases List.forall₂_cons_left_iff.1 hLast with
    ⟨other, others, hNext, _, rfl⟩
  have hOldMarks := isMarked_ofText past
  have hNewMarks := isMarked_ofText text
  rw [hPart, List.append_assoc, List.append_assoc, hBehind]
    at hOldMarks
  rw [hText, List.append_assoc, hNew, List.append_assoc,
    List.cons_append] at hNewMarks
  have hSame :=
    eq_of_stays hFirst hNext hOldMarks.behind hNewMarks.behind
  subst hSame
  rw [List.append_assoc] at hNew
  have hApart : ∀ char ∈ first, char ∉ pads := by
    intro char hChar hPad
    rw [List.mem_singleton.1 hPad] at hChar
    exact beyond_not_mem past (by simp [hPart, hChar])
  rcases Script.exists_of_append_ending hApart hNew with
    ⟨more, rfl, hMore⟩
  exact ⟨more, rfl, next, _, other, _, hBehind, hMore.symm,
    hNext⟩

end BreakChar

end Bracketry

------------------------------------------------------------
-- Parsers between Two Parts
------------------------------------------------------------

namespace Bracketry

open Measured

/-
  A text that is read from a source, and an older text with
  its content.  Some values of lists are known.
-/
structure Remake where
  source : LineSource
  text : List Char
  content : Content
  past : List Char
  known : List (Nat × Checked Nat)

namespace Remake

/- All is code in both texts, which are not too long. -/
structure IsSound
    (remake : Remake) :
    Prop where
  solid : remake.source.table.IsSolid
  clear : remake.source.table.IsClear
  plain : remake.source.spans = SpanTable.plain
  isOf : remake.source.IsOf remake.text
  short : Text.IsShort remake.text
  tabSize : remake.source.content.tabSize = remake.content.tabSize
  lines : remake.content.lines = Line.split remake.past
  pastShort : Text.IsShort remake.past

/-
  A parser between two parts of the text.  What is ahead of
  it in the old tree stands in the older text, and its map
  leads there.
-/
structure IsAt
    (remake : Remake)
    (parser : Parser)
    (before ahead : List BreakChar) :
    Prop where
  stream :
    BreakChar.IsAt remake.source remake.text parser.stream before
      ahead
  maps :
    parser.old.isSome = true →
      ∃ seen,
        Maps BreakChar.Stays
          (BreakChar.ofText remake.past ++ BreakChar.pads)
          (BreakChar.ofText remake.text ++ BreakChar.pads)
          parser.map seen (extent before)
  old :
    ∀ node ∈ parser.ahead,
      node.2.StandsIn remake.content remake.past remake.known
        node.1

/- Nodes stand for a stretch of the text. -/
def Holds
    (remake : Remake)
    (before part behind : List BreakChar)
    (nodes : List Node) :
    Prop :=
  Node.Occupy part (behind ++ BreakChar.pads) nodes ∧
    Node.keyedValuesOfAll remake.source.content .empty
        (extent before) nodes ⊆ remake.known

variable {remake : Remake} {parser after : Parser}
variable {before ahead : List BreakChar} {opened : IdSet}

theorem IsSound.script
    (h : remake.IsSound) :
    (BreakChar.script remake.source remake.text).IsSound :=
  BreakChar.isSound_script h.solid h.clear h.plain h.isOf h.short

theorem IsSound.small
    (h : remake.IsSound) :
    IsSmall (BreakChar.ofText remake.text ++ BreakChar.pads) :=
  BreakChar.isSmall_ofText h.short

theorem IsSound.pastSmall
    (h : remake.IsSound) :
    IsSmall (BreakChar.ofText remake.past ++ BreakChar.pads) :=
  BreakChar.isSmall_ofText h.pastShort

/- The map moves up to the place of the parser. -/
theorem IsAt.advance
    {seen : Position}
    (hSound : remake.IsSound)
    (hMaps :
      Maps BreakChar.Stays
        (BreakChar.ofText remake.past ++ BreakChar.pads)
        (BreakChar.ofText remake.text ++ BreakChar.pads)
        parser.map seen (extent before)) :
    Maps BreakChar.Stays
      (BreakChar.ofText remake.past ++ BreakChar.pads)
      (BreakChar.ofText remake.text ++ BreakChar.pads)
      (parser.map.advance (extent before)) seen
      (extent before) :=
  hMaps.advance BreakChar.sameSize_stays hSound.pastSmall
    hSound.small

/- Where the old tree gives nothing, the parser stays. -/
theorem IsAt.reuse?_none
    (hSound : remake.IsSound)
    (h : remake.IsAt parser before ahead)
    (hReuse : parser.reuse? opened = .ok (none, after)) :
    remake.IsAt after before ahead := by
  cases hOld : parser.old with
  | none =>
      rw [Parser.reuse?_of_none opened hOld] at hReuse
      cases hReuse
      exact h
  | some reader =>
      rcases h.maps (by rw [hOld]; rfl) with ⟨seen, hMaps⟩
      have hMoved := IsAt.advance hSound hMaps
      rcases Parser.unfolds_reuse? hReuse with ⟨_, hUnfolds⟩
      have hAhead :=
        hUnfolds.forall (fun _ _ => Node.StandsIn.children) h.old
      rw [Parser.reuse?_eq opened hOld, h.stream.offset] at hReuse
      simp only at hReuse
      split_ifs at hReuse
      · cases hReuse
        exact ⟨h.stream, fun _ => ⟨seen, hMoved⟩, hAhead⟩
      · rcases Checked.bind_eq_ok_iff.1 hReuse with
          ⟨⟨found, last⟩, _, hReuse⟩
        cases found with
        | none =>
            cases hReuse
            exact ⟨h.stream, fun _ => ⟨seen, hMoved⟩, hAhead⟩
        | some node =>
            rcases Checked.bind_eq_ok_iff.1 hReuse with
              ⟨stream, _, hReuse⟩
            cases hReuse

/-
  A part of the old tree that is shorter than what is kept
  stands for what is ahead, with the values that it had.
-/
theorem IsSound.exists_part
    {room : Option Length}
    {oldBefore gap oldBehind same newBehind : List BreakChar}
    {node : Node}
    (hSound : remake.IsSound)
    (hText : BreakChar.ofText remake.text = before ++ ahead)
    (hOld :
      BreakChar.ofText remake.past ++ BreakChar.pads =
        oldBefore ++ (gap ++ oldBehind))
    (hNew : ahead ++ BreakChar.pads = same ++ newBehind)
    (hLocated :
      Located BreakChar.Stays room oldBefore gap oldBehind before
        same newBehind)
    (hRoom :
      ∀ length, room = some length → node.length < length)
    (hNode :
      node.StandsIn remake.content remake.past remake.known
        (extent oldBefore)) :
    ∃ part more,
      ahead = part ++ more ∧ extent part = node.length ∧
        remake.Holds before part more [node] := by
  rcases hNode with
    ⟨first, part, behind, hPast, hFirst, hOccupy, hKnown⟩
  have hSame :
      first ++ (part ++ behind ++ BreakChar.pads) =
        oldBefore ++ (gap ++ oldBehind) := by
    simp [← hOld, hPast]
  rcases eq_of_extent_eq hSame hFirst with ⟨rfl, _⟩
  have hSize : extent part = node.length := by
    simpa using hOccupy.extent_eq
  rcases BreakChar.exists_same hOld hNew hText hLocated hPast
      (hSize ▸ hRoom) with
    ⟨more, rfl, hStays⟩
  have hStretch :
      BreakChar.SameStretch remake.content remake.source.content
        first before part (behind ++ BreakChar.pads)
        (more ++ BreakChar.pads) :=
    { tabSize := hSound.tabSize
      here := ⟨remake.past, behind, hSound.lines,
        hSound.pastShort, hPast, rfl⟩
      there := ⟨remake.text, more, hSound.isOf.lines,
        hSound.short, hText, rfl⟩
      begins := BreakChar.endsLine_of_sameEnd hLocated.sameEnd
      stays := hStays }
  rcases hOccupy.transfer hStretch with ⟨hThere, _, hValues, _⟩
  refine ⟨part, more, rfl, hSize, hThere, ?_⟩
  rw [Node.keyedValuesOfAll_singleton, ← hValues]
  exact hKnown

/- What the old tree gives stands for what is ahead. -/
theorem IsAt.reuse?_some
    {node : Node}
    (hSound : remake.IsSound)
    (h : remake.IsAt parser before ahead)
    (hReuse : parser.reuse? opened = .ok (some node, after)) :
    ∃ part more,
      ahead = part ++ more ∧
        remake.Holds before part more [node] ∧
        remake.IsAt after (before ++ part) more := by
  cases hOld : parser.old with
  | none =>
      rw [Parser.reuse?_of_none opened hOld] at hReuse
      cases hReuse
  | some reader =>
      rcases h.maps (by rw [hOld]; rfl) with ⟨seen, hMaps⟩
      have hText := h.stream.text_eq
      rw [Parser.reuse?_eq opened hOld, h.stream.offset] at hReuse
      simp only at hReuse
      split_ifs at hReuse with hEdited
      · cases hReuse
      rcases not_or.1 hEdited with ⟨hRoom, hLast⟩
      have hSmall := hSound.small
      have hMoved := IsAt.advance hSound hMaps
      rw [hText, List.append_assoc] at hMaps hSmall
      rcases hMaps.locate BreakChar.sameSize_stays
          hSound.pastSmall hSmall hRoom hLast with
        ⟨oldBefore, gap, oldBehind, same, newBehind, hPast,
          hNew, hLocated, hFound, _, _⟩
      rw [hFound] at hReuse
      rcases Checked.bind_eq_ok_iff.1 hReuse with
        ⟨⟨found, last⟩, hRead, hReuse⟩
      rcases NodeReader.unfolds_readLongestAt hRead with
        ⟨hUnfolds, hTest⟩
      cases found with
      | none => cases hReuse
      | some node =>
          rcases Checked.bind_eq_ok_iff.1 hReuse with
            ⟨stream, hSkip, hReuse⟩
          cases hReuse
          have hReader := h.old
          rw [Parser.ahead, hOld] at hReader
          have hAhead :=
            hUnfolds.forall (fun _ _ => Node.StandsIn.children)
              hReader
          rcases List.forall_mem_cons.1 hAhead with
            ⟨hNode, hRest⟩
          rcases hSound.exists_part hText hPast hNew hLocated
              (Parser.of_fits (hTest node rfl)).1 hNode with
            ⟨part, more, rfl, hSize, hHolds⟩
          rw [← hSize] at hSkip
          refine ⟨part, more, rfl, hHolds, ?_, fun _ => ?_, hRest⟩
          · exact h.stream.skip hSound.plain hSound.isOf
              hHolds.1.isWhole hSkip
          · refine ⟨seen, hMoved.later ?_⟩
            rw [extent_append]
            exact Length.le_add_right _ _

end Remake

end Bracketry

------------------------------------------------------------
-- Tokens that Are Read
------------------------------------------------------------

namespace Bracketry

open Measured

/- What was looked at is read. -/
theorem TokenStream.eq_of_peek
    {stream seen after : TokenStream}
    {next found : Option Token}
    (hPeek : stream.peek = .ok (next, seen))
    (hRead : seen.read = .ok (found, after)) :
    found = next := by
  rcases stream with ⟨source, offset⟩
  have hPassed :
      ∀ {origin : TokenStream} {tokens : TokenSource} {token},
        origin.passed tokens token = .ok (found, after) →
          found = some token :=
    fun h => (BreakChar.IsAt.eq_of_passed h).1
  cases source with
  | scanned tokens length =>
      cases hPeek
      cases tokens with
      | nil =>
          cases hRead
          rfl
      | cons token rest => exact hPassed hRead
  | lines source reader peeked =>
      have hNext :
          ∀ {reader} {token : Option Token},
            TokenStream.read
                ⟨.lines source reader (some token), offset⟩ =
              .ok (found, after) → found = token := by
        intro reader token h
        cases token with
        | none =>
            cases h
            rfl
        | some token => exact hPassed h
      cases peeked with
      | some token =>
          cases hPeek
          exact hNext hRead
      | none =>
          rcases Checked.bind_eq_ok_iff.1 hPeek with
            ⟨⟨token, later⟩, _, hPeek⟩
          cases hPeek
          exact hNext hRead

namespace Remake

variable {remake : Remake} {parser after : Parser}
variable {before ahead : List BreakChar}

theorem IsAt.peek
    {token : Option Token}
    (hSound : remake.IsSound)
    (h : remake.IsAt parser before ahead)
    (hPeek : parser.peek = .ok (token, after)) :
    remake.IsAt after before ahead := by
  rcases Checked.bind_eq_ok_iff.1 hPeek with
    ⟨⟨next, stream⟩, hStream, hPeek⟩
  cases hPeek
  exact ⟨h.stream.peek hSound.script hStream, h.maps, h.old⟩

/- A token that is read stands for what it shows. -/
theorem IsAt.read
    {token : Option Token}
    (hSound : remake.IsSound)
    (h : remake.IsAt parser before ahead)
    (hRead : parser.read = .ok (token, after)) :
    ∃ part more,
      ahead = part ++ more ∧
        remake.IsAt after (before ++ part) more ∧
        (token = none → part = []) ∧
        ∀ found, token = some found →
          extent part = found.length ∧
            BreakChar.Shows before part
              (more ++ BreakChar.pads) found := by
  rcases Checked.bind_eq_ok_iff.1 hRead with
    ⟨⟨next, stream⟩, hStream, hRead⟩
  cases hRead
  rcases h.stream.read hSound.script hStream with
    ⟨part, more, rfl, hAt, hNone, hSome⟩
  refine ⟨part, more, rfl, ⟨hAt, fun hOld => ?_, h.old⟩, hNone,
    hSome⟩
  rcases h.maps hOld with ⟨seen, hMaps⟩
  refine ⟨seen, hMaps.later ?_⟩
  rw [extent_append]
  exact Length.le_add_right _ _

/- The same where nothing could be used again. -/
theorem IsAt.reads
    {opened : IdSet}
    {token : Option Token}
    (hSound : remake.IsSound)
    (h : remake.IsAt parser before ahead)
    (hReads : Parser.Reads opened parser token after) :
    ∃ part more,
      ahead = part ++ more ∧
        remake.IsAt after (before ++ part) more ∧
        (token = none → part = []) ∧
        ∀ found, token = some found →
          extent part = found.length ∧
            BreakChar.Shows before part
              (more ++ BreakChar.pads) found := by
  rcases hReads with
    ⟨unused, seen, next, hReuse, hPeek, _, hRead⟩
  have hSeen := (h.reuse?_none hSound hReuse).peek hSound hPeek
  have hCount :
      remake.IsAt seen.countConstructed before ahead :=
    ⟨hSeen.stream, hSeen.maps, hSeen.old⟩
  exact hCount.read hSound hRead

/- The bracket that closes a pair stands for what is ahead. -/
theorem IsAt.readClosing
    {opening : Bracket}
    {id : Option Nat}
    {closing : Option Node}
    (hSound : remake.IsSound)
    (h : remake.IsAt parser before ahead)
    (hClosing :
      parser.readClosing opening id = .ok (closing, after)) :
    ∃ part more,
      ahead = part ++ more ∧
        remake.IsAt after (before ++ part) more ∧
        Node.Occupy part (more ++ BreakChar.pads)
          closing.toList := by
  rcases Checked.bind_eq_ok_iff.1 hClosing with
    ⟨⟨next, seen⟩, hPeek, hClosing⟩
  have hSeen := h.peek hSound hPeek
  have hNone :
      closing = none → after = seen →
        ∃ part more,
          ahead = part ++ more ∧
            remake.IsAt after (before ++ part) more ∧
            Node.Occupy part (more ++ BreakChar.pads)
              closing.toList := by
    rintro rfl rfl
    exact ⟨[], ahead, rfl, by rwa [List.append_nil], .nil _⟩
  simp only at hClosing
  split at hClosing
  · split_ifs at hClosing
    · rcases Checked.bind_eq_ok_iff.1 hClosing with
        ⟨⟨last, left⟩, hRead, hClosing⟩
      cases hClosing
      rcases hSeen.read hSound hRead with
        ⟨part, more, rfl, hAfter, _, hToken⟩
      rcases Checked.bind_eq_ok_iff.1 hPeek with
        ⟨⟨_, _⟩, hStream, hPeek⟩
      rcases Checked.bind_eq_ok_iff.1 hRead with
        ⟨⟨_, _⟩, hNext, hRead⟩
      cases hPeek
      cases hRead
      rcases TokenStream.eq_of_peek hStream hNext with rfl
      rcases hToken _ rfl with ⟨hSize, hShows⟩
      have hOne :
          Node.Occupy (part ++ []) (more ++ BreakChar.pads)
            [.bracket _] :=
        .leaf trivial hSize hShows.1 nofun (.nil _)
      rw [List.append_nil] at hOne
      exact ⟨part, more, rfl, hAfter, hOne⟩
    · cases hClosing
      exact hNone rfl rfl
  · cases hClosing
    exact hNone rfl rfl

end Remake

end Bracketry

------------------------------------------------------------
-- Items that Are Made
------------------------------------------------------------

namespace Bracketry

open Measured

/- A list without items stands for nothing. -/
theorem Node.Occupy.eq_nil_of_isEmptyList
    {part behind : List BreakChar}
    {node : Node}
    (hEmpty : node.isEmptyList = true)
    (h : Occupy part behind [node]) :
    part = [] := by
  cases h with
  | leaf hLeaf _ _ _ _ =>
      cases node <;> contradiction
  | pair => cases hEmpty
  | list key height missing hSize hItems hRest =>
      rw [isEmptyList, List.isEmpty_iff] at hEmpty
      subst hEmpty
      cases hItems
      cases hRest
      rfl

/- A part that may be absent is as long as its stretch. -/
theorem Node.Occupy.extent_part
    {part behind : List BreakChar}
    {node : Option Node}
    (h : Occupy part behind node.toList) :
    extent part = partLength node := by
  rw [h.extent_eq]
  cases node with
  | none => rfl
  | some node => exact List.sum_singleton

namespace Remake

variable {remake : Remake} {parser after : Parser}
variable {before ahead part behind first : List BreakChar}

theorem holds_nil
    (before behind : List BreakChar) :
    remake.Holds before [] behind [] :=
  ⟨.nil _, List.nil_subset _⟩

/- What is regrouped stands for the same stretch. -/
theorem Holds.regroup
    {items others : List Node}
    (hRegroups : Node.Regroups items others)
    (h : remake.Holds before part behind items) :
    remake.Holds before part behind others := by
  rcases h.1.regroup hRegroups with ⟨hOccupy, hKeys⟩
  exact ⟨hOccupy, List.Subset.trans (hKeys _) h.2⟩

/- A node stands in front of others, or for nothing. -/
theorem Holds.withItem
    {node : Node}
    {rest : List Node}
    (hNode : remake.Holds before first (part ++ behind) [node])
    (hRest : remake.Holds (before ++ first) part behind rest) :
    remake.Holds before (first ++ part) behind
      (Parser.withItem node rest) := by
  rcases hNode with ⟨hFirst, hKnown⟩
  rcases hRest with ⟨hPart, hOthers⟩
  rw [Parser.withItem]
  split_ifs with hEmpty
  · rcases hFirst.eq_nil_of_isEmptyList hEmpty with rfl
    rw [List.append_nil] at hOthers
    exact ⟨hPart, hOthers⟩
  · have hSize : extent first = node.length := by
      simpa using hFirst.extent_eq
    rw [List.append_assoc] at hFirst
    rw [Node.keyedValuesOfAll_singleton] at hKnown
    rw [extent_append, hSize] at hOthers
    exact ⟨hFirst.cons hPart,
      List.append_subset.2 ⟨hKnown, hOthers⟩⟩

/- A leaf without lists stands for a token. -/
theorem holds_leaf
    {node : Node}
    (hLeaf : node.IsLeaf)
    (hSize : extent part = node.length)
    (hWhole : BreakChar.IsWhole part)
    (hSettles :
      BreakChar.Settles true (behind ++ BreakChar.pads) part) :
    remake.Holds before part behind [node] := by
  constructor
  · have hOne :
        Node.Occupy (part ++ []) (behind ++ BreakChar.pads)
          [node] :=
      .leaf hLeaf hSize hWhole (fun _ _ _ => hSettles) (.nil _)
    rwa [List.append_nil] at hOne
  · rw [Node.keyedValuesOfAll_singleton]
    cases node <;>
      first | exact List.nil_subset _ | cases hLeaf

/- So does what is made of a token that opens nothing. -/
theorem holds_leafOf
    {level : Nat}
    {token : Option Token}
    {node : Node}
    (hNone : token = none → part = [])
    (hSome :
      ∀ found, token = some found →
        extent part = found.length ∧
          BreakChar.Shows before part
            (behind ++ BreakChar.pads) found)
    (hLeaf : Parser.leafOf level token = some node) :
    remake.Holds before part behind [node] := by
  unfold Parser.leafOf at hLeaf
  split at hLeaf
  · cases hLeaf
    rcases hNone rfl with rfl
    have hEmpty :
        Node.Occupy ([] ++ []) (behind ++ BreakChar.pads)
          [Node.emptyList] :=
      .list none 0 IdSet.empty rfl (.nil _) (.nil _)
    exact ⟨hEmpty, List.nil_subset _⟩
  · cases hLeaf
    rcases hSome _ rfl with ⟨hSize, hWhole, hSettles⟩
    exact holds_leaf trivial hSize hWhole hSettles
  · rcases hSome _ rfl with ⟨hSize, hWhole, hSettles⟩
    split_ifs at hLeaf <;> cases hLeaf
    · exact holds_leaf trivial hSize hWhole hSettles
    · exact holds_leaf trivial hSize hWhole hSettles

/- A pair stands for its brackets and what is inside. -/
theorem holds_pair
    {opening inside last : List BreakChar}
    {leaf : Bracket}
    {items : List Node}
    {child closing : Option Node}
    {node : Node}
    (hSize : extent opening = leaf.length)
    (hWhole : BreakChar.IsWhole opening)
    (hItems :
      remake.Holds (before ++ opening) inside (last ++ behind)
        items)
    (hChild : Node.Regroups items child.toList)
    (hLast :
      Node.Occupy last (behind ++ BreakChar.pads) closing.toList)
    (hClosing : ∀ node, closing = some node → node.IsBracket)
    (hNode : Node.pairOf (.bracket leaf) child closing = .ok node) :
    remake.Holds before (opening ++ (inside ++ last)) behind
      [node] := by
  rcases Node.eq_of_pairOf hNode with rfl
  rcases hItems.regroup hChild with ⟨hInside, hKnown⟩
  rw [List.append_assoc] at hInside
  have hParts :
      Node.Occupy (opening ++ (inside ++ last))
        ([] ++ (behind ++ BreakChar.pads))
        (.bracket leaf :: (child.toList ++ closing.toList)) :=
    .leaf trivial hSize hWhole nofun
      (Node.Occupy.append_iff.2
        ⟨inside, last, rfl, hInside, hLast⟩)
  have hLength :
      extent (opening ++ (inside ++ last)) =
        (Node.bracket leaf).length +
          (Node.partLength child + Node.partLength closing) := by
    rw [extent_append, extent_append, hSize,
      hInside.extent_part, hLast.extent_part]
    rfl
  have hOne :=
    Node.Occupy.pair none (Node.partMissing child) hLength
      hClosing hParts (.nil _)
  rw [List.append_nil] at hOne
  refine ⟨hOne, ?_⟩
  rw [extent_append, hSize] at hKnown
  cases child with
  | none => exact List.nil_subset _
  | some node =>
      rw [Node.keyedValuesOfAll_singleton]
      rwa [Option.toList, Node.keyedValuesOfAll_singleton]
        at hKnown

/- What a parser makes stands for what it reads. -/
theorem holds_of_makes
    {opened : IdSet}
    {level : Nat}
    {items : List Node}
    (hSound : remake.IsSound)
    (h : remake.IsAt parser before ahead)
    (hMakes : Parser.Makes opened level parser items after) :
    ∃ part more,
      ahead = part ++ more ∧
        remake.Holds before part more items ∧
        remake.IsAt after (before ++ part) more := by
  induction hMakes generalizing before ahead with
  | bounded opened level parser =>
      exact ⟨[], ahead, rfl, holds_nil _ _,
        by rwa [List.append_nil]⟩
  | stopped level hReuse hPeek _ =>
      exact ⟨[], ahead, rfl, holds_nil _ _, by
        rw [List.append_nil]
        exact (h.reuse?_none hSound hReuse).peek hSound hPeek⟩
  | reused hReuse _ ih =>
      rcases h.reuse?_some hSound hReuse with
        ⟨first, rest, rfl, hNode, hNext⟩
      rcases ih hNext with ⟨part, more, rfl, hItems, hAfter⟩
      rw [List.append_assoc] at hAfter
      exact ⟨first ++ part, more, (List.append_assoc _ _ _).symm,
        hNode.withItem hItems, hAfter⟩
  | leaf hRead hLeaf _ ih =>
      rcases h.reads hSound hRead with
        ⟨first, rest, rfl, hNext, hNone, hSome⟩
      rcases ih hNext with ⟨part, more, rfl, hItems, hAfter⟩
      rw [List.append_assoc] at hAfter
      exact ⟨first ++ part, more, (List.append_assoc _ _ _).symm,
        (holds_leafOf hNone hSome hLeaf).withItem hItems, hAfter⟩
  | pair hRead _ _ _ hChild hClosing hNode _ ihInside ihRest =>
      rcases h.reads hSound hRead with
        ⟨opening, _, rfl, hNext, _, hSome⟩
      rcases hSome _ rfl with ⟨hSize, hWhole, _⟩
      rcases ihInside hNext with
        ⟨inside, _, rfl, hInside, hStop⟩
      rcases hStop.readClosing hSound hClosing with
        ⟨last, _, rfl, hClosed, hLast⟩
      have hPair :=
        holds_pair hSize hWhole hInside
          (Parser.regroups_joinItems hChild) hLast
          (Parser.isBracket_of_readClosing hClosing) hNode
      rw [List.append_assoc, List.append_assoc] at hClosed
      rcases ihRest hClosed with
        ⟨part, more, rfl, hItems, hAfter⟩
      rw [List.append_assoc] at hAfter
      exact ⟨(opening ++ (inside ++ last)) ++ part, more,
        by simp, hPair.withItem hItems, hAfter⟩

/-
  The tree of a parse stands in the text, and the values of
  its lists are known if those of the old tree are.
-/
theorem standsIn_parseDocument
    {stream : TokenStream}
    {edits : List Edit}
    {old : Option Node}
    {root : Node}
    {stats : ParseStats}
    (hSound : remake.IsSound)
    (hStream :
      BreakChar.IsAt remake.source remake.text stream []
        (BreakChar.ofText remake.text))
    (hOld :
      ∀ tree, old = some tree →
        Turns BreakChar.Stays 0 edits
            (BreakChar.ofText remake.past ++ BreakChar.pads)
            (BreakChar.ofText remake.text ++ BreakChar.pads) ∧
          tree.StandsIn remake.content remake.past
            remake.known 0)
    (h : parseDocument stream edits old = .ok (root, stats)) :
    root.StandsIn remake.source.content remake.text
      remake.known 0 := by
  rcases exists_makes_of_parseDocument h with
    ⟨map, items, last, hMap, hMakes, hRegroups⟩
  have hStart :
      remake.IsAt (Parser.ofStream stream map old) []
        (BreakChar.ofText remake.text) := by
    refine ⟨hStream, fun hSome => ?_, ?_⟩
    · have hTree : ∃ tree, old = some tree := by
        cases old with
        | none => cases hSome
        | some tree => exact ⟨tree, rfl⟩
      rcases hTree with ⟨tree, rfl⟩
      rcases maps_ofEdits (hOld tree rfl).1 hSound.pastSmall
          hSound.small with
        ⟨other, hOther, hMaps⟩
      cases hMap.symm.trans hOther
      exact ⟨0, hMaps⟩
    · rw [Parser.ahead_ofStream]
      cases old with
      | none => nofun
      | some tree => simpa using (hOld tree rfl).2
  rcases holds_of_makes hSound hStart hMakes with
    ⟨part, more, hText, hItems, _⟩
  rcases hItems.regroup hRegroups with ⟨hRoot, hKnown⟩
  rw [Node.keyedValuesOfAll_singleton] at hKnown
  exact ⟨[], part, more, hText, rfl, hRoot, hKnown⟩

end Remake

end Bracketry
