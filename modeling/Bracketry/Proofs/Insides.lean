import Bracketry.Proofs.PairWalks
import Bracketry.Proofs.PlainLines

/-
  The least indentation inside a pair.

  A walk tells for each pair the least indentation of the
  lines that begin behind its opening bracket and before its
  closing one, but for those that begin with a bracket.

  Where no line inside begins with a bracket, and the margin
  of the last one ends before the closing bracket, this is the
  least indentation of the lines whose first character stands
  between the brackets.

  Key definitions include:
    * `PairInfo.inside`, `PairInfo.IsTold`
    * `Node.IsTold`, `PairWalk.IsTold`
    * `PairInfo.counts`, `PairInfo.indents`
    * `PairInfo.IsAligned`

  Main declarations:
    * `Node.IsTold.tellsPairs`
    * `Content.IsMeasured.exists_root`
    * `Node.leastWhere_of_pairsIn`
-/

------------------------------------------------------------
-- What a Walk Tells
------------------------------------------------------------

namespace Bracketry

open Checked

namespace PairInfo

/-
  What is between the brackets of a pair, or behind the one
  that is not closed.
-/
def inside
    (info : PairInfo) :
    Range :=
  ⟨info.openingRange.stop,
    (info.closingRange.map Range.start).getD info.range.stop⟩

/-
  The opening bracket is one character, and the indentation
  is told of the lines that begin inside.
-/
structure IsTold
    (content : Content)
    (table : TokenTable)
    (info : PairInfo) :
    Prop where
  opening :
    info.openingRange.stop =
      info.openingRange.start + ⟨0, 1⟩
  indentation :
    info.minIndentation =
      told?
        (content.leastPlain table info.inside.start
          info.inside.stop)

end PairInfo

namespace Node

variable {content : Content} {table : TokenTable}
variable {text : List Char} {start : Position}
variable {known : List (Nat × Checked Nat)}

/-
  A node lies among the tokens of a text, its pairs are not
  cut off, and the values of its lists are known.
-/
structure IsTold
    (content : Content)
    (tokens : List Token)
    (known : List (Nat × Checked Nat))
    (start : Position)
    (node : Node) :
    Prop where
  lies : LiesAt start node
  stands : node.IsAt Forest.IsKept tokens start
  shallow : node.nesting ≤ maxQueryDepth + 1
  known :
    ∀ entry ∈ keyedValues content .empty start node,
      entry ∈ known

variable {key : Option Nat} {length : Length}
variable {missing : IdSet} {opener : Bracket}

/- What is inside a pair that is told is told. -/
theorem IsTold.child
    {part : Node}
    {closing : Option Node}
    (hLies : LiesAt (start + opener.length) part)
    (h :
      (Node.pair key length missing (.bracket opener)
        (some part) closing).IsTold content
          (Scan.tokens table text) known start) :
    part.IsTold content (Scan.tokens table text) known
      (start + opener.length) where
  lies := hLies
  stands := h.stands.child Forest.isInherited_isKept
  shallow :=
    (nesting_le_of_mem_children (by simp [children])).trans
      h.shallow
  known := h.known

/- So are the items of a list. -/
theorem IsTold.items
    {height : Nat}
    {items : List Node}
    (hItems : ∀ row ∈ placed start items, LiesAt row.1 row.2)
    (h :
      (Node.list key height length missing items).IsTold content
        (Scan.tokens table text) known start) :
    ∀ row ∈ placed start items,
      row.2.IsTold content (Scan.tokens table text) known
        row.1 := by
  intro row hRow
  have hMem : row.2 ∈ items := by
    rw [← map_placed start items]
    exact List.mem_map_of_mem hRow
  refine ⟨hItems row hRow,
    h.stands.items Forest.isInherited_isKept row hRow,
    (nesting_le_of_mem_children hMem).trans h.shallow, ?_⟩
  intro entry hEntry
  apply h.known
  rw [keyedValues, List.mem_append]
  exact .inr (mem_keyedValuesOfAll hRow entry hEntry)

/- The indentation inside a pair is found, and remembered. -/
theorem IsTold.ends_insideIndentation
    {child : Option Node}
    {closing : Option Node}
    {cache : IndentationCache}
    (hMeasured : content.IsMeasured table text)
    (hFunctional : IndentationCache.IsFunctional known)
    (hMiddle : (start + opener.length).Fits)
    (hChild :
      ∀ part, child = some part →
        LiesAt (start + opener.length) part)
    (h :
      (Node.pair key length missing (.bracket opener) child
        closing).IsTold content (Scan.tokens table text) known
          start)
    (hCache : cache.IsSound known .empty) :
    Ends (fun _ => False)
      (fun result =>
        result.1 =
            told?
              (content.leastPlain table
                (start + opener.length)
                (start + opener.length + partLength child)) ∧
          result.2.IsSound known .empty)
      (insideIndentation (some content) start cache
        (.pair key length missing (.bracket opener) child
          closing)) := by
  have hValue :
      recalled content .empty start
          (.pair key length missing (.bracket opener) child
            closing) =
        .ok (content.leastPlain table (start + opener.length)
          (start + opener.length + partLength child)) := by
    refine recalled_pair closing hMiddle ?_
    rintro part rfl
    exact recalled_eq hMeasured (hChild part rfl)
      (h.stands.child Forest.isInherited_isKept)
  have hDepth := h.shallow
  rw [← Nat.zero_add (nesting _)] at hDepth
  have hRecalls :=
    recalls_indentationAt start hFunctional hDepth h.known
      hCache
  rw [hValue] at hRecalls
  rcases hRecalls with
    ⟨fault, hFault, _⟩ |
      ⟨least, after, hLeast, hFound, hAfter⟩
  · cases hFault
  · cases hLeast
    unfold insideIndentation minIndentation
    simp only [hFound]
    exact ⟨rfl, hAfter⟩

end Node

namespace PairWalk

/-
  All records that were kept are told, and what is remembered
  is right.
-/
structure IsTold
    (content : Content)
    (table : TokenTable)
    (known : List (Nat × Checked Nat))
    (walk : PairWalk (List PairInfo)) :
    Prop where
  records : ∀ info ∈ walk.state, info.IsTold content table
  cache : walk.cache.IsSound known .empty

end PairWalk

namespace Node

variable {content : Content} {table : TokenTable}
variable {text : List Char} {start : Position}
variable {known : List (Nat × Checked Nat)}
variable {query : PairQuery} {around : List (List Char)}
variable {walk : PairWalk (List PairInfo)}

/- The walk of a node goes well, and all it keeps is told. -/
def TellsPairs
    (content : Content)
    (table : TokenTable)
    (known : List (Nat × Checked Nat))
    (query : PairQuery)
    (start : Position)
    (node : Node) :
    Prop :=
  ∀ around (walk : PairWalk (List PairInfo)),
    walk.IsTold content table known →
      Ends (fun _ => False)
        (fun flow =>
          flow.state.IsTold content table known ∧
            flow.goesOn = true)
        (walkPairs query Visitor.collect start
          (start + node.length) around walk node)

/- Of nodes in a row, those in the window are walked. -/
theorem ends_walkPairItems
    {items : List Node}
    (hItems :
      ∀ row ∈ placed start items,
        LiesAt row.1 row.2 ∧
          row.2.TellsPairs content table known query row.1)
    (hWalk : walk.IsTold content table known) :
    Ends (fun _ => False)
      (fun flow =>
        flow.state.IsTold content table known ∧
          flow.goesOn = true)
      (walkPairItems query Visitor.collect start around walk
        items) := by
  induction items generalizing start walk with
  | nil => exact ⟨hWalk, rfl⟩
  | cons item rest ih =>
      rw [placed, List.forall_mem_cons] at hItems
      rcases hItems with ⟨⟨hItem, hTells⟩, hRest⟩
      rw [walkPairItems]
      refine (Length.ends_plus_of_fits hItem.stop).bind ?_
      rintro _ rfl
      simp only
      split_ifs
      · refine (hTells around walk hWalk).bind ?_
        rintro flow ⟨hFlow, hGoesOn⟩
        rw [Flow.andThen, if_pos hGoesOn]
        exact ih hRest hFlow
      · exact ih hRest hWalk

/- The record of a pair is told with what is found inside. -/
theorem IsTold.record
    {key : Option Nat}
    {length : Length}
    {missing : IdSet}
    {opener : Bracket}
    {child : Option Node}
    {closer : Option Bracket}
    {info : PairInfo}
    (hMeasured : content.IsMeasured table text)
    (hLength :
      length =
        opener.length +
          (partLength child +
            partLength (closer.map .bracket)))
    (h :
      (Node.pair key length missing (.bracket opener) child
        (closer.map .bracket)).IsTold content
          (Scan.tokens table text) known start)
    (hRange : info.range = ⟨start, start + length⟩)
    (hOpening :
      info.openingRange = ⟨start, start + opener.length⟩)
    (hClosing :
      info.closingRange =
        closer.map fun _ =>
          ⟨start + opener.length + partLength child,
            start + length⟩)
    (hIndentation :
      info.minIndentation =
        told?
          (content.leastPlain table (start + opener.length)
            (start + opener.length + partLength child))) :
    info.IsTold content table := by
  have hInside :
      info.inside =
        ⟨start + opener.length,
          start + opener.length + partLength child⟩ := by
    rw [PairInfo.inside, hOpening, hClosing, hRange]
    cases closer with
    | none =>
        rw [stop_of_pair start hLength, Option.map_none,
          Option.map_none, Option.map_none, partLength,
          Option.getD_none, add_zero]
    | some leaf => rfl
  rcases h.stands.exists_brackets with
    ⟨⟨token, hToken, hBracket, hSame⟩, -⟩
  refine ⟨?_, ?_⟩
  · rw [hOpening, ← hSame,
      hMeasured.length_bracket hToken hBracket]
  · rw [hInside]
    exact hIndentation

/- Where a record is told, the walk goes on inside the pair. -/
theorem ends_visitPair
    {cache : IndentationCache}
    {info : PairInfo}
    {child : Option Node}
    (hWalk : walk.IsTold content table known)
    (hCache : cache.IsSound known .empty)
    (hInfo : info.IsTold content table)
    (hChild :
      ∀ part, child = some part →
        LiesAt start part ∧
          part.TellsPairs content table known query start) :
    Ends (fun _ => False)
      (fun flow =>
        flow.state.IsTold content table known ∧
          flow.goesOn = true)
      ((visitPair Visitor.collect ⟨walk.state, cache⟩
        info).andThen
          (walkInside query Visitor.collect start around
            child)) := by
  have hNext :
      PairWalk.IsTold content table known
        ⟨info :: walk.state, cache⟩ :=
    ⟨List.forall_mem_cons.2 ⟨hInfo, hWalk.records⟩, hCache⟩
  rw [Flow.andThen, visitPair]
  simp only [Visitor.collect, Flow.go, if_true]
  cases child with
  | none => exact ⟨hNext, rfl⟩
  | some part =>
      rcases hChild part rfl with ⟨hPart, hTells⟩
      refine (Length.ends_plus_of_fits hPart.stop).bind ?_
      rintro _ rfl
      split_ifs
      · exact hTells around _ hNext
      · exact ⟨hNext, rfl⟩

/-
  A walk of a node that is told keeps its records as they
  are told.  The induction is on the node: a pair is visited
  before what is inside it, and a list is walked item by
  item.
-/
theorem IsTold.tellsPairs
    {node : Node}
    (hMeasured : content.IsMeasured table text)
    (hFunctional : IndentationCache.IsFunctional known)
    (hContent : query.content = some content)
    (h :
      node.IsTold content (Scan.tokens table text) known
        start) :
    node.TellsPairs content table known query start := by
  induction node using Node.induction
    generalizing start with
  | text key length => exact fun _ _ hWalk => ⟨hWalk, rfl⟩
  | bracket leaf => exact fun _ _ hWalk => ⟨hWalk, rfl⟩
  | invalid key ids length =>
      exact fun _ _ hWalk => ⟨hWalk, rfl⟩
  | pair key length missing opening child closing ih =>
      intro around walk hWalk
      have hLies := h.lies
      cases hLies with
      | @pair _ _ opener _ closer _ _ hOpener hMiddle hChild
          hCloser hLength hStop =>
      unfold walkPairs
      split_ifs with hDeep
      · exact ⟨hWalk, rfl⟩
      have hFirst :
          Ends (fun _ => False) (· = opener)
            (openingOf (.bracket opener)) :=
        rfl
      refine hFirst.bind ?_
      rintro opener rfl
      refine (Length.ends_plus_of_fits hMiddle).bind ?_
      rintro _ rfl
      rw [hContent]
      refine (h.ends_insideIndentation hMeasured hFunctional
        hMiddle hChild hWalk.cache).bind ?_
      rintro ⟨indentation, cache⟩ ⟨hIndentation, hCache⟩
      have hInside :
          (start + opener.length + partLength child).Fits := by
        cases child with
        | none => exact hMiddle
        | some part => exact (hChild part rfl).stop
      refine ends_closingRange closer hInside ?_
      refine ends_visitPair hWalk hCache
        (h.record hMeasured hLength rfl rfl rfl hIndentation)
        ?_
      rintro part rfl
      have hPart := hChild part rfl
      exact ⟨hPart, ih part rfl (h.child hPart)⟩
  | list key height length missing items ih =>
      intro around walk hWalk
      have hLies := h.lies
      cases hLies with
      | list _ _ _ hSome hItems hLength hStop =>
      unfold walkPairs
      split_ifs
      · exact ⟨hWalk, rfl⟩
      · refine ends_walkPairItems (fun row hRow => ?_) hWalk
        have hRowTold := h.items hItems row hRow
        refine ⟨hRowTold.lies, ih row.2 ?_ hRowTold⟩
        rw [← map_placed start items]
        exact List.mem_map_of_mem hRow

end Node

end Bracketry

------------------------------------------------------------
-- Trees of a Text
------------------------------------------------------------

namespace Bracketry

namespace Node

/-
  Where the pairs of a tree and those around it stay within
  the limit of a parse, no opening bracket is hidden.
-/
theorem isShallow_of_nesting
    {node : Node}
    {forest : Forest Token}
    {opens : Nat → Prop}
    {level : Nat}
    (hShape : forest.shape = node.shape)
    (hNests :
      forest.Nests (Parser.maxNestingLevel < ·) opens level)
    (hLevel :
      level + node.nesting ≤ Parser.maxNestingLevel) :
    forest.IsShallow := by
  induction node using Node.induction
    generalizing forest level with
  | text key length =>
      rcases Forest.exists_of_shape_eq_leaf hShape with
        ⟨token, rfl, _⟩
      refine ⟨?_, trivial⟩
      rw [Bool.eq_false_iff]
      intro hOpening
      have hDeep := hNests.1 hOpening
      omega
  | bracket leaf =>
      rcases Forest.exists_of_shape_eq_leaf hShape with
        ⟨token, rfl, hSign⟩
      cases congrArg Sign.kind hSign
  | invalid key ids length =>
      rcases Forest.exists_of_shape_eq_stray hShape with
        ⟨token, rfl, _⟩
      trivial
  | pair key length missing opening child closing ih =>
      rw [shape_pair] at hShape
      rw [nesting_pair] at hLevel
      rcases Forest.exists_of_shape_eq_pair hShape with
        ⟨first, inside, last, rfl, _, hInside, _⟩
      refine ⟨?_, trivial⟩
      cases child with
      | none =>
          rcases Forest.shape_eq_nil.1 hInside with rfl
          trivial
      | some part =>
          rw [partNesting] at hLevel
          exact ih part rfl hInside hNests.2.1 (by omega)
  | list key height length missing items ih =>
      rw [nesting] at hLevel
      rw [shape] at hShape
      induction items generalizing forest with
      | nil =>
          rcases Forest.shape_eq_nil.1 hShape with rfl
          trivial
      | cons item rest ihRest =>
          rw [List.forall_mem_cons] at ih
          rw [nestingOfAll] at hLevel
          rcases Forest.exists_of_shape_append hShape with
            ⟨first, others, rfl, hFirst, hOthers⟩
          rcases Forest.nests_append.1 hNests with
            ⟨hHere, hThere⟩
          exact Forest.isShallow_append.2
            ⟨ih.1 hFirst hHere (by omega),
              ihRest ih.2 hOthers hThere (by omega)⟩

end Node

namespace Content

variable {table : TokenTable} {content : Content}
variable {text : List Char}

/-
  A text is parsed, and its tree is told unless it is empty
  or its pairs are cut off.
-/
theorem IsMeasured.exists_root
    (h : content.IsMeasured table text) :
    ∃ root stats,
      parseDocument (TokenStream.ofText table text) [] none =
          .ok (root, stats) ∧
        (root.nesting ≤ maxQueryDepth + 1 →
          Node.LiesAt 0 root →
            root.IsTold content (Scan.tokens table text)
              (Node.keyedValues content .empty 0 root) 0) := by
  have hSpells :=
    Scan.spells_tokens h.solid h.symbolic.isFlat text
  have hSmall : Measured.IsSmall (text ++ []) := by
    rw [List.append_nil]
    exact h.short.isSmall
  have hFew : (Scan.tokens table text).length < 2 ^ 64 := by
    have hShort := h.short
    have hTokens := hSpells.length_le
    have hLength := TextChar.length_le text
    rw [TextChar.ofText, List.length_map] at hLength
    unfold Text.IsShort at hShort
    omega
  rcases parseDocument_of_tokens
      (TextByte.regular_of_spells h.solid hSpells)
      (hSpells.allFit hSmall) hFew
      (Scan.length (Scan.tokens table text)) with
    ⟨root, stats, forest, hParse, hRoot, hShape, hMatched,
      hDeep, hLeaves⟩
  refine ⟨root, stats, hParse, fun hNesting hLies => ?_⟩
  have hProper : root.IsProper := by
    refine hRoot.resolve_right ?_
    rintro ⟨key, rfl⟩
    exact hLies.ne_zero rfl
  have hLimit : maxQueryDepth + 1 ≤ Parser.maxNestingLevel := by
    decide
  have hShallow : forest.IsShallow :=
    Node.isShallow_of_nesting hShape.symm hDeep (by omega)
  have hShows : root.Shows Forest.IsKept forest :=
    ⟨hProper, hShape.symm, hMatched, hShallow⟩
  rw [← hLeaves]
  exact
    { lies := hLies
      stands := hShows.isAt
      shallow := hNesting
      known := fun _ hEntry => hEntry }

end Content

end Bracketry

------------------------------------------------------------
-- Margins of the Lines Inside
------------------------------------------------------------

namespace Bracketry

namespace PairInfo

/-
  A line is counted for a pair if it begins inside and not
  with a bracket.
-/
def counts
    (table : TokenTable)
    (info : PairInfo)
    (number : Nat)
    (text : List Char) :
    Bool :=
  decide (info.inside.start ≤ ⟨number, 0⟩) &&
    decide (⟨number, 0⟩ < info.inside.stop) &&
      table.beginsPlain text

/- Where the margin of a line ends. -/
def marginStop
    (number : Nat)
    (text : List Char) :
    Position :=
  ⟨number, Text.byteSize (Text.margin text)⟩

/-
  A line behind that of the opening bracket has its margin
  end inside of the pair.
-/
def indents
    (info : PairInfo)
    (number : Nat)
    (text : List Char) :
    Bool :=
  decide (info.openingRange.start.lines < number) &&
    (decide (info.inside.start ≤ marginStop number text) &&
      decide (marginStop number text < info.inside.stop))

/-
  Each line that begins inside begins with no bracket, and
  its margin ends inside.
-/
def IsAligned
    (content : Content)
    (table : TokenTable)
    (info : PairInfo) :
    Prop :=
  ∀ row ∈ content.lines.zipIdx,
    info.inside.start ≤ ⟨row.2, 0⟩ →
      (⟨row.2, 0⟩ : Position) < info.inside.stop →
        table.beginsPlain row.1.text = true ∧
          marginStop row.2 row.1.text < info.inside.stop

instance
    (content : Content)
    (table : TokenTable)
    (info : PairInfo) :
    Decidable (info.IsAligned content table) :=
  inferInstanceAs (Decidable (∀ _ ∈ _, _))

variable {content : Content} {table : TokenTable}
variable {info : PairInfo}

/- A line that begins inside is behind the opening bracket. -/
theorem IsTold.inside_le_iff
    {number : Nat}
    (h : info.IsTold content table) :
    info.inside.start ≤ (⟨number, 0⟩ : Position) ↔
      info.openingRange.start.lines < number := by
  rw [inside, h.opening, Length.add_def, if_pos rfl,
    Length.le_def]
  simp

/-
  Where a pair is aligned, the lines that are counted for it
  are those whose margins end inside.
-/
theorem IsTold.counts_eq
    (h : info.IsTold content table)
    (hAligned : info.IsAligned content table) :
    ∀ row ∈ content.lines.zipIdx,
      info.counts table row.2 row.1.text =
        info.indents row.2 row.1.text := by
  intro row hRow
  have hLe :
      (⟨row.2, 0⟩ : Position) ≤
        marginStop row.2 row.1.text := by
    rw [Length.le_def]
    exact .inr ⟨rfl, Nat.zero_le _⟩
  rw [Bool.eq_iff_iff]
  simp only [counts, indents, Bool.and_eq_true,
    decide_eq_true_eq]
  constructor
  · rintro ⟨⟨hStart, hStop⟩, _⟩
    exact ⟨h.inside_le_iff.1 hStart, hStart.trans hLe,
      (hAligned row hRow hStart hStop).2⟩
  · rintro ⟨hLine, _, hStop⟩
    have hStart := h.inside_le_iff.2 hLine
    have hBegins := hLe.trans_lt hStop
    exact ⟨⟨hStart, hBegins⟩,
      (hAligned row hRow hStart hBegins).1⟩

/- What is told of a pair, by the lines of the text. -/
theorem IsTold.minIndentation_eq
    (hMargins : content.FitsMargins)
    (h : info.IsTold content table) :
    info.minIndentation =
      content.leastWhere (info.counts table) := by
  rw [h.indentation]
  exact Content.told?_linesFrom hMargins

end PairInfo

namespace Node

open Checked

variable {content : Content} {table : TokenTable}
variable {text : List Char}

/- All pairs that are listed with a text are told. -/
theorem ends_pairsIn
    {root : Node}
    {next : Nat}
    (window : Range)
    (h : content.IsMeasured table text)
    (hKeyed : root.IsKeyed next)
    (hRoot :
      root.IsTold content (Scan.tokens table text)
          (keyedValues content .empty 0 root) 0 ∨
        ∃ key, root = .list key 0 0 IdSet.empty []) :
    Ends (fun _ => False)
      (fun found =>
        ∀ info ∈ found.1, info.IsTold content table)
      (root.pairsIn ⟨window, some content⟩ .empty) := by
  rcases hRoot with hTold | ⟨key, rfl⟩
  · have hWalk :
        PairWalk.IsTold content table
          (keyedValues content .empty 0 root) ⟨[], .empty⟩ :=
      ⟨List.forall_mem_nil _, isSound_keyedValues _ _ _ _⟩
    have hContent :
        PairQuery.content ⟨window, some content⟩ =
          some content :=
      rfl
    have hTells :=
      hTold.tellsPairs h (isFunctional_keyedValues 0 hKeyed)
        hContent [] _ hWalk
    rw [zero_add] at hTells
    refine hTells.bind ?_
    rintro flow ⟨hFlow, -⟩ info hInfo
    exact hFlow.records info (List.mem_reverse.1 hInfo)
  · exact List.forall_mem_nil _

/-
  The pairs of a text are listed with the indentations of
  what is inside them.  The indentation of a pair is the least
  one of the lines that begin behind its opening bracket and
  before its closing one, but not with a bracket.

  So a line inside that begins with a bracket is left out,
  though its first character is in the first column, and the
  line of the closing bracket counts wherever that is not in
  the first column.  Where no line is such a one, the
  indentation is that of all lines behind the one of the
  opening bracket on which the first character that is
  neither blank nor tab stands inside of the pair.
-/
theorem leastWhere_of_pairsIn
    {declaration : BracketDeclaration}
    {document : Document}
    (hSymbolic : declaration.IsSymbolic)
    (hShort : Text.IsShort document.text)
    (hMargins : (Content.ofDocument document).FitsMargins) :
    let table := TokenTable.ofDeclaration declaration
    let content := Content.ofDocument document
    ∃ root stats,
      parseDocument (TokenStream.ofText table document.text) []
          none = .ok (root, stats) ∧
        (root.nesting ≤ maxQueryDepth + 1 →
          ∀ window, ∃ plain pairs cache,
            root.pairsIn ⟨window, none⟩ .empty =
                .ok (plain, .empty) ∧
              root.pairsIn ⟨window, some content⟩ .empty =
                .ok (pairs, cache) ∧
              pairs.map PairInfo.withoutIndentation =
                plain.map PairInfo.withoutIndentation ∧
              ∀ info ∈ pairs,
                info.minIndentation =
                    content.leastWhere (info.counts table) ∧
                  (info.IsAligned content table →
                    info.minIndentation =
                      content.leastWhere info.indents)) := by
  intro table content
  have hMeasured : content.IsMeasured table document.text :=
    ⟨TokenTable.isSymbolic_ofDeclaration hSymbolic,
      TokenTable.isSolid_ofDeclaration declaration, rfl, hShort,
      hMargins⟩
  rcases hMeasured.exists_root with ⟨root, stats, hParse, hTold⟩
  refine ⟨root, stats, hParse, fun hNesting window => ?_⟩
  have hBuilt : root.IsBuilt :=
    .ofText declaration document.text hParse
  have hKeyed : root.IsKeyed 0 := by
    have hKeys : root.listKeys = [] :=
      List.eq_nil_of_sublist_nil (listKeys_parseDocument hParse)
    exact ⟨by simp [hKeys], by simp [hKeys]⟩
  rcases (ends_pairsIn window hMeasured hKeyed
      (hBuilt.liesAt.imp_left (hTold hNesting))).exists_ok with
    ⟨⟨pairs, cache⟩, hPairs, hAll⟩
  have hSame :=
    (hBuilt.ends_pairsIn ⟨window, some content⟩ .empty).of_ok
      hPairs
  refine ⟨foundPairs window root, pairs, cache,
    hBuilt.pairsIn_eq window .empty, hPairs, hSame.1, ?_⟩
  intro info hInfo
  have hInfoTold := hAll info hInfo
  have hLeast := hInfoTold.minIndentation_eq hMargins
  refine ⟨hLeast, fun hAligned => ?_⟩
  rw [hLeast]
  exact Content.leastWhere_congr (hInfoTold.counts_eq hAligned)

/- A line inside, indented by a tab, and one that is blank. -/
theorem leastWhere_of_pairsIn_parens :
    let declaration : BracketDeclaration :=
      ⟨[⟨['('], [')']⟩, ⟨['['], [']']⟩], none⟩
    let table := TokenTable.ofDeclaration declaration
    let document :=
      (Document.ofText
        ['(', '\n', ' ', '\n', '\t', '[', ']', '\n',
          ')']).withTabSize 8
    let content := Content.ofDocument document
    let window : Range := ⟨⟨0, 0⟩, ⟨4, 0⟩⟩
    ∃ root stats pairs cache,
      declaration.IsSymbolic ∧ Text.IsShort document.text ∧
        content.FitsMargins ∧
        parseDocument (TokenStream.ofText table document.text)
            [] none = .ok (root, stats) ∧
        root.nesting ≤ maxQueryDepth + 1 ∧
        root.pairsIn ⟨window, some content⟩ .empty =
          .ok (pairs, cache) ∧
        pairs.map PairInfo.minIndentation = [some 8, none] ∧
        ∀ info ∈ pairs,
          info.IsAligned content table ∧
            info.minIndentation =
              content.leastWhere info.indents := by
  intro declaration table document content window
  have hSymbolic : declaration.IsSymbolic := by decide
  have hShort : Text.IsShort document.text := by decide
  have hMargins : content.FitsMargins := by decide
  let test (root : Node) : Bool :=
    decide (root.nesting ≤ maxQueryDepth + 1) &&
      (root.pairsIn ⟨window, some content⟩
          .empty).toOption.any fun found =>
        decide (found.1.map PairInfo.minIndentation =
            [some 8, none]) &&
          decide (∀ info ∈ found.1,
            info.IsAligned content table)
  rcases exists_isBuilt test
      (show (parseDocument
          (TokenStream.ofText table document.text) []
            none).toOption.any _ = true by decide +kernel) with
    ⟨root, stats, hParse, -, hTest⟩
  rcases Bool.and_eq_true_iff.1 hTest with ⟨hNesting, hGood⟩
  have hShallow := of_decide_eq_true hNesting
  rcases leastWhere_of_pairsIn hSymbolic hShort hMargins with
    ⟨_, _, hOther, hAll⟩
  cases hOther.symm.trans hParse
  rcases hAll hShallow window with
    ⟨_, pairs, cache, _, hFound, _, hLeast⟩
  rcases Checked.exists_of_any hGood with ⟨_, hPairs, hGood⟩
  cases hPairs.symm.trans hFound
  rcases Bool.and_eq_true_iff.1 hGood with ⟨hColumns, hAligned⟩
  have hAligned := of_decide_eq_true hAligned
  exact ⟨root, stats, pairs, cache, hSymbolic, hShort, hMargins,
    hParse, hShallow, hPairs, of_decide_eq_true hColumns,
    fun info hInfo =>
      ⟨hAligned info hInfo,
        (hLeast info hInfo).2 (hAligned info hInfo)⟩⟩

/-
  The line in the pair begins with a bracket, in the first
  column, and does not count for it.
-/
example :
    let declaration : BracketDeclaration :=
      ⟨[⟨['('], [')']⟩, ⟨['['], [']']⟩], none⟩
    let document :=
      Document.ofText ['(', '\n', '[', ']', '\n', ')']
    let query : PairQuery :=
      ⟨⟨⟨0, 0⟩, ⟨3, 0⟩⟩, some (Content.ofDocument document)⟩
    ((parseDocument
        (TokenStream.ofText
          (TokenTable.ofDeclaration declaration)
          document.text) [] none).toOption.bind fun made =>
      (made.1.pairsIn query .empty).toOption.map fun found =>
        found.1.map PairInfo.minIndentation) =
      some [none, none] := by
  decide +kernel

end Node

end Bracketry
