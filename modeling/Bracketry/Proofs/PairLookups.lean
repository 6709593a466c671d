import Bracketry.Proofs.PairWalks

/-
  The pairs at a position.

  Of two pairs of a tree, one lies between the brackets of
  the other, or behind it.  So at most one pair has a bracket
  at a position, and of the pairs around a position each lies
  within those that are listed before it.  A lookup walks the
  pairs that touch the position; no pair that could answer it
  is left out.

  Key definitions include:
    * `PairInfo.IsLaidOut`, `PairInfo.Holds`
    * `PairInfo.IsInnermost`

  Main declarations:
    * `Node.LiesAt.pairwise_pairRecords`
    * `Visitor.feed_matching`, `Visitor.feed_surrounding`
    * `Node.lookups_of_pairsIn`
-/

------------------------------------------------------------
-- How Pairs Lie
------------------------------------------------------------

namespace Bracketry

namespace PairInfo

/- The brackets of a pair are the two ends of it. -/
structure IsLaidOut
    (info : PairInfo) :
    Prop where
  opening_start : info.openingRange.start = info.range.start
  opening_lt :
    info.openingRange.start < info.openingRange.stop
  opening_le : info.openingRange.stop ≤ info.range.stop
  closing_ge :
    ∀ closing, info.closingRange = some closing →
      info.openingRange.stop ≤ closing.start
  closing_lt :
    ∀ closing, info.closingRange = some closing →
      closing.start < closing.stop
  closing_stop :
    ∀ closing, info.closingRange = some closing →
      closing.stop = info.range.stop

/- Another pair lies between the brackets of a pair. -/
structure Holds
    (outer inner : PairInfo) :
    Prop where
  start : outer.openingRange.stop ≤ inner.range.start
  stop : inner.range.stop ≤ outer.range.stop
  closing :
    ∀ closing, outer.closingRange = some closing →
      inner.range.stop ≤ closing.start

/- The first pair holds the second or ends before it. -/
def Precedes
    (first next : PairInfo) :
    Prop :=
  first.Holds next ∨ first.range.stop ≤ next.range.start

end PairInfo

namespace Enclosure

variable {start : Position} {length inside : Length}

/- The brackets of a pair begin and end it. -/
theorem isLaidOut_info
    (pair : Enclosure)
    (around : List Enclosure)
    (hOpening : pair.opening.length ≠ 0)
    (hClosing :
      ∀ leaf, pair.closing = some leaf → leaf.length ≠ 0)
    (hStop :
      start + length =
        start + pair.opening.length + inside +
          Node.partLength (pair.closing.map .bracket)) :
    (pair.info start length inside around).IsLaidOut := by
  have hInside :=
    Length.le_add_right (start + pair.opening.length) inside
  have hLast :=
    Length.le_add_right
      (start + pair.opening.length + inside)
      (Node.partLength (pair.closing.map .bracket))
  have hRange :
      ∀ closing,
        (pair.info start length inside around).closingRange =
            some closing →
          ∃ leaf,
            pair.closing = some leaf ∧
              closing =
                ⟨start + pair.opening.length + inside,
                  start + length⟩ := by
    intro closing hSome
    rcases Option.map_eq_some_iff.1 hSome with
      ⟨leaf, hLeaf, hSame⟩
    exact ⟨leaf, hLeaf, hSame.symm⟩
  refine ⟨rfl, Length.lt_add_right hOpening, ?_, ?_, ?_, ?_⟩
  · change _ ≤ start + length
    rw [hStop]
    exact hInside.trans hLast
  · intro closing hSome
    rcases hRange closing hSome with ⟨leaf, _, rfl⟩
    exact hInside
  · intro closing hSome
    rcases hRange closing hSome with ⟨leaf, hLeaf, rfl⟩
    have hLength :
        Node.partLength (pair.closing.map .bracket) ≠ 0 := by
      rw [hLeaf]
      exact hClosing leaf hLeaf
    change _ < start + length
    rw [hStop]
    exact Length.lt_add_right hLength
  · intro closing hSome
    rcases hRange closing hSome with ⟨leaf, _, rfl⟩
    rfl

/- What lies inside a pair lies between its brackets. -/
theorem holds_info
    {info : PairInfo}
    {depth : Nat}
    (pair : Enclosure)
    (around : List Enclosure)
    (hStop :
      start + length =
        start + pair.opening.length + inside +
          Node.partLength (pair.closing.map .bracket))
    (hInfo :
      info.IsWithin (start + pair.opening.length)
        (start + pair.opening.length + inside) depth) :
    (pair.info start length inside around).Holds info := by
  refine ⟨hInfo.start_le, ?_, ?_⟩
  · change _ ≤ start + length
    rw [hStop]
    exact hInfo.le_stop.trans (Length.le_add_right _ _)
  · intro closing hSome
    rcases Option.map_eq_some_iff.1 hSome with ⟨leaf, _, rfl⟩
    exact hInfo.le_stop

end Enclosure

namespace Node

variable {start : Position} {node : Node}

/- The pairs of a tree have their brackets at their ends. -/
theorem LiesAt.isLaidOut
    (h : LiesAt start node)
    (around : List Enclosure) :
    ∀ info ∈ node.pairRecords start around,
      info.IsLaidOut := by
  induction h generalizing around with
  | text key hLength hStop => exact List.forall_mem_nil _
  | stray key ids hLength hStop => exact List.forall_mem_nil _
  | @pair start length opener child closer key missing
      hOpener hMiddle hChild hCloser hLength hStop ih =>
      rw [pairRecords_pair, List.forall_mem_cons]
      refine ⟨?_, ?_⟩
      · exact Enclosure.isLaidOut_info ⟨opener, closer⟩ around
          hOpener hCloser (stop_of_pair start hLength)
      · cases child with
        | none => exact List.forall_mem_nil _
        | some part => exact ih part rfl _
  | list key height missing hSome hItems hLength hStop ih =>
      rw [pairRecords, pairRecordsOfAll_eq_flatMap]
      intro info hMem
      rcases List.mem_flatMap.1 hMem with ⟨row, hRow, hMem⟩
      exact ih row hRow around info hMem

/-
  Of two pairs of a tree, the one that is listed first holds
  the other or ends before it.  The parts of a list lie one
  behind the other; what is inside a pair, between its
  brackets.
-/
theorem LiesAt.pairwise_pairRecords
    (h : LiesAt start node)
    (around : List Enclosure) :
    (node.pairRecords start around).Pairwise
      PairInfo.Precedes := by
  induction h generalizing around with
  | text key hLength hStop => exact .nil
  | stray key ids hLength hStop => exact .nil
  | @pair start length opener child closer key missing
      hOpener hMiddle hChild hCloser hLength hStop ih =>
      rw [pairRecords_pair, List.pairwise_cons]
      cases child with
      | none => exact ⟨List.forall_mem_nil _, .nil⟩
      | some part =>
          refine ⟨fun info hInfo => .inl ?_, ih part rfl _⟩
          exact Enclosure.holds_info ⟨opener, closer⟩ around
            (stop_of_pair start hLength)
            ((hChild part rfl).pairRecords_isWithin _ info
              hInfo)
  | @list start length items key height missing hSome hItems
      hLength hStop ih =>
      rw [pairRecords, pairRecordsOfAll_eq_flatMap,
        List.pairwise_flatMap]
      refine ⟨fun row hRow => ih row hRow around, ?_⟩
      refine (pairwise_placed start items).imp_of_mem ?_
      intro a b hA hB hOrder x hX y hY
      have hFirst :=
        (hItems a hA).pairRecords_isWithin around x hX
      have hNext :=
        (hItems b hB).pairRecords_isWithin around y hY
      exact .inr
        (hFirst.le_stop.trans (hOrder.trans hNext.start_le))

/- The pairs of a built tree that a query can tell of. -/
theorem IsBuilt.pairwise_plainPairs
    {root : Node}
    (hBuilt : root.IsBuilt) :
    root.plainPairs.Pairwise PairInfo.Precedes ∧
      ∀ info ∈ root.plainPairs, info.IsLaidOut := by
  rcases hBuilt.liesAt with hRoot | ⟨key, rfl⟩
  · refine ⟨(hRoot.pairwise_pairRecords []).filter _, ?_⟩
    intro info hListed
    exact hRoot.isLaidOut [] info (List.mem_filter.1 hListed).1
  · exact ⟨.nil, List.forall_mem_nil _⟩

end Node

end Bracketry

------------------------------------------------------------
-- Pairs at One Position
------------------------------------------------------------

namespace Bracketry

namespace Range

variable {range : Range} {position : Position}

theorem contains_iff :
    range.contains position = true ↔
      range.start ≤ position ∧ position < range.stop := by
  simp [contains]

theorem strictlyContains_iff :
    range.strictlyContains position = true ↔
      range.start < position ∧ position < range.stop := by
  simp [strictlyContains]

end Range

namespace PairInfo

variable {position : Position} {info outer inner : PairInfo}

/- The pair is closed, and it is around a position. -/
def surrounds
    (position : Position)
    (info : PairInfo) :
    Bool :=
  info.closingRange.isSome &&
    info.range.strictlyContains position

/-
  Of the closed pairs of a list that are around a position,
  the one that lies within all the others.
-/
structure IsInnermost
    (position : Position)
    (pairs : List PairInfo)
    (info : PairInfo) :
    Prop where
  mem : info ∈ pairs
  surrounds : info.surrounds position = true
  within :
    ∀ other ∈ pairs, other.surrounds position = true →
      other ≠ info →
        other.range.start < info.range.start ∧
          info.range.stop < other.range.stop

/- The brackets of a pair, as they are told of a match. -/
def toMatch
    (info : PairInfo) :
    BracketMatch :=
  ⟨info.openingRange, info.closingRange⟩

/- The two brackets of a pair that is closed. -/
def bothBrackets?
    (info : PairInfo) :
    Option (Range × Range) :=
  info.closingRange.map (info.openingRange, ·)

theorem hasBracketAt_iff :
    info.hasBracketAt position = true ↔
      info.openingRange.contains position = true ∨
        ∃ closing,
          info.closingRange = some closing ∧
            closing.contains position = true := by
  rw [hasBracketAt, Bool.or_eq_true, Option.any_eq_true]

theorem surrounds_iff :
    info.surrounds position = true ↔
      (∃ closing, info.closingRange = some closing) ∧
        info.range.start < position ∧
        position < info.range.stop := by
  rw [surrounds, Bool.and_eq_true, Option.isSome_iff_exists,
    Range.strictlyContains_iff]

/- A bracket of a pair lies within the pair. -/
theorem IsLaidOut.contains_of_hasBracketAt
    (h : info.IsLaidOut)
    (hBracket : info.hasBracketAt position = true) :
    info.range.start ≤ position ∧
      position < info.range.stop := by
  rcases hasBracketAt_iff.1 hBracket with
    hOpening | ⟨closing, hSome, hClosing⟩
  · rcases Range.contains_iff.1 hOpening with ⟨hStart, hStop⟩
    rw [h.opening_start] at hStart
    exact ⟨hStart, hStop.trans_le h.opening_le⟩
  · rcases Range.contains_iff.1 hClosing with ⟨hStart, hStop⟩
    rw [h.closing_stop closing hSome] at hStop
    refine ⟨?_, hStop⟩
    rw [← h.opening_start]
    exact h.opening_lt.le.trans
      ((h.closing_ge closing hSome).trans hStart)

/- No two pairs have a bracket at one position. -/
theorem Precedes.not_hasBracketAt
    (h : outer.Precedes inner)
    (hOuter : outer.IsLaidOut)
    (hInner : inner.IsLaidOut)
    (hFirst : outer.hasBracketAt position = true) :
    ¬inner.hasBracketAt position = true := by
  intro hNext
  rcases hInner.contains_of_hasBracketAt hNext with
    ⟨hStart, hStop⟩
  rcases h with hHolds | hBehind
  · rcases hasBracketAt_iff.1 hFirst with
      hOpening | ⟨closing, hSome, hClosing⟩
    · have hLess := (Range.contains_iff.1 hOpening).2
      exact absurd (hHolds.start.trans hStart)
        (not_le.2 hLess)
    · have hLess := (Range.contains_iff.1 hClosing).1
      exact absurd
        (hStop.trans_le (hHolds.closing closing hSome))
        (not_lt.2 hLess)
  · have hLess := (hOuter.contains_of_hasBracketAt hFirst).2
    exact absurd (hBehind.trans hStart) (not_le.2 hLess)

/- Of two pairs around a position, the first holds the other. -/
theorem Precedes.holds_of_surrounds
    (h : outer.Precedes inner)
    (hFirst : outer.surrounds position = true)
    (hNext : inner.surrounds position = true) :
    outer.Holds inner := by
  refine h.resolve_right fun hBehind => ?_
  have hStop := (surrounds_iff.1 hFirst).2.2
  have hStart := (surrounds_iff.1 hNext).2.1
  exact absurd (hBehind.trans hStart.le) (not_le.2 hStop)

/- A closed pair is wider than one that it holds. -/
theorem Holds.isWider
    (h : outer.Holds inner)
    (hOuter : outer.IsLaidOut)
    (hClosed : outer.closingRange.isSome = true) :
    outer.range.start < inner.range.start ∧
      inner.range.stop < outer.range.stop := by
  rcases Option.isSome_iff_exists.1 hClosed with
    ⟨closing, hSome⟩
  constructor
  · rw [← hOuter.opening_start]
    exact hOuter.opening_lt.trans_le h.start
  · rw [← hOuter.closing_stop closing hSome]
    exact (h.closing closing hSome).trans_lt
      (hOuter.closing_lt closing hSome)

/- At most one pair of a list has a bracket at a position. -/
theorem exists_filter_hasBracketAt
    {pairs : List PairInfo}
    (position : Position)
    (hOrder : pairs.Pairwise Precedes)
    (hLaidOut : ∀ info ∈ pairs, info.IsLaidOut) :
    ∃ matched : Option PairInfo,
      pairs.filter (·.hasBracketAt position) =
        matched.toList := by
  have hApart :
      (pairs.filter (·.hasBracketAt position)).Pairwise
        fun _ _ => False := by
    refine (hOrder.filter _).imp_of_mem ?_
    intro outer inner hFirst hNext hPrecedes
    rcases List.mem_filter.1 hFirst with ⟨hOuter, hAt⟩
    rcases List.mem_filter.1 hNext with ⟨hInner, hThere⟩
    exact hPrecedes.not_hasBracketAt (hLaidOut _ hOuter)
      (hLaidOut _ hInner) hAt hThere
  generalize pairs.filter (·.hasBracketAt position) = found
    at hApart ⊢
  rcases found with _ | ⟨info, _ | ⟨next, rest⟩⟩
  · exact ⟨none, rfl⟩
  · exact ⟨some info, rfl⟩
  · exact ((List.pairwise_cons.1 hApart).1 next
      (List.mem_cons_self ..)).elim

/- The last closed pair around a position is the innermost. -/
theorem isInnermost_getLast?
    {pairs : List PairInfo}
    (hOrder : pairs.Pairwise Precedes)
    (hLaidOut : ∀ info ∈ pairs, info.IsLaidOut)
    (hLast :
      (pairs.filter (surrounds position)).getLast? =
        some info) :
    info.IsInnermost position pairs := by
  rcases List.getLast?_eq_some_iff.1 hLast with ⟨others, hSplit⟩
  have hInfo : info ∈ pairs.filter (surrounds position) := by
    rw [hSplit]
    simp
  rcases List.mem_filter.1 hInfo with ⟨hMem, hAround⟩
  refine ⟨hMem, hAround, ?_⟩
  intro other hOther hSurrounds hDiffers
  have hFirst : other ∈ others := by
    have hListed :=
      List.mem_filter.2 ⟨hOther, hSurrounds⟩
    rw [hSplit, List.mem_append, List.mem_singleton]
      at hListed
    exact hListed.resolve_right hDiffers
  have hBoth := hOrder.filter (surrounds position)
  rw [hSplit, List.pairwise_append] at hBoth
  have hPrecedes :=
    hBoth.2.2 other hFirst info (List.mem_singleton_self _)
  exact (hPrecedes.holds_of_surrounds hSurrounds hAround).isWider
    (hLaidOut other hOther)
    (Option.isSome_iff_exists.2
      (surrounds_iff.1 hSurrounds).1)

end PairInfo

end Bracketry

------------------------------------------------------------
-- What the Lookups Keep
------------------------------------------------------------

namespace Bracketry

open PairInfo

namespace Visitor

/- A visitor that halts keeps what it halts with. -/
theorem feed_halting
    {σ : Type}
    {visit : Visitor PairInfo σ}
    {test : PairInfo → Bool}
    {keep : PairInfo → σ}
    (hVisit :
      ∀ found info,
        visit found info =
          if test info then Flow.halt (keep info)
          else Flow.go found)
    (found : σ)
    (infos : List PairInfo) :
    (visit.feed found infos).state =
      ((infos.find? test).map keep).getD found := by
  induction infos with
  | nil => rfl
  | cons info rest ih =>
      rw [feed, hVisit]
      by_cases hHere : test info = true
      · rw [if_pos hHere]
        simp only [List.find?_cons, hHere]
        rfl
      · rw [if_neg hHere]
        simp only [List.find?_cons, hHere]
        exact ih

/- The first pair with a bracket at the position is kept. -/
theorem feed_matching
    (position : Position)
    (infos : List PairInfo) :
    ((matching position).feed none infos).state =
      (infos.find? (·.hasBracketAt position)).map toMatch := by
  have hFed :
      ((matching position).feed none infos).state =
        ((infos.find? (·.hasBracketAt position)).map
          (some ∘ toMatch)).getD none :=
    feed_halting (fun _ _ => rfl) none infos
  rw [hFed]
  cases infos.find? (·.hasBracketAt position) <;> rfl

/- The last closed pair around the position is kept. -/
theorem feed_surrounding
    (position : Position)
    (found : Option (Range × Range))
    (infos : List PairInfo) :
    ((surrounding position).feed found infos).state =
      (((infos.filter (surrounds position)).getLast?).bind
        bothBrackets?).or found := by
  induction infos generalizing found with
  | nil => rfl
  | cons info rest ih =>
      have hGoes :
          (surrounding position found info).goesOn = true := by
        unfold surrounding
        split
        · split_ifs <;> rfl
        · rfl
      have hState :
          (surrounding position found info).state =
            if info.surrounds position then info.bothBrackets?
            else found := by
        unfold surrounding surrounds bothBrackets?
        cases info.closingRange with
        | none => rfl
        | some closing =>
            simp only [Option.isSome_some, Bool.true_and,
              Option.map_some]
            split_ifs <;> rfl
      rw [feed, if_pos hGoes, ih, hState, List.filter_cons]
      by_cases hAround : info.surrounds position = true
      · rcases (surrounds_iff.1 hAround).1 with ⟨closing, hSome⟩
        rw [if_pos hAround, if_pos hAround, List.getLast?_cons]
        cases hLast :
            (rest.filter (surrounds position)).getLast? with
        | none => simp [bothBrackets?, hSome]
        | some last =>
            have hMem := List.mem_of_getLast? hLast
            have hAround := (List.mem_filter.1 hMem).2
            rcases (surrounds_iff.1 hAround).1 with
              ⟨other, hOther⟩
            simp [bothBrackets?, hOther]
      · rw [if_neg hAround, if_neg hAround]

end Visitor

end Bracketry

------------------------------------------------------------
-- Lookups in a Tree
------------------------------------------------------------

namespace Bracketry

open Checked PairInfo

namespace Node

variable {root : Node} {position : Position}

/- Without a text, a visitor is handed the pairs found. -/
theorem IsBuilt.exists_visitPairs
    {σ : Type}
    (window : Range)
    (visit : Visitor PairInfo σ)
    (walk : PairWalk σ)
    (hBuilt : root.IsBuilt) :
    ∃ flow,
      root.visitPairs ⟨window, none⟩ visit walk = .ok flow ∧
        flow.state.state =
          (visit.feed walk.state
            (foundPairs window root)).state := by
  have hEnds := hBuilt.reportsPairs ⟨window, none⟩ visit walk
  rw [ends_iff] at hEnds
  cases hFlow :
      root.visitPairs ⟨window, none⟩ visit walk with
  | error fault =>
      have hText := (hEnds.2 fault hFlow).2
      cases hText
  | ok flow =>
      rcases (hEnds.1 flow hFlow).seen with
        ⟨seen, _, hExact, hFed⟩
      refine ⟨flow, rfl, ?_⟩
      rw [← hExact rfl, ← hFed]
      rfl

/- What a lookup asks of pairs, it asks of those it visits. -/
theorem filter_foundPairs
    {window : Range}
    {test : PairInfo → Bool}
    (hIn :
      ∀ info ∈ root.plainPairs, test info = true →
        info.isIn window = true) :
    (foundPairs window root).filter test =
      root.plainPairs.filter test := by
  rw [foundPairs, List.filter_filter]
  refine List.filter_congr fun info hInfo => ?_
  rw [Bool.and_eq_left_iff_imp]
  intro hTest
  rw [hIn info hInfo hTest, Bool.true_or]

/- The column of a lookup has a next one. -/
theorem checkedSum_one
    {column : Nat}
    (hColumn : column < maxCount) :
    checkedSum column 1 = .ok (column + 1) := by
  refine checkedSum_eq_ok_iff.2 ⟨?_, rfl⟩
  unfold maxCount at hColumn
  unfold countLimit
  omega

/- No bracket at a position is outside of its column. -/
theorem IsBuilt.filter_foundPairs_at
    (position : Position)
    (hBuilt : root.IsBuilt) :
    (foundPairs
        ⟨position, ⟨position.lines, position.columns + 1⟩⟩
        root).filter (·.hasBracketAt position) =
      root.plainPairs.filter (·.hasBracketAt position) := by
  have hNext :
      position ≤
        (⟨position.lines, position.columns + 1⟩ : Position) := by
    rw [Length.le_def]
    exact .inr ⟨rfl, Nat.le_succ _⟩
  refine filter_foundPairs fun info hInfo hHere => ?_
  rcases (hBuilt.pairwise_plainPairs.2 info
      hInfo).contains_of_hasBracketAt hHere with
    ⟨hStart, hStop⟩
  exact Range.touches_iff.2 ⟨hStart.trans hNext, hStop.le⟩

/-
  A position has the match of the one pair that has a bracket
  there, if there is one.
-/
theorem IsBuilt.matchAt?_eq
    (hBuilt : root.IsBuilt)
    (hColumn : position.columns < maxCount) :
    root.matchAt? position =
      .ok
        (((root.plainPairs.filter
          (·.hasBracketAt position)).head?).map toMatch) := by
  let window : Range :=
    ⟨position, ⟨position.lines, position.columns + 1⟩⟩
  have hSum := checkedSum_one hColumn
  rcases hBuilt.exists_visitPairs window (matching position)
      ⟨none, IndentationCache.empty⟩ with
    ⟨flow, hFlow, hState⟩
  rw [Visitor.feed_matching] at hState
  rw [← hBuilt.filter_foundPairs_at, List.head?_filter,
    ← hState]
  unfold matchAt?
  rw [hSum]
  change
    (root.visitPairs ⟨window, none⟩ (matching position)
      ⟨none, IndentationCache.empty⟩ >>= _) = _
  rw [hFlow]
  rfl

/- The brackets around a position are those of the last pair. -/
theorem IsBuilt.enclosing?_eq
    (position : Position)
    (hBuilt : root.IsBuilt) :
    root.enclosing? position =
      .ok
        (((root.plainPairs.filter
          (surrounds position)).getLast?).bind
            bothBrackets?) := by
  have hAll :
      (foundPairs ⟨position, position⟩ root).filter
          (surrounds position) =
        root.plainPairs.filter (surrounds position) := by
    refine filter_foundPairs fun info _ hAround => ?_
    rcases surrounds_iff.1 hAround with ⟨_, hStart, hStop⟩
    exact Range.touches_iff.2 ⟨hStart.le, hStop.le⟩
  rcases hBuilt.exists_visitPairs ⟨position, position⟩
      (surrounding position) ⟨none, IndentationCache.empty⟩ with
    ⟨flow, hFlow, hState⟩
  rw [Visitor.feed_surrounding, Option.or_none] at hState
  rw [← hAll, ← hState]
  unfold enclosing?
  simp only [hFlow]
  rfl

/-
  A lookup answers from the pairs that are listed for the
  whole tree.  At most one of them has a bracket at a
  position, and the match there is its brackets.  The
  brackets around a position are those of the innermost
  closed pair around it; there are none only where no closed
  pair is around it.
-/
theorem lookups_of_pairsIn
    (cache : IndentationCache)
    (hBuilt : root.IsBuilt)
    (hColumn : position.columns < maxCount) :
    ∃ (pairs : List PairInfo)
      (matched around : Option PairInfo),
      root.pairsIn ⟨⟨0, root.length⟩, none⟩ cache =
          .ok (pairs, cache) ∧
        pairs.filter (·.hasBracketAt position) =
          matched.toList ∧
        root.matchAt? position =
          .ok (matched.map PairInfo.toMatch) ∧
        (∀ info, around = some info →
          info.IsInnermost position pairs) ∧
        (around = none →
          ∀ info ∈ pairs, info.surrounds position = false) ∧
        root.enclosing? position =
          .ok (around.bind PairInfo.bothBrackets?) := by
  rcases hBuilt.pairwise_plainPairs with ⟨hOrder, hLaidOut⟩
  rcases exists_filter_hasBracketAt position hOrder
      hLaidOut with
    ⟨matched, hMatched⟩
  refine ⟨root.plainPairs, matched,
    (root.plainPairs.filter (surrounds position)).getLast?,
    ?_, hMatched, ?_, ?_, ?_, hBuilt.enclosing?_eq position⟩
  · rw [hBuilt.pairsIn_eq, hBuilt.foundPairs_whole]
  · rw [hBuilt.matchAt?_eq hColumn, hMatched]
    cases matched <;> rfl
  · intro info hLast
    exact isInnermost_getLast? hOrder hLaidOut hLast
  · intro hNone info hInfo
    rw [List.getLast?_eq_none_iff,
      List.filter_eq_nil_iff] at hNone
    exact Bool.eq_false_iff.2 (hNone info hInfo)

/- The place between the two opening brackets of two pairs. -/
theorem lookups_of_pairsIn_parens :
    let declaration : BracketDeclaration :=
      ⟨[⟨['('], [')']⟩], none⟩
    let stream :=
      TokenStream.ofText
        (TokenTable.ofDeclaration declaration)
        ['(', '(', ')', ')']
    let position : Position := ⟨0, 1⟩
    let opening : Range := ⟨⟨0, 1⟩, ⟨0, 2⟩⟩
    let closing : Range := ⟨⟨0, 2⟩, ⟨0, 3⟩⟩
    ∃ root stats pairs,
      parseDocument stream [] none = .ok (root, stats) ∧
        position.columns < maxCount ∧
        root.pairsIn ⟨⟨0, root.length⟩, none⟩
            IndentationCache.empty =
          .ok (pairs, IndentationCache.empty) ∧
        pairs.length = 2 ∧
        root.matchAt? position =
          .ok (some ⟨opening, some closing⟩) ∧
        root.enclosing? position =
          .ok
            (some
              (⟨⟨0, 0⟩, ⟨0, 1⟩⟩, ⟨⟨0, 3⟩, ⟨0, 4⟩⟩)) := by
  intro declaration stream position opening closing
  let outer : Range × Range :=
    (⟨⟨0, 0⟩, ⟨0, 1⟩⟩, ⟨⟨0, 3⟩, ⟨0, 4⟩⟩)
  let test (root : Node) : Bool :=
    (root.pairsIn ⟨⟨0, root.length⟩, none⟩
        IndentationCache.empty).toOption.all fun found =>
      decide (found.1.length = 2) &&
        decide
          ((found.1.filter
              (·.hasBracketAt position)).map toMatch =
            [⟨opening, some closing⟩]) &&
        decide
          ((found.1.filter (surrounds position)).map
            bothBrackets? = [some outer])
  rcases exists_isBuilt test
      (show (parseDocument stream [] none).toOption.any _ =
        true by decide +kernel) with
    ⟨root, stats, hParse, hBuilt, hTest⟩
  have hColumn : position.columns < maxCount := by decide
  rcases lookups_of_pairsIn IndentationCache.empty hBuilt
      hColumn with
    ⟨pairs, matched, around, hPairs, hMatched, hMatch, hInner,
      hNone, hAround⟩
  have hGood : test root = true := hTest
  simp only [test, hPairs, Except.toOption, Option.all_some,
    Bool.and_eq_true, decide_eq_true_eq, hMatched] at hGood
  rcases hGood with ⟨⟨hTwo, hOne⟩, hOuter⟩
  refine ⟨root, stats, pairs, hParse, hColumn, hPairs, hTwo,
    ?_, ?_⟩
  · cases matched with
    | none => cases hOne
    | some info =>
        rw [hMatch]
        simpa using hOne
  · have hFound :
        ∃ info ∈ pairs, info.surrounds position = true := by
      have hMem :
          some outer ∈
            (pairs.filter (surrounds position)).map
              bothBrackets? := by
        rw [hOuter]
        exact List.mem_singleton_self _
      rcases List.mem_map.1 hMem with ⟨info, hInfo, _⟩
      exact ⟨info, List.mem_filter.1 hInfo⟩
    rcases hFound with ⟨info, hInfo, hHere⟩
    cases around with
    | none =>
        have hOut := hNone rfl info hInfo
        rw [hHere] at hOut
        cases hOut
    | some last =>
        have hLast := hInner last rfl
        have hMem :
            last.bothBrackets? ∈
              (pairs.filter (surrounds position)).map
                bothBrackets? :=
          List.mem_map_of_mem
            (List.mem_filter.2 ⟨hLast.mem, hLast.surrounds⟩)
        rw [hOuter, List.mem_singleton] at hMem
        rw [hAround, Option.bind_some, hMem]

end Node

end Bracketry
