import Bracketry.Proofs.Sightings
import Bracketry.Proofs.Visits

/-
  The pairs in a window are pairs of the tree.

  The plain list of a tree has all its pairs, outer ones
  first, but for those that lie too deep.  What a walk hands
  to its visitor is what of this list touches the window.
  The tree itself is walked whatever the window is, so if it
  is a single pair, that pair is always listed.

  What a walk tells of a pair does not depend on its window.
  Only the indentation is read from a text, and only the sums
  of columns on the way to it may be refused.

  Key definitions include:
    * `Node.plainPairs`
    * `PairQuery.Reports`

  Main declarations:
    * `PairQuery.Reports.andThen`
    * `Node.LiesAt.reportsPairs`
    * `Node.pairsIn_eq_filter`
-/

------------------------------------------------------------
-- The Plain List
------------------------------------------------------------

namespace Bracketry

namespace PairInfo

/- What is told of a pair without the text inside it. -/
def withoutIndentation
    (info : PairInfo) :
    PairInfo :=
  { info with minIndentation := none }

/- The pair touches a window. -/
def isIn
    (window : Range)
    (info : PairInfo) :
    Bool :=
  window.touches info.range.start info.range.stop

/- A window that a pair touches touches what it is part of. -/
theorem IsWithin.touches
    {window : Range}
    {start stop : Position}
    {depth : Nat}
    {info : PairInfo}
    (h : info.IsWithin start stop depth)
    (hIn : info.isIn window = true) :
    window.touches start stop = true := by
  rcases Range.touches_iff.1 hIn with ⟨hBegins, hEnds⟩
  exact Range.touches_iff.2
    ⟨h.start_le.trans hBegins, hEnds.trans h.le_stop⟩

end PairInfo

namespace Node

/- Those of some pairs that do not lie too deep. -/
def listedPairs
    (infos : List PairInfo) :
    List PairInfo :=
  infos.filter (·.level ≤ maxQueryDepth)

/- All pairs of a tree that a query can tell of. -/
def plainPairs
    (root : Node) :
    List PairInfo :=
  listedPairs (root.pairRecords 0 [])

/- Those of some pairs that a window shows. -/
def shownPairs
    (window : Range)
    (infos : List PairInfo) :
    List PairInfo :=
  (listedPairs infos).filter (·.isIn window)

variable {window : Range}

@[simp] theorem shownPairs_append
    (a b : List PairInfo) :
    shownPairs window (a ++ b) =
      shownPairs window a ++ shownPairs window b := by
  simp [shownPairs, listedPairs]

theorem listedPairs_cons
    {info : PairInfo}
    (rest : List PairInfo)
    (hLevel : info.level ≤ maxQueryDepth) :
    listedPairs (info :: rest) = info :: listedPairs rest :=
  List.filter_cons_of_pos (decide_eq_true hLevel)

theorem shownPairs_cons
    {info : PairInfo}
    (rest : List PairInfo)
    (hLevel : info.level ≤ maxQueryDepth)
    (hIn : info.isIn window = true) :
    shownPairs window (info :: rest) =
      info :: shownPairs window rest := by
  rw [shownPairs, listedPairs_cons rest hLevel]
  exact List.filter_cons_of_pos hIn

/- Nothing is shown of what the window does not touch. -/
theorem shownPairs_eq_nil
    {start stop : Position}
    {depth : Nat}
    {infos : List PairInfo}
    (hWithin : ∀ info ∈ infos, info.IsWithin start stop depth)
    (hOutside :
      maxQueryDepth < depth ∨
        ¬ window.touches start stop = true) :
    shownPairs window infos = [] := by
  rw [List.eq_nil_iff_forall_not_mem]
  intro info hShown
  rcases List.mem_filter.1 hShown with ⟨hListed, hIn⟩
  rcases List.mem_filter.1 hListed with ⟨hMem, hLevel⟩
  rw [decide_eq_true_eq] at hLevel
  have hInfo := hWithin info hMem
  rcases hOutside with hDeep | hApart
  · exact absurd (hInfo.depth_le.trans hLevel)
      (Nat.not_le.2 hDeep)
  · exact hApart (hInfo.touches hIn)

end Node

end Bracketry

------------------------------------------------------------
-- What a Walk Reports
------------------------------------------------------------

namespace Bracketry

open Checked

namespace PairQuery

variable {σ : Type} {query : PairQuery}
variable {visit : Visitor PairInfo σ} {walk : PairWalk σ}
variable {a b infos : List PairInfo} {flow : Flow (PairWalk σ)}

/- Only the columns of a text may be too many to add up. -/
def mayFail
    (query : PairQuery)
    (fault : Fault) :
    Prop :=
  fault = .overflow ∧ query.content.isSome = true

/-
  The visitor was handed certain pairs, each with what the
  text says of its indentation, if there is a text.
-/
structure Reports
    (query : PairQuery)
    (visit : Visitor PairInfo σ)
    (walk : PairWalk σ)
    (infos : List PairInfo)
    (flow : Flow (PairWalk σ)) :
    Prop where
  seen :
    ∃ seen : List PairInfo,
      seen.map PairInfo.withoutIndentation =
          infos.map PairInfo.withoutIndentation ∧
        (query.content = none → seen = infos) ∧
        flow.map PairWalk.state =
          visit.feed walk.state seen
  cache :
    query.content = none → flow.state.cache = walk.cache

theorem reports_go :
    Reports query visit walk [] (Flow.go walk) :=
  ⟨⟨[], rfl, fun _ => rfl, rfl⟩, fun _ => rfl⟩

/- One walk behind another reports both lists. -/
theorem Reports.andThen
    {next : PairWalk σ → Checked (Flow (PairWalk σ))}
    (h : Reports query visit walk a flow)
    (hNext :
      ∀ moved,
        Ends query.mayFail (Reports query visit moved b)
          (next moved)) :
    Ends query.mayFail (Reports query visit walk (a ++ b))
      (flow.andThen next) := by
  rcases h with ⟨⟨seen, hSame, hExact, hFed⟩, hCache⟩
  have hGoesOn :
      (visit.feed walk.state seen).goesOn = flow.goesOn := by
    rw [← hFed, Flow.map]
  unfold Flow.andThen
  split_ifs with hGoes
  · refine (hNext flow.state).mono ?_
    rintro last ⟨⟨others, hOthers, hRest, hLast⟩, hKeeps⟩
    refine ⟨⟨seen ++ others, ?_, ?_, ?_⟩, ?_⟩
    · rw [List.map_append, List.map_append, hSame, hOthers]
    · intro hNone
      rw [hExact hNone, hRest hNone]
    · rw [Visitor.feed_append, hGoesOn, if_pos hGoes, ← hFed,
        hLast, Flow.map]
    · intro hNone
      rw [hKeeps hNone, hCache hNone]
  · refine ⟨⟨seen ++ b, ?_, ?_, ?_⟩, hCache⟩
    · rw [List.map_append, List.map_append, hSame]
    · intro hNone
      rw [hExact hNone]
    · rw [Visitor.feed_append, hGoesOn, if_neg hGoes, hFed]

end PairQuery

end Bracketry

------------------------------------------------------------
-- Walks
------------------------------------------------------------

namespace Bracketry

open Checked PairQuery

namespace Node

variable {σ : Type} {query : PairQuery}
variable {visit : Visitor PairInfo σ}
variable {around : List Enclosure} {start : Position}

/- The indentation is absent where no text is given. -/
theorem ends_insideIndentation
    (start : Position)
    (cache : IndentationCache)
    (pair : Node) :
    Ends query.mayFail
      (fun result =>
        query.content = none → result = (none, cache))
      (insideIndentation query.content start cache pair) := by
  rw [ends_iff]
  refine ⟨?_, ?_⟩
  · intro result hResult hNone
    rw [hNone, insideIndentation] at hResult
    exact (Except.ok.inj hResult).symm
  · intro fault hFault
    refine ⟨insideIndentation_onlyOverflows _ _ _ _ _ hFault,
      ?_⟩
    cases hContent : query.content with
    | none =>
        rw [hContent] at hFault
        cases hFault
    | some content => rfl

/- The closing bracket stands behind what is inside. -/
theorem ends_closingRange
    {α : Type}
    {MayFail : Fault → Prop}
    {Good : α → Prop}
    {next : Option Range → Checked α}
    {middle stop : Position}
    {inside : Length}
    (closer : Option Bracket)
    (hInside : (middle + inside).Fits)
    (hNext :
      Ends MayFail Good
        (next
          (closer.map fun _ => ⟨middle + inside, stop⟩))) :
    Ends MayFail Good
      (match closer.map Node.bracket with
        | none => pure none >>= next
        | some _ =>
            middle.plus inside >>= fun from_ =>
              pure (some ⟨from_, stop⟩) >>= next) := by
  cases closer with
  | none => exact hNext
  | some leaf =>
      refine (Length.ends_plus_of_fits hInside).bind ?_
      rintro _ rfl
      exact hNext

/- The record of a pair is completed and handed on. -/
theorem reports_visitPair
    {walk : PairWalk σ}
    {indentation : Option Nat}
    {cache : IndentationCache}
    (info : PairInfo)
    (h :
      query.content = none →
        (indentation, cache) =
          (info.minIndentation, walk.cache)) :
    Reports query visit walk [info]
      (visitPair visit ⟨walk.state, cache⟩
        { info with minIndentation := indentation }) := by
  refine ⟨⟨[{ info with minIndentation := indentation }], rfl,
    ?_, ?_⟩, ?_⟩
  · intro hNone
    rw [(Prod.mk.inj (h hNone)).1]
  · rw [Visitor.feed_singleton]
    rfl
  · intro hNone
    exact (Prod.mk.inj (h hNone)).2

/-
  A walk of a node that the window touches shows those of
  its pairs that the window touches.
-/
def ReportsPairs
    (query : PairQuery)
    (visit : Visitor PairInfo σ)
    (start : Position)
    (node : Node) :
    Prop :=
  ∀ around walk,
    query.window.touches start (start + node.length) = true →
      Ends query.mayFail
        (Reports query visit walk
          (shownPairs query.window
            (node.pairRecords start around)))
        (walkPairs query visit start (start + node.length)
          (around.map Enclosure.literal) walk node)

/- The pair itself is shown, and what is inside it. -/
theorem reports_pair
    {key : Option Nat}
    {length : Length}
    {missing : IdSet}
    {child : Option Node}
    (pair : Enclosure)
    (walk : PairWalk σ)
    (hDepth : around.length ≤ maxQueryDepth)
    (hMiddle : (start + pair.opening.length).Fits)
    (hChild :
      ∀ part, child = some part →
        LiesAt (start + pair.opening.length) part ∧
          part.ReportsPairs query visit
            (start + pair.opening.length)) :
    Ends query.mayFail
      (Reports query visit walk
        (pair.info start length (partLength child) around ::
          shownPairs query.window
            (partRecords (start + pair.opening.length)
              (pair :: around) child)))
      (walkPairs query visit start (start + length)
        (around.map Enclosure.literal) walk
        (.pair key length missing (.bracket pair.opening) child
          (pair.closing.map .bracket))) := by
  have hCount :
      (around.map Enclosure.literal).count
          pair.opening.kind.literal =
        around.countP (·.literal == pair.literal) := by
    rw [List.count, List.countP_map]
    rfl
  have hInside :
      (start + pair.opening.length + partLength child).Fits := by
    cases child with
    | none => exact hMiddle
    | some part => exact (hChild part rfl).1.stop
  have hOpener :
      Ends query.mayFail (· = pair.opening)
        (openingOf (.bracket pair.opening)) :=
    rfl
  unfold walkPairs
  rw [List.length_map, if_neg (Nat.not_lt.2 hDepth),
    closingOf?_map]
  refine hOpener.bind ?_
  rintro _ rfl
  refine (Length.ends_plus_of_fits hMiddle).bind ?_
  rintro _ rfl
  refine (ends_insideIndentation _ _ _).bind ?_
  rintro ⟨indentation, cache⟩ hIndentation
  refine ends_closingRange pair.closing hInside ?_
  rw [hCount]
  rw [← List.singleton_append]
  refine (reports_visitPair
    (pair.info start length (partLength child) around)
    hIndentation).andThen fun moved => ?_
  cases child with
  | none => exact reports_go
  | some part =>
      rcases hChild part rfl with ⟨hPart, hWalk⟩
      refine (Length.ends_plus_of_fits hPart.stop).bind ?_
      rintro _ rfl
      split_ifs with hTouches
      · exact hWalk (pair :: around) moved hTouches
      · have hNone :=
          shownPairs_eq_nil
            (hPart.pairRecords_isWithin (pair :: around))
            (.inr hTouches)
        rw [partRecords, hNone]
        exact reports_go

/- Of nodes in a row, those in the window are walked. -/
theorem reports_pairItems
    {items : List Node}
    (walk : PairWalk σ)
    (hItems :
      ∀ row ∈ placed start items,
        LiesAt row.1 row.2 ∧
          row.2.ReportsPairs query visit row.1) :
    Ends query.mayFail
      (Reports query visit walk
        (shownPairs query.window
          (pairRecordsOfAll start around items)))
      (walkPairItems query visit start
        (around.map Enclosure.literal) walk items) := by
  induction items generalizing start walk with
  | nil => exact reports_go
  | cons item rest ih =>
      rw [placed, List.forall_mem_cons] at hItems
      rcases hItems with ⟨⟨hItem, hWalk⟩, hRest⟩
      rw [walkPairItems, pairRecordsOfAll, shownPairs_append]
      refine (Length.ends_plus_of_fits hItem.stop).bind ?_
      rintro _ rfl
      split_ifs with hTouches
      · refine (hWalk around walk hTouches).bind
          fun flow hFlow => ?_
        exact hFlow.andThen fun moved => ih moved hRest
      · have hNone :=
          shownPairs_eq_nil (hItem.pairRecords_isWithin around)
            (.inr hTouches)
        rw [hNone]
        exact reports_go.andThen fun moved => ih moved hRest

/- Below too many pairs there is nothing to report. -/
theorem reportsPairs_deep
    {node : Node}
    {walk : PairWalk σ}
    (hNode : LiesAt start node)
    (hDeep : maxQueryDepth < around.length) :
    Reports query visit walk
      (shownPairs query.window (node.pairRecords start around))
      (Flow.go walk) := by
  rw [shownPairs_eq_nil (hNode.pairRecords_isWithin around)
    (.inl hDeep)]
  exact reports_go

/- The walk of a tree reports its pairs. -/
theorem LiesAt.reportsPairs
    {node : Node}
    (h : LiesAt start node) :
    node.ReportsPairs query visit start := by
  induction h with
  | text key hLength hStop =>
      exact fun around walk hTouches => reports_go
  | stray key ids hLength hStop =>
      exact fun around walk hTouches => reports_go
  | @pair start length opener child closer key missing
      hOpener hMiddle hChild hCloser hLength hStop ih =>
      intro around walk hTouches
      have hPair :=
        LiesAt.pair key missing hOpener hMiddle hChild hCloser
          hLength hStop
      by_cases hDepth : around.length ≤ maxQueryDepth
      · let pair : Enclosure := ⟨opener, closer⟩
        let own :=
          pair.info start length (partLength child) around
        have hLevel : own.level ≤ maxQueryDepth := hDepth
        have hIn : own.isIn query.window = true := hTouches
        rw [pairRecords_pair, shownPairs_cons _ hLevel hIn]
        exact reports_pair pair walk hDepth hMiddle fun
          part hPart => ⟨hChild part hPart, ih part hPart⟩
      · unfold walkPairs
        rw [List.length_map, if_pos (Nat.lt_of_not_le hDepth)]
        exact reportsPairs_deep hPair (Nat.lt_of_not_le hDepth)
  | @list start length items key height missing hSome hItems
      hLength hStop ih =>
      intro around walk hTouches
      unfold walkPairs
      rw [List.length_map]
      split_ifs with hDeep
      · exact reportsPairs_deep
          (.list key height missing hSome hItems hLength
            hStop)
          hDeep
      · exact reports_pairItems walk fun row hRow =>
          ⟨hItems row hRow, ih row hRow⟩

end Node

end Bracketry

------------------------------------------------------------
-- The Pair That Is a Tree
------------------------------------------------------------

namespace Bracketry

open Checked PairQuery

namespace Node

variable {start : Position} {around : List Enclosure}

/- What is inside a pair does not start with it. -/
theorem start_lt_of_mem_partRecords
    {opener : Bracket}
    {child : Option Node}
    {info : PairInfo}
    (hOpener : opener.length ≠ 0)
    (hChild :
      ∀ part, child = some part →
        LiesAt (start + opener.length) part)
    (hMem :
      info ∈ partRecords (start + opener.length) around child) :
    start < info.range.start := by
  cases child with
  | none => cases hMem
  | some part =>
      exact (Length.lt_add_right hOpener).trans_le
        ((hChild part rfl).pairRecords_isWithin around info
          hMem).start_le

/- A row of two or more nodes is longer than each of them. -/
theorem not_spans_of_mem_placed
    {items : List Node}
    {row : Position × Node}
    {info : PairInfo}
    {depth : Nat}
    (hSome : 2 ≤ items.length)
    (hItems : ∀ row ∈ placed start items, LiesAt row.1 row.2)
    (hRow : row ∈ placed start items)
    (hInfo :
      info.IsWithin row.1 (row.1 + row.2.length) depth) :
    info.range ≠
      ⟨start, start + (items.map Node.length).sum⟩ := by
  intro hSpans
  have hFirst := hInfo.start_le
  have hLast := hInfo.le_stop
  rw [hSpans] at hFirst hLast
  match items, hSome with
  | a :: b :: rest, _ =>
      have hB :=
        hItems (start + a.length, b) (by simp [placed])
      have hA := hItems (start, a) (by simp [placed])
      rw [placed, List.mem_cons] at hRow
      rcases hRow with rfl | hRow
      · have hMore :
            b.length + (rest.map Node.length).sum ≠ 0 :=
          Length.add_ne_zero _ hB.ne_zero
        rw [List.map_cons, List.map_cons, List.sum_cons,
          List.sum_cons, ← add_assoc] at hLast
        exact absurd (Length.lt_add_right hMore)
          (not_lt.2 hLast)
      · have hBehind := (le_of_mem_placed hRow).1
        exact absurd (Length.lt_add_right hA.ne_zero)
          (not_lt.2 (hBehind.trans hFirst))

variable {σ : Type} {query : PairQuery}
variable {visit : Visitor PairInfo σ}

/-
  Where the window does not touch a tree, its walk only
  reports the pair that the tree is, if it is one.
-/
theorem LiesAt.reportsPairs_apart
    {node : Node}
    (h : LiesAt start node)
    (hApart :
      ¬ query.window.touches start (start + node.length) =
        true)
    (walk : PairWalk σ) :
    Ends query.mayFail
      (Reports query visit walk
        ((listedPairs (node.pairRecords start [])).filter
          (·.range = ⟨start, start + node.length⟩)))
      (walkPairs query visit start (start + node.length) []
        walk node) := by
  have hWithin := h.pairRecords_isWithin []
  have hNone :
      shownPairs query.window (node.pairRecords start []) =
        [] :=
    shownPairs_eq_nil hWithin (.inr hApart)
  cases h with
  | text key hLength hStop => exact reports_go
  | stray key ids hLength hStop => exact reports_go
  | @pair _ length opener child closer key missing
      hOpener hMiddle hChild hCloser hLength hStop =>
      let pair : Enclosure := ⟨opener, closer⟩
      let own := pair.info start length (partLength child) []
      let inside :=
        partRecords (start + opener.length) [pair] child
      rw [pairRecords_pair, List.forall_mem_cons] at hWithin
      have hUnseen : shownPairs query.window inside = [] :=
        shownPairs_eq_nil hWithin.2 (.inr hApart)
      have hOwn : own.range = ⟨start, start + length⟩ := rfl
      have hOther :
          (listedPairs inside).filter
              (·.range = ⟨start, start + length⟩) =
            [] := by
        rw [List.filter_eq_nil_iff]
        intro info hListed hSpans
        rw [decide_eq_true_eq] at hSpans
        have hBehind :=
          start_lt_of_mem_partRecords hOpener hChild
            (List.mem_filter.1 hListed).1
        rw [hSpans] at hBehind
        exact lt_irrefl _ hBehind
      have hList :
          (listedPairs (own :: inside)).filter
              (·.range = ⟨start, start + length⟩) =
            own :: shownPairs query.window inside := by
        rw [hUnseen, ← hOther,
          listedPairs_cons _ (Nat.zero_le maxQueryDepth)]
        exact List.filter_cons_of_pos (decide_eq_true hOwn)
      rw [pairRecords_pair, Node.length, hList]
      exact reports_pair pair walk (Nat.zero_le _) hMiddle fun
        part hPart =>
          ⟨hChild part hPart,
            (hChild part hPart).reportsPairs⟩
  | @list _ length items key height missing hSome hItems
      hLength hStop =>
      have hOther :
          (listedPairs
              (pairRecordsOfAll start [] items)).filter
                (·.range = ⟨start, start + length⟩) =
            [] := by
        rw [List.filter_eq_nil_iff, hLength,
          pairRecordsOfAll_eq_flatMap]
        intro info hListed hSpans
        rw [decide_eq_true_eq] at hSpans
        rcases List.mem_flatMap.1
            (List.mem_filter.1 hListed).1 with
          ⟨row, hRow, hMem⟩
        have hInfo :=
          (hItems row hRow).pairRecords_isWithin [] info hMem
        exact not_spans_of_mem_placed hSome hItems hRow hInfo
          hSpans
      rw [pairRecords] at hNone ⊢
      rw [Node.length, hOther, ← hNone]
      unfold walkPairs
      exact reports_pairItems walk fun row hRow =>
        ⟨hItems row hRow, (hItems row hRow).reportsPairs⟩

/- The pairs in a window, and the one that is the tree. -/
def foundPairs
    (window : Range)
    (root : Node) :
    List PairInfo :=
  root.plainPairs.filter fun info =>
    info.isIn window || decide (info.range = ⟨0, root.length⟩)

/- The pair that is the tree is in any window by its end. -/
theorem foundPairs_of_touches
    {window : Range}
    {root : Node}
    (h : window.touches 0 root.length = true) :
    foundPairs window root =
      root.plainPairs.filter (·.isIn window) := by
  refine List.filter_congr fun info _ => ?_
  rw [Bool.or_eq_left_iff_imp, decide_eq_true_eq]
  intro hRange
  rwa [PairInfo.isIn, hRange]

/- A window behind the tree has no other pair. -/
theorem LiesAt.foundPairs_of_apart
    {window : Range}
    {root : Node}
    (hRoot : LiesAt 0 root)
    (hApart : ¬ window.touches 0 root.length = true) :
    foundPairs window root =
      root.plainPairs.filter (·.range = ⟨0, root.length⟩) := by
  refine List.filter_congr fun info hListed => ?_
  rw [Bool.or_eq_right_iff_imp]
  intro hIn
  have hInfo :=
    hRoot.pairRecords_isWithin [] info
      (List.mem_filter.1 hListed).1
  rw [zero_add] at hInfo
  exact absurd (hInfo.touches hIn) hApart

/- The walk of a built tree reports the pairs found. -/
theorem IsBuilt.reportsPairs
    {root : Node}
    (query : PairQuery)
    (visit : Visitor PairInfo σ)
    (walk : PairWalk σ)
    (hBuilt : root.IsBuilt) :
    Ends query.mayFail
      (Reports query visit walk (foundPairs query.window root))
      (root.visitPairs query visit walk) := by
  rcases hBuilt.liesAt with hRoot | ⟨key, rfl⟩
  · have hEnd : 0 + root.length = root.length :=
      zero_add root.length
    by_cases hTouches :
        query.window.touches 0 root.length = true
    · have hReports : root.ReportsPairs query visit 0 :=
        hRoot.reportsPairs
      have hWalk := hReports [] walk
      rw [hEnd] at hWalk
      rw [foundPairs_of_touches hTouches]
      exact hWalk hTouches
    · have hWalk :
          Ends query.mayFail (Reports query visit walk _) _ :=
        hRoot.reportsPairs_apart (by rwa [hEnd]) walk
      rw [hEnd] at hWalk
      rw [hRoot.foundPairs_of_apart hTouches]
      exact hWalk
  · exact reports_go

/- The pairs found are those handed to the visitor. -/
theorem IsBuilt.ends_pairsIn
    {root : Node}
    (query : PairQuery)
    (cache : IndentationCache)
    (hBuilt : root.IsBuilt) :
    Ends query.mayFail
      (fun found =>
        found.1.map PairInfo.withoutIndentation =
            (foundPairs query.window root).map
              PairInfo.withoutIndentation ∧
          (query.content = none →
            found = (foundPairs query.window root, cache)))
      (root.pairsIn query cache) := by
  refine (hBuilt.reportsPairs query Visitor.collect
    ⟨[], cache⟩).bind ?_
  rintro ⟨⟨state, moved⟩, goesOn⟩
    ⟨⟨seen, hSame, hExact, hFed⟩, hCache⟩
  rw [Visitor.feed_collect, List.append_nil] at hFed
  rcases Flow.mk.inj hFed with ⟨rfl, -⟩
  refine ⟨?_, fun hNone => ?_⟩
  · rw [← hSame, List.reverse_reverse]
  · rw [← hExact hNone, List.reverse_reverse]
    exact congrArg (Prod.mk seen) (hCache hNone)

/- Where no text is read, the pairs are found for certain. -/
theorem IsBuilt.pairsIn_eq
    {root : Node}
    (window : Range)
    (cache : IndentationCache)
    (hBuilt : root.IsBuilt) :
    root.pairsIn ⟨window, none⟩ cache =
      .ok (foundPairs window root, cache) := by
  have hEnds := hBuilt.ends_pairsIn ⟨window, none⟩ cache
  cases hFound : root.pairsIn ⟨window, none⟩ cache with
  | error fault =>
      rw [hFound] at hEnds
      cases hEnds.2
  | ok found =>
      rw [hFound] at hEnds
      rw [hEnds.2 rfl]

/- The whole tree has the pairs of the plain list. -/
theorem IsBuilt.foundPairs_whole
    {root : Node}
    (hBuilt : root.IsBuilt) :
    foundPairs ⟨0, root.length⟩ root = root.plainPairs := by
  rcases hBuilt.liesAt with hRoot | ⟨key, rfl⟩
  · refine List.filter_eq_self.2 fun info hListed => ?_
    have hInfo :=
      hRoot.pairRecords_isWithin [] info
        (List.mem_filter.1 hListed).1
    rw [zero_add] at hInfo
    have hIn : info.isIn ⟨0, root.length⟩ = true :=
      Range.touches_iff.2
        ⟨hInfo.lt.le.trans hInfo.le_stop, Length.zero_le _⟩
    rw [hIn, Bool.true_or]
  · rfl

/-
  The pairs in a window are those of the whole tree whose
  range touches the window, in the same order and with the
  same record.  Behind the end of the tree there is none,
  but for a tree that is a pair itself: that pair is found
  for every window.  A text adds indentations, and nothing
  else.
-/
theorem pairsIn_eq_filter
    {root : Node}
    (window : Range)
    (cache : IndentationCache)
    (hBuilt : root.IsBuilt) :
    ∃ whole,
      root.pairsIn ⟨⟨0, root.length⟩, none⟩ cache =
          .ok (whole, cache) ∧
        (window.start ≤ root.length →
          root.pairsIn ⟨window, none⟩ cache =
            .ok (whole.filter (·.isIn window), cache)) ∧
        root.pairsIn ⟨window, none⟩ cache =
          .ok (
            whole.filter fun info =>
              info.isIn window ||
                decide (info.range = ⟨0, root.length⟩),
            cache) ∧
        ∀ content,
          Ends (· = .overflow)
            (fun found =>
              found.1.map PairInfo.withoutIndentation =
                (whole.filter fun info =>
                  info.isIn window ||
                    decide (info.range = ⟨0, root.length⟩)).map
                      PairInfo.withoutIndentation)
            (root.pairsIn ⟨window, some content⟩ cache) := by
  refine ⟨root.plainPairs, ?_, ?_,
    hBuilt.pairsIn_eq window cache, ?_⟩
  · rw [hBuilt.pairsIn_eq, hBuilt.foundPairs_whole]
  · intro hStart
    have hTouches : window.touches 0 root.length = true :=
      Range.touches_iff.2 ⟨Length.zero_le _, hStart⟩
    rw [hBuilt.pairsIn_eq, foundPairs_of_touches hTouches]
  · intro content
    have hEnds :=
      hBuilt.ends_pairsIn ⟨window, some content⟩ cache
    rw [ends_iff] at hEnds ⊢
    exact ⟨fun found hFound => (hEnds.1 found hFound).1,
      fun fault hFault => (hEnds.2 fault hFault).1⟩

/- A window on the lines behind a text that is one pair. -/
theorem pairsIn_eq_filter_parens :
    let declaration : BracketDeclaration :=
      ⟨[⟨['('], [')']⟩], none⟩
    let stream :=
      TokenStream.ofText
        (TokenTable.ofDeclaration declaration) ['(', ')']
    let window : Range := ⟨⟨1, 0⟩, ⟨2, 0⟩⟩
    let cache := IndentationCache.empty
    ∃ root stats whole,
      parseDocument stream [] none = .ok (root, stats) ∧
        root.pairsIn ⟨⟨0, root.length⟩, none⟩ cache =
          .ok (whole, cache) ∧
        whole.length = 1 ∧
        whole.filter (·.isIn window) = [] ∧
        root.pairsIn ⟨window, none⟩ cache =
          .ok (whole, cache) := by
  intro declaration stream window cache
  let test (root : Node) : Bool :=
    (root.pairsIn ⟨⟨0, root.length⟩, none⟩
      cache).toOption.all fun found =>
        decide (found.1.length = 1) &&
          decide (found.1.filter (·.isIn window) = []) &&
          decide
            ((found.1.filter fun info =>
                info.isIn window ||
                  decide (info.range = ⟨0, root.length⟩)) =
              found.1)
  rcases exists_isBuilt test
      (show (parseDocument stream [] none).toOption.any _ =
        true by decide +kernel) with
    ⟨root, stats, hParse, hBuilt, hTest⟩
  rcases pairsIn_eq_filter window cache hBuilt with
    ⟨whole, hWhole, _, hFound, _⟩
  have hGood : test root = true := hTest
  simp only [test, hWhole, Except.toOption, Option.all_some,
    Bool.and_eq_true, decide_eq_true_eq] at hGood
  rcases hGood with ⟨⟨hLength, hNone⟩, hAll⟩
  rw [hAll] at hFound
  exact ⟨root, stats, whole, hParse, hWhole, hLength, hNone,
    hFound⟩

end Node

end Bracketry
