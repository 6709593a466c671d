import Bracketry.Proofs.Sightings
import Bracketry.Query.Nearest

/-
  The nearest bracket is found by going through all.

  The brackets that can be found are those of pairs without
  too many others around.  In their list, the last that
  starts before a position is the one found to the left of
  it, and the first that ends behind is the one to the right.

  A search leaves out the parts of the tree that lie beyond
  the position, where nothing is to be found.  Where a part
  has nothing, the search comes back for those next to it.

  Key definitions include:
    * `Node.reached`
    * `FoundBracket.lastBefore`, `FoundBracket.firstAfter`

  Main declarations:
    * `Node.LiesAt.lastBefore_eq`
    * `Node.LiesAt.firstAfter_eq`
    * `Node.nearest_eq_scan`
-/

------------------------------------------------------------
-- Scans
------------------------------------------------------------

namespace Bracketry

namespace FoundBracket

/- The last of some brackets that starts before. -/
def lastBefore
    (position : Position)
    (found : List FoundBracket) :
    Option FoundBracket :=
  (found.filter (·.range.start < position)).getLast?

/- The first of some brackets that ends behind. -/
def firstAfter
    (position : Position)
    (found : List FoundBracket) :
    Option FoundBracket :=
  (found.filter (position < ·.range.stop)).head?

variable {position : Position} {found : List FoundBracket}

theorem lastBefore_append
    (a b : List FoundBracket) :
    lastBefore position (a ++ b) =
      (lastBefore position b).or (lastBefore position a) := by
  rw [lastBefore, List.filter_append, List.getLast?_append]
  rfl

theorem firstAfter_append
    (a b : List FoundBracket) :
    firstAfter position (a ++ b) =
      (firstAfter position a).or (firstAfter position b) := by
  rw [firstAfter, List.filter_append, List.head?_append]
  rfl

theorem lastBefore_eq_none
    (h : ∀ info ∈ found, position ≤ info.range.start) :
    lastBefore position found = none := by
  have hNone :
      found.filter (·.range.start < position) = [] := by
    rw [List.filter_eq_nil_iff]
    intro info hInfo
    simpa using h info hInfo
  rw [lastBefore, hNone, List.getLast?_nil]

theorem firstAfter_eq_none
    (h : ∀ info ∈ found, info.range.stop ≤ position) :
    firstAfter position found = none := by
  have hNone :
      found.filter (position < ·.range.stop) = [] := by
    rw [List.filter_eq_nil_iff]
    intro info hInfo
    simpa using h info hInfo
  rw [firstAfter, hNone, List.head?_nil]

end FoundBracket

end Bracketry

------------------------------------------------------------
-- What Can Be Found
------------------------------------------------------------

namespace Bracketry

/- The bracket that is found at a sighting, if one is. -/
def Sighting.found?
    (sighting : Sighting) :
    Option FoundBracket :=
  match sighting.own with
  | some (kind, _) =>
      if sighting.around.length ≤ maxQueryDepth then
        some ⟨sighting.range, kind⟩
      else none
  | none => none

namespace Node

/- The brackets that are found at some sightings. -/
def reached
    (sightings : List Sighting) :
    List FoundBracket :=
  sightings.filterMap Sighting.found?

theorem reached_append
    (a b : List Sighting) :
    reached (a ++ b) = reached a ++ reached b :=
  List.filterMap_append

/- What is found lies where it was sighted. -/
theorem exists_of_mem_reached
    {sightings : List Sighting}
    {info : FoundBracket}
    (h : info ∈ reached sightings) :
    ∃ sighting ∈ sightings,
      sighting.around.length ≤ maxQueryDepth ∧
        info.range = sighting.range := by
  rcases List.mem_filterMap.1 h with ⟨sighting, hMem, hFound⟩
  refine ⟨sighting, hMem, ?_⟩
  unfold Sighting.found? at hFound
  split at hFound
  · split_ifs at hFound with hDepth
    rcases Option.some.inj hFound with rfl
    exact ⟨hDepth, rfl⟩
  · cases hFound

variable {start stop position : Position}
variable {around : List Enclosure} {sightings : List Sighting}

/- Nothing is found that lies below too many pairs. -/
theorem reached_eq_nil
    (hDeep : maxQueryDepth < around.length)
    (hWithin :
      ∀ sighting ∈ sightings,
        sighting.IsWithin start stop around) :
    reached sightings = [] := by
  rw [List.eq_nil_iff_forall_not_mem]
  intro info hInfo
  rcases exists_of_mem_reached hInfo with
    ⟨sighting, hMem, hDepth, _⟩
  have hLength := (hWithin sighting hMem).around.length_le
  omega

/- Before the start of a part there is nothing of it. -/
theorem lastBefore_reached
    (hWithin :
      ∀ sighting ∈ sightings,
        sighting.IsWithin start stop around)
    (hStart : ¬ start < position) :
    FoundBracket.lastBefore position (reached sightings) =
      none := by
  refine FoundBracket.lastBefore_eq_none fun info hInfo => ?_
  rcases exists_of_mem_reached hInfo with
    ⟨sighting, hMem, _, hRange⟩
  rw [hRange]
  exact (not_lt.1 hStart).trans (hWithin sighting hMem).start_le

/- Behind the end of a part there is nothing of it. -/
theorem firstAfter_reached
    (hWithin :
      ∀ sighting ∈ sightings,
        sighting.IsWithin start stop around)
    (hStop : ¬ position < stop) :
    FoundBracket.firstAfter position (reached sightings) =
      none := by
  refine FoundBracket.firstAfter_eq_none fun info hInfo => ?_
  rcases exists_of_mem_reached hInfo with
    ⟨sighting, hMem, _, hRange⟩
  rw [hRange]
  exact (hWithin sighting hMem).le_stop.trans (not_lt.1 hStop)

end Node

end Bracketry

------------------------------------------------------------
-- Pairs Are Searched Part by Part
------------------------------------------------------------

namespace Bracketry

namespace Node

/- A search whose answer is handed on is that search. -/
theorem bind_found
    (search : Checked (Option FoundBracket)) :
    (do
      let found ← search
      match found with
      | some found => pure (some found)
      | none => pure none) =
      search := by
  cases search with
  | error fault => rfl
  | ok found => cases found <;> rfl

section

variable {depth : Nat} (position start stop : Position)
variable (key : Option Nat) (length : Length)
variable (missing : IdSet) (opening : Node)
variable (child closing : Option Node)

/- Going left, the parts of a pair are a row of nodes. -/
theorem lastBefore_pair
    (hDepth : ¬ maxQueryDepth < depth) :
    lastBefore? position start stop depth
        (.pair key length missing opening child closing) =
      lastOfAllBefore? position start (depth + 1)
        (opening :: (child.toList ++ closing.toList)) := by
  have hNone :
      (.ok none : Checked (Option FoundBracket)) = pure none :=
    rfl
  rw [lastBefore?, if_neg hDepth]
  -- Both sides take the same steps, with the parts in place.
  cases child <;> cases closing <;>
    simp only [Option.toList, lastOfAllBefore?, pure_bind,
      bind_assoc, hNone, List.nil_append, List.cons_append]
  all_goals
    repeat' first
      | with_reducible rfl
      | rfl
      | refine bind_congr fun _ => ?_
      | split_ifs
      | split

/- Going right, they are one as well. -/
theorem firstAfter_pair
    (hDepth : ¬ maxQueryDepth < depth) :
    firstAfter? position start stop depth
        (.pair key length missing opening child closing) =
      firstOfAllAfter? position start (depth + 1)
        (opening :: (child.toList ++ closing.toList)) := by
  have hNone :
      (.ok none : Checked (Option FoundBracket)) = pure none :=
    rfl
  rw [firstAfter?, if_neg hDepth]
  cases child <;> cases closing <;>
    simp only [Option.toList, firstOfAllAfter?, pure_bind,
      hNone, List.nil_append, List.cons_append]
  all_goals
    repeat' first
      | with_reducible rfl
      | exact (bind_found _).symm
      | refine bind_congr fun _ => ?_
      | split_ifs
      | split

end

variable {start position : Position}

/- What can be found in a node of a row, inside some pairs. -/
def reachedAt
    (around : List Enclosure)
    (row : Position × Node) :
    List FoundBracket :=
  match row.2 with
  | .bracket leaf =>
      [⟨⟨row.1, row.1 + leaf.length⟩, leaf.kind⟩]
  | node => reached (node.sightings row.1 around)

theorem LiesAt.reachedAt_eq
    {node : Node}
    (h : LiesAt start node)
    (around : List Enclosure) :
    reachedAt around (start, node) =
      reached (node.sightings start around) := by
  cases h <;> rfl

/- What can be found in a list is found in its items. -/
theorem reached_list
    {items : List Node}
    (around : List Enclosure)
    (hItems : ∀ row ∈ placed start items, LiesAt row.1 row.2) :
    reached (sightingsOfAll start around items) =
      (placed start items).flatMap (reachedAt around) := by
  rw [sightingsOfAll_eq_flatMap, reached,
    List.filterMap_flatMap]
  refine List.flatMap_congr fun row hRow => ?_
  exact ((hItems row hRow).reachedAt_eq around).symm

/- What can be found in a pair is found in its parts. -/
theorem reached_pair
    {key : Option Nat}
    {length : Length}
    {missing : IdSet}
    {child : Option Node}
    {around : List Enclosure}
    (pair : Enclosure)
    (hDepth : around.length ≤ maxQueryDepth)
    (hChild :
      ∀ part, child = some part →
        LiesAt (start + pair.opening.length) part) :
    reached
        ((Node.pair key length missing (.bracket pair.opening)
          child (pair.closing.map .bracket)).sightings start
            around) =
      (placed start
        (.bracket pair.opening ::
          (child.toList ++
            (pair.closing.map .bracket).toList))).flatMap
              (reachedAt (pair :: around)) := by
  have hFirst :
      reached [pair.first start around] =
        reachedAt (pair :: around)
          (start, .bracket pair.opening) := by
    simp [reached, Sighting.found?, Enclosure.first, reachedAt,
      hDepth]
  have hLast :
      ∀ next,
        reached (pair.last next around) =
          (placed next
            (pair.closing.map .bracket).toList).flatMap
              (reachedAt (pair :: around)) := by
    intro next
    cases hClosing : pair.closing with
    | none => simp [reached, Enclosure.last, placed, hClosing]
    | some leaf =>
        simp [reached, Sighting.found?, Enclosure.last, placed,
          reachedAt, hClosing, hDepth]
  have hInside :
      reached
          (partSightings (start + pair.opening.length)
            (pair :: around) child) =
        (placed (start + pair.opening.length)
          child.toList).flatMap
            (reachedAt (pair :: around)) := by
    cases child with
    | none => rfl
    | some part =>
        rw [Option.toList_some, placed, placed,
          List.flatMap_singleton,
          (hChild part rfl).reachedAt_eq]
        rfl
  have hLength :
      (child.toList.map Node.length).sum = partLength child := by
    cases child <;> simp [partLength]
  rw [sightings_pair, ← List.singleton_append, reached_append,
    reached_append, placed, List.flatMap_cons, placed_append,
    List.flatMap_append, hFirst, hLast, hLength]
  exact congrArg₂ _ rfl (congrArg₂ _ hInside rfl)

/- What holds of the parts of a pair in their places. -/
theorem forall_mem_placed_parts
    {P : Position × Node → Prop}
    {child : Option Node}
    (pair : Enclosure)
    (hOpener : P (start, .bracket pair.opening))
    (hChild :
      ∀ part, child = some part →
        P (start + pair.opening.length, part))
    (hCloser :
      ∀ leaf, pair.closing = some leaf →
        P (start + pair.opening.length + partLength child,
          .bracket leaf)) :
    ∀ row ∈
        placed start
          (.bracket pair.opening ::
            (child.toList ++
              (pair.closing.map .bracket).toList)),
      P row := by
  rw [placed, List.forall_mem_cons, placed_append,
    List.forall_mem_append]
  refine ⟨hOpener, ?_, ?_⟩
  · cases child with
    | none => exact List.forall_mem_nil _
    | some part =>
        intro row hRow
        rcases List.mem_singleton.1 hRow with rfl
        exact hChild part rfl
  · cases hClosing : pair.closing with
    | none => exact List.forall_mem_nil _
    | some leaf =>
        intro row hRow
        rcases List.mem_singleton.1 hRow with rfl
        have hLeaf := hCloser leaf hClosing
        cases child with
        | none => simpa [partLength, Node.length] using hLeaf
        | some part => simpa [partLength, Node.length] using hLeaf

end Node

end Bracketry

------------------------------------------------------------
-- Going Left
------------------------------------------------------------

namespace Bracketry

namespace Node

variable {start position : Position} {around : List Enclosure}

/-
  In its row, a node is searched if it starts before the
  position, and the search finds what a scan does.
-/
structure FindsLast
    (position : Position)
    (around : List Enclosure)
    (row : Position × Node) :
    Prop where
  stop : (row.1 + row.2.length).Fits
  search :
    row.1 < position →
      lastBefore? position row.1 (row.1 + row.2.length)
          around.length row.2 =
        .ok (FoundBracket.lastBefore position
          (reachedAt around row))
  beyond :
    ¬ row.1 < position →
      FoundBracket.lastBefore position (reachedAt around row) =
        none

/- A row is searched from its last node on. -/
theorem lastOfAllBefore_eq
    {items : List Node}
    (hItems :
      ∀ row ∈ placed start items,
        FindsLast position around row) :
    lastOfAllBefore? position start around.length items =
      .ok (FoundBracket.lastBefore position
        ((placed start items).flatMap
          (reachedAt around))) := by
  induction items generalizing start with
  | nil => rfl
  | cons item rest ih =>
      rw [placed, List.forall_mem_cons] at hItems
      rcases hItems with ⟨hItem, hRest⟩
      rw [lastOfAllBefore?, Length.plus_eq_ok hItem.stop,
        placed, List.flatMap_cons,
        FoundBracket.lastBefore_append]
      simp only [bind, Except.bind, ih hRest]
      cases FoundBracket.lastBefore position
        ((placed (start + item.length) rest).flatMap
          (reachedAt around)) with
      | some found => rfl
      | none =>
          simp only [Option.none_or]
          split_ifs with hStart
          · exact hItem.search hStart
          · rw [hItem.beyond hStart]
            rfl

/- A bracket is found itself. -/
theorem findsLast_bracket
    {leaf : Bracket}
    (hStop : (start + leaf.length).Fits) :
    FindsLast position around (start, .bracket leaf) where
  stop := hStop
  search := by
    intro hStart
    simp only at hStart
    simp [lastBefore?, FoundBracket.lastBefore, reachedAt,
      hStart, Node.length]
  beyond := by
    intro hStart
    simp only at hStart
    simp [FoundBracket.lastBefore, reachedAt, hStart]

theorem LiesAt.findsLast
    {node : Node}
    (h : LiesAt start node)
    (hSearch :
      lastBefore? position start (start + node.length)
          around.length node =
        .ok (FoundBracket.lastBefore position
          (reached (node.sightings start around)))) :
    FindsLast position around (start, node) where
  stop := h.stop
  search := by
    intro _
    rw [h.reachedAt_eq]
    exact hSearch
  beyond := by
    intro hStart
    rw [h.reachedAt_eq]
    exact lastBefore_reached (h.isWithin around) hStart

/- The search of a tree finds what a scan does. -/
theorem LiesAt.lastBefore_eq
    {node : Node}
    (h : LiesAt start node)
    (position : Position)
    (around : List Enclosure) :
    lastBefore? position start (start + node.length)
        around.length node =
      .ok (FoundBracket.lastBefore position
        (reached (node.sightings start around))) := by
  induction h generalizing around with
  | text key hLength hStop => rfl
  | stray key ids hLength hStop => rfl
  | @pair start length opener child closer key missing
      hOpener hMiddle hChild hCloser hLength hStop ih =>
      by_cases hDeep : maxQueryDepth < around.length
      · have hPair :=
          LiesAt.pair key missing hOpener hMiddle hChild
            hCloser hLength hStop
        rw [lastBefore?, if_pos hDeep,
          reached_eq_nil hDeep (hPair.isWithin around)]
        rfl
      let pair : Enclosure := ⟨opener, closer⟩
      have hParts :
          ∀ row ∈
              placed start
                (.bracket opener ::
                  (child.toList ++
                    (closer.map .bracket).toList)),
            FindsLast position (pair :: around) row := by
        refine forall_mem_placed_parts pair
          (findsLast_bracket hMiddle) ?_ ?_
        · intro part hPart
          exact (hChild part hPart).findsLast (ih part hPart _)
        · intro leaf hLeaf
          have hLast : closer = some leaf := hLeaf
          rw [stop_of_pair start hLength, hLast] at hStop
          exact findsLast_bracket hStop
      rw [lastBefore_pair _ _ _ _ _ _ _ _ _ hDeep,
        reached_pair pair (not_lt.1 hDeep) hChild]
      exact lastOfAllBefore_eq hParts
  | @list start length items key height missing hSome hItems
      hLength hStop ih =>
      by_cases hDeep : maxQueryDepth < around.length
      · have hList :=
          LiesAt.list key height missing hSome hItems hLength
            hStop
        rw [lastBefore?, if_pos hDeep,
          reached_eq_nil hDeep (hList.isWithin around)]
        rfl
      · rw [lastBefore?, if_neg hDeep, sightings,
          reached_list around hItems]
        exact lastOfAllBefore_eq fun row hRow =>
          (hItems row hRow).findsLast (ih row hRow around)

end Node

end Bracketry

------------------------------------------------------------
-- Going Right
------------------------------------------------------------

namespace Bracketry

namespace Node

variable {start position : Position} {around : List Enclosure}

/-
  In its row, a node is searched if it ends behind the
  position, and the search finds what a scan does.
-/
structure FindsFirst
    (position : Position)
    (around : List Enclosure)
    (row : Position × Node) :
    Prop where
  stop : (row.1 + row.2.length).Fits
  search :
    position < row.1 + row.2.length →
      firstAfter? position row.1 (row.1 + row.2.length)
          around.length row.2 =
        .ok (FoundBracket.firstAfter position
          (reachedAt around row))
  beyond :
    ¬ position < row.1 + row.2.length →
      FoundBracket.firstAfter position (reachedAt around row) =
        none

/- A row is searched from its first node on. -/
theorem firstOfAllAfter_eq
    {items : List Node}
    (hItems :
      ∀ row ∈ placed start items,
        FindsFirst position around row) :
    firstOfAllAfter? position start around.length items =
      .ok (FoundBracket.firstAfter position
        ((placed start items).flatMap
          (reachedAt around))) := by
  induction items generalizing start with
  | nil => rfl
  | cons item rest ih =>
      rw [placed, List.forall_mem_cons] at hItems
      rcases hItems with ⟨hItem, hRest⟩
      rw [firstOfAllAfter?, Length.plus_eq_ok hItem.stop,
        placed, List.flatMap_cons,
        FoundBracket.firstAfter_append]
      simp only [bind, Except.bind]
      split_ifs with hStop
      · have hSearch := hItem.search hStop
        rw [hSearch]
        cases FoundBracket.firstAfter position
          (reachedAt around (start, item)) with
        | some found => rfl
        | none =>
            rw [Option.none_or]
            exact ih hRest
      · rw [hItem.beyond hStop, Option.none_or, ← ih hRest]
        rfl

/- A bracket is found itself. -/
theorem findsFirst_bracket
    {leaf : Bracket}
    (hStop : (start + leaf.length).Fits) :
    FindsFirst position around (start, .bracket leaf) where
  stop := hStop
  search := by
    intro hBehind
    simp only [Node.length] at hBehind
    simp [firstAfter?, FoundBracket.firstAfter, reachedAt,
      hBehind, Node.length]
  beyond := by
    intro hBehind
    simp only [Node.length] at hBehind
    simp [FoundBracket.firstAfter, reachedAt, hBehind]

theorem LiesAt.findsFirst
    {node : Node}
    (h : LiesAt start node)
    (hSearch :
      firstAfter? position start (start + node.length)
          around.length node =
        .ok (FoundBracket.firstAfter position
          (reached (node.sightings start around)))) :
    FindsFirst position around (start, node) where
  stop := h.stop
  search := by
    intro _
    rw [h.reachedAt_eq]
    exact hSearch
  beyond := by
    intro hStop
    rw [h.reachedAt_eq]
    exact firstAfter_reached (h.isWithin around) hStop

/- The search of a tree finds what a scan does. -/
theorem LiesAt.firstAfter_eq
    {node : Node}
    (h : LiesAt start node)
    (position : Position)
    (around : List Enclosure) :
    firstAfter? position start (start + node.length)
        around.length node =
      .ok (FoundBracket.firstAfter position
        (reached (node.sightings start around))) := by
  induction h generalizing around with
  | text key hLength hStop => rfl
  | stray key ids hLength hStop => rfl
  | @pair start length opener child closer key missing
      hOpener hMiddle hChild hCloser hLength hStop ih =>
      by_cases hDeep : maxQueryDepth < around.length
      · have hPair :=
          LiesAt.pair key missing hOpener hMiddle hChild
            hCloser hLength hStop
        rw [firstAfter?, if_pos hDeep,
          reached_eq_nil hDeep (hPair.isWithin around)]
        rfl
      let pair : Enclosure := ⟨opener, closer⟩
      have hParts :
          ∀ row ∈
              placed start
                (.bracket opener ::
                  (child.toList ++
                    (closer.map .bracket).toList)),
            FindsFirst position (pair :: around) row := by
        refine forall_mem_placed_parts pair
          (findsFirst_bracket hMiddle) ?_ ?_
        · intro part hPart
          exact (hChild part hPart).findsFirst (ih part hPart _)
        · intro leaf hLeaf
          have hLast : closer = some leaf := hLeaf
          rw [stop_of_pair start hLength, hLast] at hStop
          exact findsFirst_bracket hStop
      rw [firstAfter_pair _ _ _ _ _ _ _ _ _ hDeep,
        reached_pair pair (not_lt.1 hDeep) hChild]
      exact firstOfAllAfter_eq hParts
  | @list start length items key height missing hSome hItems
      hLength hStop ih =>
      by_cases hDeep : maxQueryDepth < around.length
      · have hList :=
          LiesAt.list key height missing hSome hItems hLength
            hStop
        rw [firstAfter?, if_pos hDeep,
          reached_eq_nil hDeep (hList.isWithin around)]
        rfl
      · rw [firstAfter?, if_neg hDeep, sightings,
          reached_list around hItems]
        exact firstOfAllAfter_eq fun row hRow =>
          (hItems row hRow).findsFirst (ih row hRow around)

end Node

end Bracketry

------------------------------------------------------------
-- Nearest Brackets
------------------------------------------------------------

namespace Bracketry

namespace Node

/- All brackets of a tree that can be found, in order. -/
def plainFound
    (root : Node) :
    List FoundBracket :=
  reached (root.sightings 0 [])

/-
  The nearest bracket to the left is the last of the list
  that starts before the position, and that to the right is
  the first that ends behind it.
-/
theorem nearest_eq_scan
    {root : Node}
    (position : Position)
    (hBuilt : root.IsBuilt) :
    root.bracketBefore? position =
        .ok (root.plainFound.filter
          (·.range.start < position)).getLast? ∧
      root.bracketAfter? position =
        .ok (root.plainFound.filter
          (position < ·.range.stop)).head? := by
  rcases hBuilt.liesAt with hRoot | ⟨key, rfl⟩
  · have hBefore := hRoot.lastBefore_eq position []
    have hAfter := hRoot.firstAfter_eq position []
    rw [zero_add] at hBefore hAfter
    exact ⟨hBefore, hAfter⟩
  · exact ⟨rfl, rfl⟩

/- A pair with a stray bracket on each side of it. -/
theorem nearest_eq_scan_parens :
    let declaration : BracketDeclaration :=
      ⟨[⟨['('], [')']⟩], none⟩
    let stream :=
      TokenStream.ofText
        (TokenTable.ofDeclaration declaration)
        [')', '(', 'a', ')', ')']
    ∃ root stats first last,
      parseDocument stream [] none = .ok (root, stats) ∧
        root.plainFound = [first, last] ∧
        root.bracketBefore? ⟨0, 5⟩ = .ok (some last) ∧
        root.bracketBefore? ⟨0, 1⟩ = .ok none ∧
        root.bracketAfter? ⟨0, 0⟩ = .ok (some first) := by
  intro declaration stream
  let test (root : Node) : Bool :=
    decide (root.plainFound.map (·.range) =
      [⟨⟨0, 1⟩, ⟨0, 2⟩⟩, ⟨⟨0, 3⟩, ⟨0, 4⟩⟩])
  rcases exists_isBuilt test
      (show (parseDocument stream [] none).toOption.any _ =
        true by decide +kernel) with
    ⟨root, stats, hParse, hBuilt, hTest⟩
  have hRanges :
      root.plainFound.map (·.range) =
        [⟨⟨0, 1⟩, ⟨0, 2⟩⟩, ⟨⟨0, 3⟩, ⟨0, 4⟩⟩] :=
    of_decide_eq_true hTest
  rcases List.map_eq_cons_iff.1 hRanges with
    ⟨first, _, hPlain, hFirst, hTail⟩
  rcases List.map_eq_cons_iff.1 hTail with
    ⟨last, _, rfl, hLast, hNil⟩
  rcases List.map_eq_nil_iff.1 hNil with rfl
  rcases nearest_eq_scan ⟨0, 5⟩ hBuilt with ⟨hBefore, _⟩
  rcases nearest_eq_scan ⟨0, 1⟩ hBuilt with ⟨hNone, _⟩
  rcases nearest_eq_scan ⟨0, 0⟩ hBuilt with ⟨_, hAfter⟩
  simp only [hPlain, List.filter_cons, List.filter_nil,
    hFirst, hLast] at hBefore hNone hAfter
  exact ⟨root, stats, first, last, hParse, hPlain, hBefore,
    hNone, hAfter⟩

end Node

end Bracketry
